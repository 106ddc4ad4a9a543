import RebecaLayout.Proofs.Region
import RebecaLayout.Proofs.Runs

/-!
**How runs end.**

* `Derails` -- what ends a run without a status: an input that is no text, a path that names
  nothing, an output that cannot be written, a region whose numbers cannot be reported;
* `spoils`, `leaves` -- what makes the status 1, and what makes it 2;
* `processInput_derails`, `processInput_leaves`, `processInput_passes` -- one input; `Passed` --
  what it leaves to the inputs behind it;
* `processAll_several`, `processAll_ending` -- **a run, by induction on its inputs**;
* `processInput_behind`, `processAll_behind` -- what was printed before changes nothing;
* `processAll_without` -- **an input that cannot be read makes the status 1 and changes nothing
  else**;
* `run_ending` -- when a run ends with a status, and with which.
-/

namespace RebecaLayout.Command

variable {options : Options} {s s' : Session} {path : Path} {inputs : List Path}
  {source formatted : Text} {problem : Problem}

/-! ## 1. Inputs -/

/-- The text of an input, if it has one. -/
def sourceOf? (s : Session) (path : Path) : Option Text :=
  if path == standardInput then some (feedsOnly s.stdin)
  else (s.tree.read path).toOption.bind decodeText?

/-- Whether the region of a run leaves the text of an input. -/
def leaves (options : Options) (s : Session) (path : Path) : Bool :=
  (sourceOf? s path).any fun source =>
    options.region.any fun region => decide (source.length < region.1 + region.2)

/-- Whether an input spoils the status: it cannot be read, or it is checked and is outdated. -/
def spoils (options : Options) (s : Session) (path : Path) : Bool :=
  (path != standardInput && !isReadable s.tree path) ||
    (options.check && (sourceOf? s path).any fun source =>
      decide (formatUnder options (dialectOf options path) source ≠ .ok source))

/-- What ends a run without a status. -/
inductive Derails (options : Options) (s : Session) (path : Path) : Prop
  /-- The path has a null character and so names nothing. -/
  | nameless (file : path ≠ standardInput) (read : s.tree.read path = .error .nullCharacter)
  /-- The file is no text. -/
  | undecodable {content : ByteArray} (file : path ≠ standardInput)
      (read : s.tree.read path = .ok content) (content_none : decodeText? content = none)
  /-- The region leaves the text, and its numbers are too long to be reported. -/
  | unreportable {source : Text} {offset length : Nat} (text : sourceOf? s path = some source)
      (region : options.region = some (offset, length)) (outside : source.length < offset + length)
      (long : isReportable offset length source.length = false)
  /-- The output cannot be written. -/
  | unwritable {source : Text} {output : Path} {problem : Problem}
      (text : sourceOf? s path = some source) (inside : leaves options s path = false)
      (check : options.check = false) (inPlace : options.inPlace = false)
      (given : options.output = some output)
      (write : ∀ content, s.tree.write output content = .error problem)

/-- The session with a text read: nothing is left of the standard input if it came from there, and
    the tokens are listed on request. -/
def listed (options : Options) (s : Session) (path : Path) (source : Text) : Session :=
  { s with
    stdin := if path == standardInput then [] else s.stdin
    stderr := s.stderr ++
      if options.debug then inputListing path (dialectOf options path) source else [] }

theorem readInput_source (h : sourceOf? s path = some source) :
    readInput s path =
      ({ s with stdin := if path == standardInput then [] else s.stdin }, .ok source) := by
  unfold sourceOf? at h
  unfold readInput
  split
  · next hstdin =>
    rw [if_pos hstdin] at h
    rw [Option.some.inj h]
  · next hfile =>
    rw [if_neg hfile] at h
    obtain ⟨content, hcontent, htext⟩ := Option.bind_eq_some_iff.mp h
    cases hread : s.tree.read path with
    | error problem =>
      rw [hread] at hcontent
      cases hcontent
    | ok content' =>
      rw [hread] at hcontent
      obtain rfl : content' = content := Option.some.inj hcontent
      dsimp only
      rw [htext]

theorem formatInput_source (h : sourceOf? s path = some source) :
    formatInput options s path = (listed options s path source,
      ((formatUnder options (dialectOf options path) source).mapError InputError.failure).map
        fun formatted => (source, formatted)) := by
  rw [formatInput, readInput_source h]
  unfold listed
  dsimp only
  cases options.debug <;> cases formatUnder options (dialectOf options path) source <;> simp <;> rfl

/-- **An input with a layout** is handed on. -/
theorem processInput_ok (h : sourceOf? s path = some source)
    (hlayout : formatUnder options (dialectOf options path) source = .ok formatted) :
    processInput options s path =
      deliver options (listed options s path source) path source formatted := by
  rw [processInput, formatInput_source h, hlayout]
  rfl

theorem processInput_outOfBounds (h : sourceOf? s path = some source) {offset length : Int}
    {size : Nat} (hlayout : formatUnder options (dialectOf options path) source =
      .error (.outOfBounds offset length size)) :
    processInput options s path = ((listed options s path source).complain
      (Failure.outOfBounds offset length size).report, .stop (.exit 2)) := by
  rw [processInput, formatInput_source h, hlayout]
  rfl

theorem processInput_unwritable (h : sourceOf? s path = some source)
    (hlayout : formatUnder options (dialectOf options path) source = .error .unwritable) :
    processInput options s path =
      (listed options s path source, .stop (.escaped (.failure .unwritable))) := by
  rw [processInput, formatInput_source h, hlayout]
  rfl

theorem readInput_problem (hfile : path ≠ standardInput) (h : s.tree.read path = .error problem) :
    readInput s path = (s, .error (.unreadable problem)) := by
  have hne : (path == standardInput) = false := beq_eq_false_iff_ne.mpr hfile
  simp [readInput, hne, h]

/-- What is said about an input that cannot be read. -/
def complaint (path : Path) (problem : Problem) : Text :=
  "error: cannot read ".toList ++ path.shown ++ ": ".toList ++ problem.message

/-- **An input that cannot be read** is complained of. -/
theorem processInput_problem (hfile : path ≠ standardInput)
    (h : s.tree.read path = .error problem) (hnull : problem ≠ .nullCharacter) :
    processInput options s path = (s.complain (complaint path problem), .goOn true) := by
  have hsome : problem.code? ≠ none := fun hnone => hnull (code?_eq_none_iff.mp hnone)
  obtain ⟨code, hcode⟩ := Option.ne_none_iff_exists'.mp hsome
  rw [processInput, formatInput, readInput_problem hfile h]
  dsimp only
  rw [hcode]
  rfl

/-! ## 2. Layouts under the options of a run -/

theorem formatUnder_ok (hs : Sound options) (dialect : Dialect)
    (h : ∀ region ∈ options.region, region.1 + region.2 ≤ source.length) :
    ∃ formatted, formatUnder options dialect source = .ok formatted := by
  have hblank : ∀ u ∈ options.indent, ∀ c ∈ u, Text.isBlank c = true :=
    fun u hu => blank_of_unit (hs.indent u hu)
  unfold formatUnder
  cases hregion : options.region with
  | none => exact ⟨_, formatSource_rendered hblank hs.newline dialect source⟩
  | some region =>
    have hunit : ∀ u ∈ options.indent, u ≠ [] ∧ ∀ c ∈ u, Text.isBlank c = true :=
      fun u hu => ⟨ne_nil_of_unit (hs.indent u hu), hblank u hu⟩
    obtain ⟨depth, hlaid⟩ := formatRegion_eq hunit hs.newline dialect (h region hregion)
    obtain ⟨offset, length⟩ := region
    dsimp only at hlaid ⊢
    rw [hlaid]
    exact ⟨_, rfl⟩

theorem formatUnder_leaves (dialect : Dialect) {offset length : Nat}
    (hregion : options.region = some (offset, length)) (h : source.length < offset + length) :
    formatUnder options dialect source = .error (.ofRegion offset length source.length) := by
  have houtside : Outside source offset length := Or.inr (Or.inr (by omega))
  rw [formatUnder, hregion]
  dsimp only
  rw [formatRegion_outside dialect options.indent options.newline houtside]
  rfl

/-! ## 3. One input -/

theorem inside_of_leaves (h : sourceOf? s path = some source) (hl : leaves options s path = false) :
    ∀ region ∈ options.region, region.1 + region.2 ≤ source.length := by
  intro region hregion
  rw [leaves, h, Option.any_some, hregion, Option.any_some, decide_eq_false_iff_not] at hl
  omega

theorem writeFile_error {content : Text}
    (h : s.tree.write path (encodeText content) = .error problem) :
    writeFile s path content = (s, .stop (.escaped (.inaccessible path problem))) := by
  rw [writeFile, h]

theorem writeFile_ok {content : Text} {tree : FileTree}
    (h : s.tree.write path (encodeText content) = .ok tree) :
    writeFile s path content = ({ s with tree }, .goOn false) := by
  rw [writeFile, h]

/-- **An input that derails a run.** -/
theorem processInput_derails (hs : Sound options) (h : Derails options s path) :
    ∃ s' cause, processInput options s path = (s', .stop (.escaped cause)) := by
  cases h with
  | nameless file read =>
    rw [processInput, formatInput, readInput_problem file read]
    exact ⟨_, _, rfl⟩
  | @undecodable content file read content_none =>
    have hne : (path == standardInput) = false := beq_eq_false_iff_ne.mpr file
    have hinput : readInput s path = (s, .error .undecodable) := by
      simp [readInput, hne, read, content_none]
    rw [processInput, formatInput, hinput]
    exact ⟨_, _, rfl⟩
  | unreportable text region outside long =>
    have hlayout := formatUnder_leaves (dialectOf options path) region outside
    rw [Failure.ofRegion, long, if_neg Bool.false_ne_true] at hlayout
    exact ⟨_, _, processInput_unwritable text hlayout⟩
  | @unwritable source output problem text inside check inPlace given write =>
    obtain ⟨formatted, hlayout⟩ :=
      formatUnder_ok hs (dialectOf options path) (inside_of_leaves text inside)
    rw [processInput_ok text hlayout, deliver, check, inPlace, if_neg Bool.false_ne_true,
      if_neg Bool.false_ne_true, given]
    exact ⟨_, _, writeFile_error (write (encodeText formatted))⟩

/-- **An input that the region leaves** ends the run with a report. -/
theorem processInput_leaves (hd : ¬ Derails options s path) (hl : leaves options s path = true) :
    ∃ s', processInput options s path = (s', .stop (.exit 2)) := by
  obtain ⟨source, hsource, hregion⟩ := (Option.any_eq_true _ _).mp hl
  obtain ⟨⟨offset, length⟩, hasked, houtside⟩ := (Option.any_eq_true _ _).mp hregion
  have hlayout := formatUnder_leaves (dialectOf options path) hasked (of_decide_eq_true houtside)
  have hshort : isReportable offset length source.length = true := by
    by_contra hlong
    exact hd (.unreportable hsource hasked (of_decide_eq_true houtside) (by simpa using hlong))
  rw [Failure.ofRegion, hshort, if_pos rfl] at hlayout
  exact ⟨_, processInput_outOfBounds hsource hlayout⟩

/-- What an input leaves behind for those after it. -/
structure Passed (options : Options) (path : Path) (s s' : Session) : Prop where
  kept : options.output = none → FileTree.Kept s.tree s'.tree
  checked : options.check = true → s'.tree = s.tree
  stdin : s'.stdin = if path == standardInput then [] else s.stdin

theorem Passed.complain (h : Passed options path s s') (line : Text) :
    Passed options path s (s'.complain line) := ⟨h.kept, h.checked, h.stdin⟩

theorem Passed.print (h : Passed options path s s') (t : Text) :
    Passed options path s (s'.print t) := ⟨h.kept, h.checked, h.stdin⟩

theorem Passed.write (h : Passed options path s s') (hcheck : options.check = false)
    {tree : FileTree} (htree : options.output = none → FileTree.Kept s'.tree tree) :
    Passed options path s { s' with tree } := by
  refine ⟨fun hnone => (h.kept hnone).trans (htree hnone), fun hchecked => ?_, h.stdin⟩
  rw [hcheck] at hchecked
  cases hchecked

/-- A formatted input is handed on, if the output can be written: nothing but the file of the input
    or the output changes, and the status is spoilt only by a check. -/
theorem deliver_passes (h : Passed options path s s')
    (hread : options.inPlace = true → s'.tree.read path = .ok (encodeText source))
    (hwrite : options.check = false → options.inPlace = false → ∀ output ∈ options.output,
      ∃ tree, s'.tree.write output (encodeText formatted) = .ok tree) :
    ∃ s'', deliver options s' path source formatted =
        (s'', .goOn (options.check && decide (formatted ≠ source))) ∧
      Passed options path s s'' := by
  unfold deliver
  cases hcheck : options.check with
  | true =>
    rw [if_pos rfl]
    by_cases hsame : formatted = source
    · exact ⟨s', by simp [hsame], h⟩
    · exact ⟨_, by rw [if_neg (by simpa using hsame), decide_eq_true hsame]; rfl, h.complain _⟩
  | false =>
    rw [if_neg Bool.false_ne_true, Bool.false_and]
    cases hinPlace : options.inPlace with
    | true =>
      rw [if_pos rfl]
      by_cases hsame : formatted = source
      · exact ⟨s', by simp [hsame], h⟩
      · obtain ⟨place, hplace, -, hfile⟩ := FileTree.read_eq_ok_iff.mp (hread hinPlace)
        have hput := FileTree.write_of_read hplace (hread hinPlace) (encodeText formatted)
        rw [if_neg (by simpa using hsame), writeFile_ok hput]
        exact ⟨_, rfl, (h.write hcheck fun _ => FileTree.kept_put hfile).complain _⟩
    | false =>
      rw [if_neg Bool.false_ne_true]
      cases houtput : options.output with
      | none => exact ⟨_, rfl, h.print _⟩
      | some output =>
        obtain ⟨tree, htree⟩ := hwrite hcheck hinPlace output houtput
        refine ⟨_, writeFile_ok htree, h.write hcheck fun hnone => ?_⟩
        rw [houtput] at hnone
        cases hnone

theorem read_of_sourceOf? (hfile : path ≠ standardInput) (h : sourceOf? s path = some source) :
    s.tree.read path = .ok (encodeText source) := by
  rw [sourceOf?, if_neg (by simpa using hfile)] at h
  obtain ⟨content, hcontent, htext⟩ := Option.bind_eq_some_iff.mp h
  rw [decodeText?_eq_some_iff] at htext
  cases hread : s.tree.read path with
  | error problem =>
    rw [hread] at hcontent
    cases hcontent
  | ok content' =>
    rw [hread] at hcontent
    rw [← htext, ← Option.some.inj hcontent]

/-- Whether an input cannot be read. The standard input always can. -/
theorem isReadable_of_sourceOf? (h : sourceOf? s path = some source) :
    (path != standardInput && !isReadable s.tree path) = false := by
  by_cases hfile : path = standardInput
  · rw [hfile, bne_self_eq_false, Bool.false_and]
  · rw [isReadable, read_of_sourceOf? hfile h]
    exact Bool.and_false _

/-- **Any other input** is dealt with, and the run goes on. -/
theorem processInput_passes (hs : Sound options) (hpath : path ∈ options.inputs)
    (hd : ¬ Derails options s path) (hl : leaves options s path = false) :
    ∃ s', processInput options s path = (s', .goOn (spoils options s path)) ∧
      Passed options path s s' := by
  cases hsource : sourceOf? s path with
  | some source =>
    obtain ⟨formatted, hlayout⟩ :=
      formatUnder_ok hs (dialectOf options path) (inside_of_leaves hsource hl)
    have hspoils : spoils options s path = (options.check && decide (formatted ≠ source)) := by
      rw [spoils, isReadable_of_sourceOf? hsource, hsource, Option.any_some, hlayout, Bool.false_or]
      simp
    rw [hspoils, processInput_ok hsource hlayout]
    refine deliver_passes ⟨fun _ => .refl _, fun _ => rfl, rfl⟩ (fun hinPlace => ?_)
      fun hcheck hinPlace output houtput => ?_
    · have hfile : path ≠ standardInput := fun e => hs.file hinPlace (e ▸ hpath)
      exact (read_of_sourceOf? hfile hsource : s.tree.read path = _)
    · rcases FileTree.write_cases s.tree output with ⟨problem, hproblem⟩ | hwrite
      · exact absurd (.unwritable hsource hl hcheck hinPlace houtput hproblem) hd
      · exact hwrite _
  | none =>
    have hfile : path ≠ standardInput := by
      rintro rfl
      cases hsource
    have hne : (path == standardInput) = false := beq_eq_false_iff_ne.mpr hfile
    cases hread : s.tree.read path with
    | ok content =>
      refine absurd (.undecodable hfile hread ?_) hd
      rw [sourceOf?, hne, if_neg Bool.false_ne_true, hread] at hsource
      exact hsource
    | error problem =>
      have hnull : problem ≠ .nullCharacter := by
        rintro rfl
        exact hd (.nameless hfile hread)
      have hspoils : spoils options s path = true := by
        rw [spoils, isReadable, hread, bne_iff_ne.mpr hfile]
        rfl
      refine ⟨_, by rw [hspoils]; exact processInput_problem hfile hread hnull, ?_⟩
      exact Passed.complain ⟨fun _ => .refl _, fun _ => rfl, by rw [hne]; rfl⟩ _

/-! ## 4. Several inputs -/

section Several

variable (hregion : options.region = none) (houtput : options.output = none)

include hregion in
/-- Without a region no text is left. -/
theorem leaves_eq_false (s : Session) (path : Path) : leaves options s path = false := by
  unfold leaves
  rw [hregion]
  cases sourceOf? s path <;> rfl

include hregion houtput in
/-- **What derails a run of several inputs is in the files**, and what passes leaves it there. -/
theorem Passed.derails_iff (h : Passed options path s s') (q : Path) :
    Derails options s' q ↔ Derails options s q := by
  have hmove : ∀ {r r' : Session}, FileTree.Kept r.tree r'.tree → Derails options r q →
      Derails options r' q := by
    intro r r' hkept hd
    cases hd with
    | nameless file read => exact .nameless file (hkept.read_error read)
    | undecodable file read content_none =>
      obtain ⟨content, hcontent, hnone⟩ := hkept.no_text read content_none
      exact .undecodable file hcontent hnone
    | unreportable _ region =>
      rw [hregion] at region
      cases region
    | unwritable _ _ _ _ given =>
      rw [houtput] at given
      cases given
  exact ⟨hmove (h.kept houtput).symm, hmove (h.kept houtput)⟩

theorem isReadable_kept {tree tree' : FileTree} (h : FileTree.SameShape tree tree') (q : Path) :
    isReadable tree' q = isReadable tree q := by
  unfold isReadable
  cases hread : tree.read q with
  | error problem => rw [h.read_error hread]
  | ok content =>
    cases hread' : tree'.read q with
    | error problem =>
      rw [h.symm.read_error hread'] at hread
      cases hread
    | ok content' => rfl

/-- The text of an input depends on the files, or on what the standard input holds. -/
theorem sourceOf?_congr {q : Path} (htree : s'.tree = s.tree)
    (hstdin : q = standardInput → s'.stdin = s.stdin) : sourceOf? s' q = sourceOf? s q := by
  unfold sourceOf?
  rw [htree]
  split
  · next hq => rw [hstdin (beq_iff_eq.mp hq)]
  · rfl

include hregion houtput in
/-- Nor does it matter for the status which of the inputs come later. The standard input is empty
    once it is read, and so it can be outdated only the first time. -/
theorem Passed.spoils_eq (h : Passed options path s s') (q : Path) :
    (spoils options s path || spoils options s' q) =
      (spoils options s path || spoils options s q) := by
  cases hcheck : options.check with
  | false =>
    have hsame : spoils options s' q = spoils options s q := by
      simp only [spoils, hcheck, Bool.false_and]
      rw [isReadable_kept (h.kept houtput).toSameShape]
    rw [hsame]
  | true =>
    have htree := h.checked hcheck
    by_cases htwice : q = standardInput ∧ path = standardInput
    · obtain ⟨rfl, rfl⟩ := htwice
      have hempty : sourceOf? s' standardInput = some [] := by
        rw [sourceOf?, beq_self_eq_true, if_pos rfl, h.stdin, beq_self_eq_true, if_pos rfl]
        rfl
      have hlayout : formatUnder options (dialectOf options standardInput) [] = .ok [] := by
        rw [formatUnder, hregion]
        rfl
      have hlater : spoils options s' standardInput = false := by
        simp [spoils, hempty, hlayout]
      rw [hlater, Bool.or_self, Bool.or_false]
    · have hsource : sourceOf? s' q = sourceOf? s q := by
        refine sourceOf?_congr htree fun hq => ?_
        have hne : (path == standardInput) = false :=
          beq_eq_false_iff_ne.mpr fun hpath => htwice ⟨hq, hpath⟩
        rw [h.stdin, hne]
        rfl
      have hsame : spoils options s' q = spoils options s q := by
        rw [spoils, spoils, hsource, htree]
      rw [hsame]

include hregion houtput in
/-- **A run over several inputs, by induction on them.** -/
theorem processAll_several (hs : Sound options) (hinputs : ∀ p ∈ inputs, p ∈ options.inputs)
    (spoilt : Bool) :
    ((∃ p ∈ inputs, Derails options s p) →
        ∃ s' cause, processAll options spoilt s inputs = (s', .escaped cause)) ∧
      ((∀ p ∈ inputs, ¬ Derails options s p) → ∃ s', processAll options spoilt s inputs =
        (s', .exit (if spoilt || inputs.any (spoils options s) then 1 else 0))) := by
  induction inputs generalizing s spoilt with
  | nil => exact ⟨by simp, fun _ => ⟨s, by simp [processAll]⟩⟩
  | cons p rest ih =>
    have hp := hinputs p List.mem_cons_self
    by_cases hd : Derails options s p
    · obtain ⟨s', cause, hstep⟩ := processInput_derails hs hd
      refine ⟨fun _ => ⟨s', cause, ?_⟩, fun hnone => absurd hd (hnone p List.mem_cons_self)⟩
      rw [processAll, hstep]
    · obtain ⟨s', hstep, hpassed⟩ := processInput_passes hs hp hd (leaves_eq_false hregion s p)
      have hrest := ih (s := s') (fun q hq => hinputs q (List.mem_cons_of_mem p hq))
        (spoilt || spoils options s p)
      simp only [hpassed.derails_iff hregion houtput] at hrest
      have hany : (spoilt || spoils options s p || rest.any (spoils options s')) =
          (spoilt || (p :: rest).any (spoils options s)) := by
        rw [List.any_cons, Bool.or_assoc]
        congr 1
        cases hspoils : spoils options s p with
        | true => rfl
        | false =>
          have heq := hpassed.spoils_eq hregion houtput
          simp only [hspoils, Bool.false_or] at heq ⊢
          rw [show spoils options s' = spoils options s from funext heq]
      rw [processAll, hstep]
      dsimp only
      rw [hany] at hrest
      refine ⟨fun hex => hrest.1 ?_,
        fun hnone => hrest.2 fun q hq => hnone q (List.mem_cons_of_mem p hq)⟩
      obtain ⟨q, hq, hdq⟩ := hex
      rcases List.mem_cons.mp hq with rfl | hq
      · exact absurd hdq hd
      · exact ⟨q, hq, hdq⟩

end Several

/-! ## 5. Endings -/

/-- The status of a run that has one: 2 if a region leaves its text, else 1 if an input cannot be
    read, or is checked and is outdated. -/
def statusOf (options : Options) (s : Session) : Nat :=
  if options.inputs.any (leaves options s) then 2
  else if options.inputs.any (spoils options s) then 1 else 0

/-- **When the inputs of a run leave it a status, and which.** -/
theorem processAll_ending (hs : Sound options) (s : Session) :
    ((∃ p ∈ options.inputs, Derails options s p) →
        ∃ s' cause, processAll options false s options.inputs = (s', .escaped cause)) ∧
      ((∀ p ∈ options.inputs, ¬ Derails options s p) →
        ∃ s', processAll options false s options.inputs = (s', .exit (statusOf options s))) := by
  rcases hs.several with ⟨hregion, houtput⟩ | hsingle
  · have hinside : options.inputs.any (leaves options s) = false := by
      rw [List.any_eq_false]
      exact fun p _ => by rw [leaves_eq_false hregion]; exact Bool.false_ne_true
    have hrun := processAll_several hregion houtput hs (s := s) (fun p hp => hp) false
    rw [Bool.false_or] at hrun
    rw [statusOf, hinside, if_neg Bool.false_ne_true]
    exact hrun
  · unfold statusOf
    cases hin : options.inputs with
    | nil => exact ⟨by simp, fun _ => ⟨s, rfl⟩⟩
    | cons p rest =>
      obtain rfl : rest = [] := by
        rw [hin, List.length_cons] at hsingle
        exact List.length_eq_zero_iff.mp (by omega)
      simp only [List.mem_singleton, exists_eq_left, forall_eq, List.any_cons, List.any_nil,
        Bool.or_false]
      refine ⟨fun hd => ?_, fun hd => ?_⟩
      · obtain ⟨s', cause, hstep⟩ := processInput_derails hs hd
        exact ⟨s', cause, by rw [processAll, hstep]⟩
      · cases hl : leaves options s p with
        | true =>
          obtain ⟨s', hstep⟩ := processInput_leaves hd hl
          exact ⟨s', by rw [processAll, hstep, if_pos rfl]⟩
        | false =>
          obtain ⟨s', hstep, -⟩ :=
            processInput_passes hs (hin ▸ List.mem_cons_self) hd hl
          refine ⟨s', ?_⟩
          rw [processAll, hstep, if_neg Bool.false_ne_true]
          rfl

/-! ## 6. Inputs that cannot be read -/

/-- The session with something printed before it. -/
def Session.behind (w : Text) (s : Session) : Session := { s with stderr := w ++ s.stderr }

theorem complain_behind (w : Text) (s : Session) (line : Text) :
    (s.behind w).complain line = (s.complain line).behind w := by
  simp [Session.behind, Session.complain, List.append_assoc]

theorem readInput_behind (w : Text) (s : Session) (path : Path) :
    readInput (s.behind w) path = ((readInput s path).1.behind w, (readInput s path).2) := by
  unfold readInput Session.behind
  split
  · rfl
  · cases s.tree.read path with
    | error problem => rfl
    | ok content => cases hcontent : decodeText? content <;> simp [hcontent]

theorem formatInput_behind (w : Text) (options : Options) (s : Session) (path : Path) :
    formatInput options (s.behind w) path =
      ((formatInput options s path).1.behind w, (formatInput options s path).2) := by
  rw [formatInput, formatInput, readInput_behind]
  obtain ⟨s', cause | source⟩ := readInput s path
  · rfl
  · dsimp only
    cases options.debug <;> cases formatUnder options (dialectOf options path) source <;>
      simp [Session.behind, List.append_assoc]

theorem writeFile_behind (w : Text) (s : Session) (path : Path) (t : Text) :
    writeFile (s.behind w) path t = ((writeFile s path t).1.behind w, (writeFile s path t).2) := by
  unfold writeFile
  cases hwrite : s.tree.write path (encodeText t) <;> simp [Session.behind, hwrite]

theorem deliver_behind (w : Text) (options : Options) (s : Session) (path : Path)
    (source formatted : Text) : deliver options (s.behind w) path source formatted =
      ((deliver options s path source formatted).1.behind w,
        (deliver options s path source formatted).2) := by
  unfold deliver
  cases options.check with
  | true =>
    rw [if_pos rfl, if_pos rfl, complain_behind]
    split <;> rfl
  | false =>
    rw [if_neg Bool.false_ne_true, if_neg Bool.false_ne_true]
    cases options.inPlace with
    | true =>
      rw [if_pos rfl, if_pos rfl, writeFile_behind]
      split
      · rfl
      · obtain ⟨s', spoilt | ending⟩ := writeFile s path formatted
        · exact congrArg (·, Verdict.goOn spoilt) (complain_behind w s' _)
        · rfl
    | false =>
      rw [if_neg Bool.false_ne_true, if_neg Bool.false_ne_true]
      cases options.output with
      | none => rfl
      | some output => exact writeFile_behind w s output formatted

/-- **What was printed before changes nothing** about an input. -/
theorem processInput_behind (w : Text) (options : Options) (s : Session) (path : Path) :
    processInput options (s.behind w) path =
      ((processInput options s path).1.behind w, (processInput options s path).2) := by
  rw [processInput, processInput, formatInput_behind]
  obtain ⟨s', cause | ⟨source, formatted⟩⟩ := formatInput options s path
  · cases cause with
    | unreadable problem =>
      dsimp only
      cases problem.code? with
      | none => rfl
      | some code => exact congrArg (·, Verdict.goOn true) (complain_behind w s' _)
    | undecodable => rfl
    | failure cause =>
      cases cause with
      | outOfBounds offset length size =>
        exact congrArg (·, Verdict.stop (.exit 2)) (complain_behind w s' _)
      | _ => rfl
  · exact deliver_behind w options s' path source formatted

theorem processAll_behind (w : Text) (options : Options) (spoilt : Bool) (s : Session)
    (inputs : List Path) : processAll options spoilt (s.behind w) inputs =
      ((processAll options spoilt s inputs).1.behind w,
        (processAll options spoilt s inputs).2) := by
  induction inputs generalizing spoilt s with
  | nil => rfl
  | cons p rest ih =>
    rw [processAll, processAll, processInput_behind]
    obtain ⟨s', more | ending⟩ := processInput options s p
    · exact ih _ _
    · rfl

/-- The ending with the status 1, if it has one. -/
def Ending.spoilt : Ending → Ending
  | .exit _ => .exit 1
  | .escaped cause => .escaped cause

/-- A status that is spoilt stays so, and spoils nothing else. -/
theorem processAll_spoilt (hs : Sound options) (hmany : inputs ≠ [] → options.region = none)
    (hinputs : ∀ p ∈ inputs, p ∈ options.inputs) (spoilt : Bool) (s : Session) :
    processAll options true s inputs = ((processAll options spoilt s inputs).1,
      (processAll options spoilt s inputs).2.spoilt) := by
  induction inputs generalizing spoilt s with
  | nil => rfl
  | cons p rest ih =>
    have hregion := hmany (List.cons_ne_nil p rest)
    rw [processAll, processAll]
    by_cases hd : Derails options s p
    · obtain ⟨s', cause, hstep⟩ := processInput_derails hs hd
      rw [hstep]
      rfl
    · obtain ⟨s', hstep, -⟩ :=
        processInput_passes hs (hinputs p List.mem_cons_self) hd (leaves_eq_false hregion s p)
      rw [hstep]
      exact ih (fun _ => hregion) (fun q hq => hinputs q (List.mem_cons_of_mem p hq)) _ _

/-- **An input that cannot be read makes the status 1 and changes nothing else.** The run is the one
    without it, with a line more among its complaints, or it does not come so far. -/
theorem processAll_without (hs : Sound options) {before after : List Path} {bad : Path}
    (hmany : before ++ after ≠ [] → options.region = none ∧ options.output = none)
    (hinputs : ∀ p ∈ before ++ after, p ∈ options.inputs) (hfile : bad ≠ standardInput)
    (hread : s.tree.read bad = .error problem) (hnull : problem ≠ .nullCharacter) (spoilt : Bool) :
    ∃ early late, (processAll options spoilt s (before ++ after)).1.stderr = early ++ late ∧
      (processAll options spoilt s (before ++ bad :: after) =
          ({ (processAll options spoilt s (before ++ after)).1 with
              stderr := early ++ (complaint bad problem ++ '\n' :: late) },
            (processAll options spoilt s (before ++ after)).2.spoilt) ∨
        (∃ p ∈ before, Derails options s p) ∧ processAll options spoilt s (before ++ bad :: after) =
          processAll options spoilt s (before ++ after)) := by
  induction before generalizing s spoilt with
  | nil =>
    rw [List.nil_append] at hmany hinputs
    have hblank : s = Session.behind s.stderr { s with stderr := [] } := by
      simp [Session.behind]
    have hline : s.complain (complaint bad problem) =
        Session.behind (s.stderr ++ (complaint bad problem ++ ['\n'])) { s with stderr := [] } := by
      simp [Session.behind, Session.complain, List.append_assoc]
    have hrest : processAll options spoilt s after =
        ((processAll options spoilt { s with stderr := [] } after).1.behind s.stderr,
          (processAll options spoilt { s with stderr := [] } after).2) := by
      conv_lhs => rw [hblank, processAll_behind]
    refine ⟨s.stderr, (processAll options spoilt { s with stderr := [] } after).1.stderr, ?_,
      Or.inl ?_⟩
    · rw [List.nil_append, hrest]
      rfl
    · rw [List.nil_append, List.nil_append, processAll, processInput_problem hfile hread hnull]
      dsimp only
      rw [Bool.or_true, hline, processAll_behind,
        processAll_spoilt hs (fun hne => (hmany hne).1) hinputs spoilt, hrest]
      simp [Session.behind, List.append_assoc]
  | cons p before ih =>
    obtain ⟨hregion, houtput⟩ := hmany (by simp)
    rw [List.cons_append, List.cons_append, processAll, processAll]
    by_cases hd : Derails options s p
    · obtain ⟨s', cause, hstep⟩ := processInput_derails hs hd
      rw [hstep]
      exact ⟨[], s'.stderr, rfl, Or.inr ⟨⟨p, List.mem_cons_self, hd⟩, rfl⟩⟩
    · obtain ⟨s', hstep, hpassed⟩ := processInput_passes hs
        (hinputs p (by simp)) hd (leaves_eq_false hregion s p)
      have hread' := (hpassed.kept houtput).read_error hread
      obtain ⟨early, late, herr, hrun⟩ := ih (s := s') (fun _ => ⟨hregion, houtput⟩)
        (fun q hq => hinputs q (List.mem_cons_of_mem p hq)) hread' (spoilt || spoils options s p)
      rw [hstep]
      refine ⟨early, late, herr, hrun.imp_right fun hstop => ⟨?_, hstop.2⟩⟩
      obtain ⟨q, hq, hdq⟩ := hstop.1
      exact ⟨q, List.mem_cons_of_mem p hq, (hpassed.derails_iff hregion houtput q).mp hdq⟩

/-! ## 7. Runs -/

/-- **How a run ends**, once its words and options are accepted. It ends without a status if and
    only if one of its inputs derails it. Otherwise it ends with the status 0, 1 or 2 that the inputs
    leave it. An input that cannot be read makes the status 1 and changes nothing else: the run is
    the one without that input and with one more complaint, unless an input before it derails the
    run. Both are runs under the options that were resolved with that input listed: the first input
    decides where the document of settings is looked for, whether or not it can be read. The standard
    input holds decoded text here, so it derails no run by being no text. -/
theorem run_ending (machine : Machine) (s : Session) (words : List Text) (args : Arguments)
    (options : Options) (hwords : Arguments.ofWords words = .ok args)
    (hoptions : resolve machine s.tree args = .ok options) :
    ((∃ p ∈ options.inputs, Derails options s p) ↔ ∃ cause, (run machine s words).2 = .escaped cause) ∧
    ((∀ p ∈ options.inputs, ¬ Derails options s p) →
      (run machine s words).2 = .exit (statusOf options s)) ∧
    ∀ before bad after problem, options.inputs = before ++ bad :: after → bad ≠ standardInput →
      s.tree.read bad = .error problem → problem ≠ .nullCharacter →
      ∃ early late, (processAll options false s (before ++ after)).1.stderr = early ++ late ∧
        (run machine s words =
            ({ (processAll options false s (before ++ after)).1 with
                stderr := early ++ (complaint bad problem ++ '\n' :: late) },
              (processAll options false s (before ++ after)).2.spoilt) ∨
          (∃ p ∈ before, Derails options s p) ∧
            run machine s words = processAll options false s (before ++ after)) := by
  have hs := resolve_sound hoptions
  have hrun : run machine s words = processAll options false s options.inputs := by
    rw [run, hwords]
    dsimp only
    rw [hoptions]
  obtain ⟨hescape, hexit⟩ := processAll_ending hs s
  rw [hrun]
  refine ⟨⟨fun hd => ?_, fun hcause => ?_⟩, fun hd => ?_, ?_⟩
  · obtain ⟨s', cause, hend⟩ := hescape hd
    exact ⟨cause, by rw [hend]⟩
  · by_contra hnone
    obtain ⟨cause, hcause⟩ := hcause
    obtain ⟨s', hend⟩ := hexit fun p hp hd => hnone ⟨p, hp, hd⟩
    rw [hend] at hcause
    cases hcause
  · obtain ⟨s', hend⟩ := hexit hd
    rw [hend]
  · intro before bad after problem hin hfile hread hnull
    rw [hin]
    refine processAll_without hs (fun hne => ?_) (fun p hp => ?_) hfile hread hnull false
    · refine hs.several.resolve_right fun hsingle => hne (List.length_eq_zero_iff.mp ?_)
      rw [hin, List.length_append, List.length_cons] at hsingle
      rw [List.length_append]
      omega
    · rw [hin]
      rcases List.mem_append.mp hp with hp | hp
      · exact List.mem_append_left _ hp
      · exact List.mem_append_right _ (List.mem_cons_of_mem bad hp)

/-- A file that is no text, one that is, and a directory. -/
def wreck : Session where
  tree := {
    files := [(["a.rebeca".toList], ⟨#[0xff]⟩), (["b.rebeca".toList], encodeText "x ;".toList)]
    directories := [["d".toList]] }

/-- Two inputs, and nothing else is asked for. -/
def wreckOptions (first second : String) : Options :=
  { deskOptions with inputs := [.ofText first.toList, .ofText second.toList] }

/-- A run with a file that is no text has no status. With a file that is missing it has the status
    1, and the other one is laid out. -/
theorem run_ending_wreck :
    (∃ cause, (run .small wreck (["a.rebeca", "b.rebeca"].map String.toList)).2 = .escaped cause) ∧
    run .small wreck (["q", "b.rebeca"].map String.toList) =
      ({ wreck with
          stdout := "x;\n".toList
          stderr := "error: cannot read q: No such file or directory\n".toList },
        .exit 1) := by
  constructor
  · have hderails :
        Derails (wreckOptions "a.rebeca" "b.rebeca") wreck (.ofText "a.rebeca".toList) :=
      .undecodable (by decide) (rfl : wreck.tree.read _ = .ok ⟨#[0xff]⟩) (by decide +kernel)
    obtain ⟨hescape, -⟩ := run_ending .small wreck (["a.rebeca", "b.rebeca"].map String.toList)
      { inputs := ["a.rebeca", "b.rebeca"].map String.toList } (wreckOptions "a.rebeca" "b.rebeca")
      rfl rfl
    exact hescape.mp ⟨_, List.mem_cons_self, hderails⟩
  · have hrest : processAll (wreckOptions "q" "b.rebeca") false wreck [.ofText "b.rebeca".toList] =
        ({ wreck with stdout := "x;\n".toList }, .exit 0) := rfl
    obtain ⟨-, -, hwithout⟩ := run_ending .small wreck (["q", "b.rebeca"].map String.toList)
      { inputs := ["q", "b.rebeca"].map String.toList } (wreckOptions "q" "b.rebeca") rfl rfl
    obtain ⟨early, late, hsplit, hrun⟩ := hwithout [] (.ofText "q".toList)
      [.ofText "b.rebeca".toList] .missing rfl (by decide) rfl (by decide)
    rw [List.nil_append, hrest] at hsplit hrun
    obtain ⟨rfl, rfl⟩ := List.append_eq_nil_iff.mp hsplit.symm
    rcases hrun with hrun | ⟨⟨p, hp, -⟩, -⟩
    · exact hrun
    · cases hp

/-- Two runs without a status. In the first a file is no text, and the file behind it, which alone
    is laid out, is not reached. In the second the output is a directory. -/
theorem run_escapes :
    run .small wreck (["a.rebeca", "b.rebeca"].map String.toList) = (wreck, .escaped .undecodable) ∧
    run .small wreck (["b.rebeca"].map String.toList) =
      ({ wreck with stdout := "x;\n".toList }, .exit 0) ∧
    run .small wreck (["b.rebeca", "-o", "d"].map String.toList) =
      (wreck, .escaped (.inaccessible (.ofText "d".toList) .isDirectory)) :=
  ⟨rfl, rfl, rfl⟩

end RebecaLayout.Command
