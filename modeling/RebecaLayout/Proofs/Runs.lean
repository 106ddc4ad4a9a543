import RebecaLayout.Command.Run
import RebecaLayout.Proofs.Files
import RebecaLayout.Proofs.Rendering
import RebecaLayout.Proofs.Settings

/-!
**Runs that check and runs that rewrite.**

* `isOutdated` -- whether an input can be read and its layout is another text;
* `notice` -- all that a run prints about an input;
* `Rewritten` -- a tree in which the inputs that were outdated hold their layouts, and nothing else
  is changed;
* `processInput_check`, `processInput_rewrite` -- one input;
* `processAll_check`, `processAll_rewrite` -- **a run, by induction on its inputs**: what one input
  leaves behind reads the same for the others;
* `run_check_rewrite` -- a check reports what the other run changes.
-/

namespace RebecaLayout.Command

variable {options : Options} {tree tree' tree'' : FileTree} {path : Path} {inputs : List Path}
  {source formatted : Text} {s : Session}

/-! ## 1. One input -/

/-- Whether an input can be read. -/
def isReadable (tree : FileTree) (path : Path) : Bool :=
  match tree.read path with
  | .ok _ => true
  | .error _ => false

/-- Whether an input can be read, and its layout is another text. -/
def isOutdated (options : Options) (tree : FileTree) (path : Path) : Bool :=
  match tree.read path with
  | .error _ => false
  | .ok content => (decodeText? content).any fun source =>
    match formatSource (dialectOf options path) options.indent options.newline source with
    | .ok formatted => formatted != source
    | .error _ => false

/-- What a run prints about an input: why it cannot be read, or the listing of its tokens if that is
    asked for, and the verb and the path if it is outdated. -/
def notice (options : Options) (tree : FileTree) (verb : Text) (path : Path) : Text :=
  match tree.read path with
  | .error problem =>
    "error: cannot read ".toList ++ path.shown ++ ": ".toList ++ problem.message ++ ['\n']
  | .ok content =>
    (if options.debug then
      inputListing path (dialectOf options path) ((decodeText? content).getD [])
    else []) ++
      if isOutdated options tree path then verb ++ path.shown ++ ['\n'] else []

/-- An input that names a file, if there is one, and the file is a text. -/
structure Ordinary (tree : FileTree) (path : Path) : Prop where
  file : path ≠ standardInput
  /-- No path of a file holds a null character. -/
  named : '\x00' ∉ path.shown
  text : ∀ content, tree.read path = .ok content → (decodeText? content).isSome = true

/-- An input that can be read: its text and the layout of that. -/
structure Laid (options : Options) (tree : FileTree) (path : Path) (source formatted : Text) :
    Prop where
  read : tree.read path = .ok (encodeText source)
  layout : formatSource (dialectOf options path) options.indent options.newline source =
    .ok formatted

theorem Laid.isOutdated (h : Laid options tree path source formatted) :
    isOutdated options tree path = (formatted != source) := by
  simp only [Command.isOutdated, h.read, decodeText?_encodeText, Option.any_some, h.layout]

theorem Laid.isReadable (h : Laid options tree path source formatted) :
    isReadable tree path = true := by
  rw [Command.isReadable, h.read]

theorem Laid.notice (h : Laid options tree path source formatted) (verb : Text) :
    notice options tree verb path =
      (if options.debug then inputListing path (dialectOf options path) source else []) ++
        if formatted = source then [] else verb ++ path.shown ++ ['\n'] := by
  simp only [Command.notice, h.read, h.isOutdated, decodeText?_encodeText, Option.getD_some]
  by_cases hsame : formatted = source <;> simp [hsame]

theorem notice_unreadable {problem : Problem} (h : tree.read path = .error problem)
    (options : Options) (verb : Text) : notice options tree verb path =
      "error: cannot read ".toList ++ path.shown ++ ": ".toList ++ problem.message ++ ['\n'] := by
  rw [notice, h]

/-- What can be read is laid out. -/
theorem exists_laid (hu : Usable options) (hp : Ordinary tree path) {content : ByteArray}
    (h : tree.read path = .ok content) :
    ∃ source formatted, Laid options tree path source formatted := by
  obtain ⟨source, hsource⟩ := Option.isSome_iff_exists.mp (hp.text content h)
  rw [decodeText?_eq_some_iff.mp hsource] at h
  exact ⟨source, _, h, formatSource_rendered hu.indent hu.newline _ source⟩

/-! ## 2. What becomes of an input -/

/-- **An input that cannot be read** is complained of, whatever the run is for. -/
theorem processInput_unreadable (hp : Ordinary s.tree path) {problem : Problem}
    (h : s.tree.read path = .error problem) (verb : Text) :
    processInput options s path =
      ({ s with stderr := s.stderr ++ notice options s.tree verb path }, .goOn true) := by
  have hfile : (path == standardInput) = false := beq_eq_false_iff_ne.mpr hp.file
  obtain ⟨code, hcode⟩ := Option.isSome_iff_exists.mp (FileTree.code?_of_read hp.named h)
  have hinput : readInput s path = (s, .error (.unreadable problem)) := by
    simp [readInput, hfile, h]
  rw [processInput, formatInput, hinput, notice_unreadable h]
  dsimp only
  rw [hcode]
  simp [Session.complain]

/-- The layout of an input, with the listing of its tokens if that is asked for. -/
theorem formatInput_laid (hp : Ordinary s.tree path) (hregion : options.region = none)
    (h : Laid options s.tree path source formatted) :
    formatInput options s path =
      ({ s with stderr := s.stderr ++
          if options.debug then inputListing path (dialectOf options path) source else [] },
        .ok (source, formatted)) := by
  have hfile : (path == standardInput) = false := beq_eq_false_iff_ne.mpr hp.file
  have hinput : readInput s path = (s, .ok source) := by
    simp [readInput, hfile, h.read, decodeText?_encodeText]
  have hlayout : formatUnder options (dialectOf options path) source = .ok formatted := by
    rw [formatUnder, hregion]
    exact h.layout
  rw [formatInput, hinput]
  dsimp only
  rw [hlayout]
  cases options.debug <;> simp

/-- **An input that can be read** is handed on with its layout. -/
theorem processInput_laid (hp : Ordinary s.tree path) (hregion : options.region = none)
    (h : Laid options s.tree path source formatted) :
    processInput options s path = deliver options
      { s with stderr := s.stderr ++
        if options.debug then inputListing path (dialectOf options path) source else [] }
      path source formatted := by
  rw [processInput, formatInput_laid hp hregion h]

/-- A check reports an input that is outdated, and leaves it. -/
theorem processInput_check (hu : Usable options) (hregion : options.region = none)
    (hcheck : options.check = true) (hp : Ordinary s.tree path) :
    processInput options s path =
      ({ s with stderr := s.stderr ++ notice options s.tree "would reformat ".toList path },
        .goOn (isOutdated options s.tree path || !isReadable s.tree path)) := by
  cases hread : s.tree.read path with
  | error problem =>
    rw [processInput_unreadable hp hread "would reformat ".toList, isReadable, hread]
    simp
  | ok content =>
    obtain ⟨source, formatted, hlaid⟩ := exists_laid hu hp hread
    rw [processInput_laid hp hregion hlaid, hlaid.notice, hlaid.isOutdated, hlaid.isReadable,
      deliver, if_pos hcheck]
    by_cases hsame : formatted = source
    · simp [hsame]
    · simp [hsame, Session.complain]

/-- **A run that checks**: it reports every input that is outdated, and leaves all files. -/
theorem processAll_check (hu : Usable options) (hregion : options.region = none)
    (hcheck : options.check = true) (hinputs : ∀ p ∈ inputs, Ordinary s.tree p) (spoilt : Bool) :
    processAll options spoilt s inputs =
      ({ s with stderr := s.stderr ++
          inputs.flatMap (notice options s.tree "would reformat ".toList) },
        .exit (if spoilt || inputs.any fun p =>
          isOutdated options s.tree p || !isReadable s.tree p then 1 else 0)) := by
  induction inputs generalizing s spoilt with
  | nil => simp [processAll]
  | cons p rest ih =>
    rw [processAll, processInput_check hu hregion hcheck (hinputs p List.mem_cons_self)]
    have hrest := ih (s := { s with
        stderr := s.stderr ++ notice options s.tree "would reformat ".toList p })
      (fun q hq => hinputs q (List.mem_cons_of_mem p hq))
      (spoilt || (isOutdated options s.tree p || !isReadable s.tree p))
    dsimp only at hrest ⊢
    rw [hrest, List.flatMap_cons, List.any_cons, List.append_assoc, Bool.or_assoc]

/-! ## 3. Rewritten trees -/

/-- A tree in which inputs that were outdated hold their layouts, and nothing else is changed. -/
structure Rewritten (options : Options) (tree : FileTree) (inputs : List Path)
    (tree' : FileTree) : Prop where
  directories : tree'.directories = tree.directories
  written : ∀ p ∈ inputs, ∀ place source formatted, tree.locate p = .ok place →
    Laid options tree p source formatted → tree'.fileAt? place = some (encodeText formatted)
  kept : ∀ place, (¬ ∃ p ∈ inputs, tree.locate p = .ok place ∧ isOutdated options tree p = true) →
    tree'.fileAt? place = tree.fileAt? place

theorem Rewritten.nil (options : Options) (tree : FileTree) : Rewritten options tree [] tree :=
  ⟨rfl, (fun _ hp => absurd hp List.not_mem_nil), fun _ _ => rfl⟩

/-- What the file of an outdated input holds. -/
theorem exists_of_isOutdated (hu : Usable options) (hp : Ordinary tree path) {place : Place}
    (hplace : tree.locate path = .ok place) (h : isOutdated options tree path = true) :
    ∃ source formatted, Laid options tree path source formatted ∧ formatted ≠ source ∧
      tree.fileAt? place = some (encodeText source) := by
  cases hread : tree.read path with
  | error problem =>
    rw [isOutdated, hread] at h
    cases h
  | ok content =>
    obtain ⟨source, formatted, hlaid⟩ := exists_laid hu hp hread
    rw [hlaid.isOutdated] at h
    exact ⟨source, formatted, hlaid, bne_iff_ne.mp h,
      (FileTree.fileAt?_of_read hplace hlaid.read).2⟩

/-- **The files that differ are those of the outdated inputs.** -/
theorem Rewritten.changed_iff (h : Rewritten options tree inputs tree') (hu : Usable options)
    (hinputs : ∀ p ∈ inputs, Ordinary tree p) (place : Place) :
    tree'.fileAt? place ≠ tree.fileAt? place ↔
      ∃ p ∈ inputs, tree.locate p = .ok place ∧ isOutdated options tree p = true := by
  constructor
  · intro hchanged
    by_contra hkept
    exact hchanged (h.kept place hkept)
  · rintro ⟨p, hp, hplace, houtdated⟩
    obtain ⟨source, formatted, hlaid, hne, hold⟩ :=
      exists_of_isOutdated hu (hinputs p hp) hplace houtdated
    rw [h.written p hp place source formatted hplace hlaid, hold]
    exact fun e => hne (encodeText_inj.mp (Option.some.inj e))

/-- Files stand where they stood. -/
theorem Rewritten.sameShape (h : Rewritten options tree [path] tree') (hu : Usable options)
    (hp : Ordinary tree path) : FileTree.SameShape tree tree' := by
  refine ⟨h.directories, fun place => ?_⟩
  by_cases hchanged : tree.locate path = .ok place ∧ isOutdated options tree path = true
  · obtain ⟨source, formatted, hlaid, -, hold⟩ :=
      exists_of_isOutdated hu hp hchanged.1 hchanged.2
    rw [h.written path List.mem_cons_self place source formatted hchanged.1 hlaid, hold]
    rfl
  · rw [h.kept place]
    rintro ⟨p, hp', hfound⟩
    rw [List.mem_singleton.mp hp'] at hfound
    exact hchanged hfound

/-- Inputs that lead to different places. -/
def Distinct (tree : FileTree) (p q : Path) : Prop :=
  ∀ place, tree.locate p = .ok place → tree.locate q ≠ .ok place

/-- **An input that leads elsewhere reads as before.** -/
theorem Rewritten.read_eq (h : Rewritten options tree [path] tree') (hu : Usable options)
    (hp : Ordinary tree path) {q : Path} (hq : Distinct tree path q) :
    tree'.read q = tree.read q := by
  refine (h.sameShape hu hp).read fun place hplace => h.kept place ?_
  rintro ⟨p, hp', hplace', -⟩
  rw [List.mem_singleton.mp hp'] at hplace'
  exact hq place hplace' hplace

/-- All that is found out about an input is found out by reading it. -/
theorem isOutdated_congr (h : tree'.read path = tree.read path) :
    isOutdated options tree' path = isOutdated options tree path := by
  rw [isOutdated, isOutdated, h]

theorem isReadable_congr (h : tree'.read path = tree.read path) :
    isReadable tree' path = isReadable tree path := by
  rw [isReadable, isReadable, h]

theorem notice_congr (h : tree'.read path = tree.read path) (verb : Text) :
    notice options tree' verb path = notice options tree verb path := by
  rw [notice, notice, isOutdated_congr h, h]

theorem Laid.congr (h : tree'.read path = tree.read path)
    (hlaid : Laid options tree path source formatted) :
    Laid options tree' path source formatted :=
  ⟨h.trans hlaid.read, hlaid.layout⟩

/-- One input is rewritten, and the others after it. -/
theorem Rewritten.cons (h : Rewritten options tree [path] tree') (hu : Usable options)
    (hp : Ordinary tree path) (hdistinct : ∀ q ∈ inputs, Distinct tree path q)
    (h' : Rewritten options tree' inputs tree'') :
    Rewritten options tree (path :: inputs) tree'' := by
  have hlocate := (h.sameShape hu hp).locate
  have hread := fun q hq => h.read_eq hu hp (hdistinct q hq)
  refine ⟨h'.directories.trans h.directories, ?_, ?_⟩
  · intro q hq place source formatted hplace hlaid
    rcases List.mem_cons.mp hq with rfl | hq
    · -- the later ones lead elsewhere
      have hwritten := h.written q List.mem_cons_self place source formatted hplace hlaid
      rw [← hwritten]
      refine h'.kept place ?_
      rintro ⟨p, hp', hplace', -⟩
      exact hdistinct p hp' place hplace ((hlocate p).symm.trans hplace')
    · exact h'.written q hq place source formatted ((hlocate q).trans hplace)
        (hlaid.congr (hread q hq))
  · intro place hkept
    have hlast : tree''.fileAt? place = tree'.fileAt? place := by
      refine h'.kept place ?_
      rintro ⟨q, hq, hplace, houtdated⟩
      rw [isOutdated_congr (hread q hq)] at houtdated
      exact hkept ⟨q, List.mem_cons_of_mem _ hq, (hlocate q).symm.trans hplace, houtdated⟩
    have hfirst : tree'.fileAt? place = tree.fileAt? place := by
      refine h.kept place ?_
      rintro ⟨q, hq, hfound⟩
      rw [List.mem_singleton.mp hq] at hfound
      exact hkept ⟨path, List.mem_cons_self, hfound⟩
    rw [hlast, hfirst]

/-- What an input is rewritten to. -/
theorem rewritten_put {place : Place} (hplace : tree.locate path = .ok place)
    (h : Laid options tree path source formatted) (hne : formatted ≠ source) :
    Rewritten options tree [path] (tree.put place (encodeText formatted)) := by
  refine ⟨tree.directories_put place _, ?_, ?_⟩
  · intro p hp place' source' formatted' hplace' hlaid
    obtain rfl := List.mem_singleton.mp hp
    obtain rfl : place = place' := Except.ok.inj (hplace.symm.trans hplace')
    obtain rfl : source = source' :=
      encodeText_inj.mp (Except.ok.inj (h.read.symm.trans hlaid.read))
    obtain rfl : formatted = formatted' := Except.ok.inj (h.layout.symm.trans hlaid.layout)
    rw [FileTree.fileAt?_put, if_pos rfl]
  · intro place' hkept
    rw [FileTree.fileAt?_put, if_neg]
    rintro rfl
    refine hkept ⟨path, List.mem_cons_self, hplace, ?_⟩
    rw [h.isOutdated]
    exact bne_iff_ne.mpr hne

/-- Where an input is not outdated, nothing is written. -/
theorem rewritten_self (h : isOutdated options tree path = false) :
    Rewritten options tree [path] tree := by
  refine ⟨rfl, ?_, fun _ _ => rfl⟩
  intro p hp place source formatted hplace hlaid
  obtain rfl := List.mem_singleton.mp hp
  obtain rfl : formatted = source := by
    rw [hlaid.isOutdated] at h
    exact bne_eq_false_iff_eq.mp h
  exact (FileTree.fileAt?_of_read hplace hlaid.read).2

/-! ## 4. Runs that rewrite -/

/-- **One input of a run that rewrites**: it holds its layout then. -/
theorem processInput_rewrite (hu : Usable options) (hregion : options.region = none)
    (hcheck : options.check = false) (hinPlace : options.inPlace = true)
    (hp : Ordinary s.tree path) :
    ∃ tree', processInput options s path =
        ({ s with
            tree := tree'
            stderr := s.stderr ++ notice options s.tree "reformatted ".toList path },
          .goOn (!isReadable s.tree path)) ∧
      Rewritten options s.tree [path] tree' := by
  cases hread : s.tree.read path with
  | error problem =>
    refine ⟨s.tree, ?_, rewritten_self (by rw [isOutdated, hread])⟩
    rw [processInput_unreadable hp hread "reformatted ".toList, isReadable, hread]
    rfl
  | ok content =>
    obtain ⟨source, formatted, hlaid⟩ := exists_laid hu hp hread
    obtain ⟨place, hplace, -, -⟩ := FileTree.read_eq_ok_iff.mp hlaid.read
    rw [processInput_laid hp hregion hlaid, hlaid.notice, hlaid.isReadable, deliver, hcheck,
      if_neg Bool.false_ne_true, if_pos hinPlace]
    by_cases hsame : formatted = source
    · refine ⟨s.tree, ?_, rewritten_self (by rw [hlaid.isOutdated, hsame, bne_self_eq_false])⟩
      simp [hsame]
    · refine ⟨_, ?_, rewritten_put hplace hlaid hsame⟩
      have hwrite := FileTree.write_of_read hplace hlaid.read (encodeText formatted)
      simp [hsame, writeFile, hwrite, Session.complain]

/-- **A run that rewrites**: every input holds its layout then, and no other file is touched. -/
theorem processAll_rewrite (hu : Usable options) (hregion : options.region = none)
    (hcheck : options.check = false) (hinPlace : options.inPlace = true)
    (hinputs : ∀ p ∈ inputs, Ordinary s.tree p) (hdistinct : inputs.Pairwise (Distinct s.tree))
    (spoilt : Bool) :
    ∃ tree', processAll options spoilt s inputs =
        ({ s with
            tree := tree'
            stderr := s.stderr ++ inputs.flatMap (notice options s.tree "reformatted ".toList) },
          .exit (if spoilt || inputs.any fun p => !isReadable s.tree p then 1 else 0)) ∧
      Rewritten options s.tree inputs tree' := by
  induction inputs generalizing s spoilt with
  | nil => exact ⟨s.tree, by simp [processAll], .nil options s.tree⟩
  | cons p rest ih =>
    have hp := hinputs p List.mem_cons_self
    obtain ⟨hfirst, hrest⟩ := List.pairwise_cons.mp hdistinct
    obtain ⟨tree', hstep, hrewritten⟩ := processInput_rewrite hu hregion hcheck hinPlace hp
    have hlocate := (hrewritten.sameShape hu hp).locate
    have hread := fun q hq => hrewritten.read_eq hu hp (hfirst q hq)
    -- the rest finds its files as they were
    have hinputs' : ∀ q ∈ rest, Ordinary tree' q := by
      intro q hq
      have hq' := hinputs q (List.mem_cons_of_mem p hq)
      exact ⟨hq'.file, hq'.named, fun content h => hq'.text content (hread q hq ▸ h)⟩
    have hdistinct' : rest.Pairwise (Distinct tree') := by
      refine hrest.imp fun h place hplace hplace' => h place ?_ ?_
      · exact (hlocate _).symm.trans hplace
      · exact (hlocate _).symm.trans hplace'
    obtain ⟨tree'', hrun, hrewritten'⟩ := ih
      (s := { s with
        tree := tree'
        stderr := s.stderr ++ notice options s.tree "reformatted ".toList p })
      hinputs' hdistinct' (spoilt || !isReadable s.tree p)
    refine ⟨tree'', ?_, hrewritten.cons hu hp hfirst hrewritten'⟩
    have hnotices : rest.flatMap (notice options tree' "reformatted ".toList) =
        rest.flatMap (notice options s.tree "reformatted ".toList) :=
      List.flatMap_congr fun q hq => notice_congr (hread q hq) _
    have hstatus : (rest.any fun q => !isReadable tree' q) =
        rest.any fun q => !isReadable s.tree q := by
      rw [Bool.eq_iff_iff, List.any_eq_true, List.any_eq_true]
      exact exists_congr fun q => and_congr_right fun hq => by rw [isReadable_congr (hread q hq)]
    rw [processAll, hstep]
    dsimp only
    rw [hrun]
    dsimp only
    rw [hnotices, hstatus, List.flatMap_cons, List.any_cons, List.append_assoc, Bool.or_assoc]

/-! ## 5. The two runs -/

/-- What is found out about an input does not depend on what the run is for. -/
theorem notice_flags (options : Options) (check inPlace : Bool) :
    notice { options with check, inPlace } = notice options := rfl

theorem isOutdated_flags (options : Options) (check inPlace : Bool) :
    isOutdated { options with check, inPlace } = isOutdated options := rfl

/-- **A check reports what a run that rewrites changes.** Two command lines ask for the same but for
    what they are for, the first for a check and the second for a rewrite, of whole files that are
    all different and, where there are any, texts; paths with a null character are left out, as they
    end both runs without a status. The check leaves everything but what it
    complains of: it prints a notice for each input in turn, and its status is 1 if some input is
    outdated or cannot be read. The other run prints the same notices with another verb, its status
    is 1 if some input cannot be read, and then every input that can be read holds its layout in
    its own dialect: exactly the files of the outdated inputs are changed. -/
theorem run_check_rewrite (machine : Machine) (s : Session) (args : Arguments) (options : Options)
    (checking rewriting : List Text)
    (hchecking : Arguments.ofWords checking = .ok { args with check := true, inPlace := false })
    (hrewriting : Arguments.ofWords rewriting = .ok { args with check := false, inPlace := true })
    (hoptions : resolve machine s.tree args = .ok options) (hregion : options.region = none)
    (hinputs : ∀ p ∈ options.inputs, Ordinary s.tree p)
    (hdistinct : options.inputs.Pairwise (Distinct s.tree)) :
    run machine s checking =
      ({ s with stderr := s.stderr ++
          options.inputs.flatMap (notice options s.tree "would reformat ".toList) },
        .exit (if options.inputs.any fun p =>
          isOutdated options s.tree p || !isReadable s.tree p then 1 else 0)) ∧
    ∃ tree', run machine s rewriting =
        ({ s with
            tree := tree'
            stderr := s.stderr ++
              options.inputs.flatMap (notice options s.tree "reformatted ".toList) },
          .exit (if options.inputs.any fun p => !isReadable s.tree p then 1 else 0)) ∧
      (∀ p ∈ options.inputs, ∀ place source, s.tree.locate p = .ok place →
        s.tree.read p = .ok (encodeText source) →
        ∃ formatted, formatSource (dialectOf options p) options.indent options.newline source =
            .ok formatted ∧ tree'.fileAt? place = some (encodeText formatted)) ∧
      (∀ place, tree'.fileAt? place ≠ s.tree.fileAt? place ↔
        ∃ p ∈ options.inputs, s.tree.locate p = .ok place ∧ isOutdated options s.tree p = true) ∧
      tree'.directories = s.tree.directories := by
  obtain ⟨hnames, hu⟩ := resolve_settings hoptions
  have hstdin : standardInput ∉ args.inputs.map Path.ofText :=
    fun h => (hinputs standardInput (hnames ▸ h)).file rfl
  have hresolve : ∀ check inPlace, resolve machine s.tree { args with check, inPlace } =
      .ok { options with check, inPlace } := by
    intro check inPlace
    rw [resolve_flags hstdin, hoptions]
    rfl
  have husable : ∀ check inPlace, Usable { options with check, inPlace } :=
    fun _ _ => ⟨hu.indent, hu.newline⟩
  constructor
  · have hrun := processAll_check (husable true false) hregion rfl hinputs false
    rw [notice_flags, isOutdated_flags] at hrun
    rw [run, hchecking]
    dsimp only
    rw [hresolve]
    exact hrun
  · obtain ⟨tree', hrun, hrewritten⟩ :=
      processAll_rewrite (husable false true) hregion rfl rfl hinputs hdistinct false
    rw [notice_flags] at hrun
    refine ⟨tree', ?_, ?_, ?_, hrewritten.directories⟩
    · rw [run, hrewriting]
      dsimp only
      rw [hresolve]
      exact hrun
    · intro p hp place source hplace hread
      have hlayout := formatSource_rendered hu.indent hu.newline (dialectOf options p) source
      exact ⟨_, hlayout, hrewritten.written p hp place source _ hplace ⟨hread, hlayout⟩⟩
    · intro place
      rw [hrewritten.changed_iff (husable false true) hinputs, isOutdated_flags]

/-- Two files, the first outdated. -/
def desk : Session where
  tree := { files := [(["m.rebeca".toList], encodeText "x ;".toList),
    (["p.property".toList], encodeText "y;\n".toList)] }

/-- The two files, and one that is missing. -/
def deskArguments : Arguments where
  inputs := ["m.rebeca", "p.property", "q"].map String.toList

/-- Nothing else is asked for. -/
def deskOptions : Options where
  inputs := deskArguments.inputs.map Path.ofText
  output := none
  inPlace := false
  check := false
  dialect := none
  indent := none
  newline := none
  region := none
  debug := false

/-- The first file is rewritten, the second stays, and the third spoils the status of both runs. -/
theorem run_check_rewrite_desk :
    Arguments.ofWords (["--check", "m.rebeca", "p.property", "q"].map String.toList) =
      .ok { deskArguments with check := true, inPlace := false } ∧
    Arguments.ofWords (["m.rebeca", "p.property", "q", "-i"].map String.toList) =
      .ok { deskArguments with check := false, inPlace := true } ∧
    resolve .small desk.tree deskArguments = .ok deskOptions ∧ deskOptions.region = none ∧
    (∀ p ∈ deskOptions.inputs, Ordinary desk.tree p) ∧
    deskOptions.inputs.Pairwise (Distinct desk.tree) ∧
    run .small desk (["--check", "m.rebeca", "p.property", "q"].map String.toList) =
      ({ desk with stderr :=
          "would reformat m.rebeca\nerror: cannot read q: No such file or directory\n".toList },
        .exit 1) ∧
    ∃ tree', run .small desk (["m.rebeca", "p.property", "q", "-i"].map String.toList) =
        ({ desk with
            tree := tree'
            stderr :=
              "reformatted m.rebeca\nerror: cannot read q: No such file or directory\n".toList },
          .exit 1) ∧
      tree'.fileAt? ["m.rebeca".toList] = some (encodeText "x;\n".toList) ∧
      tree'.fileAt? ["p.property".toList] = some (encodeText "y;\n".toList) := by
  have hchecking : Arguments.ofWords (["--check", "m.rebeca", "p.property", "q"].map String.toList) =
      .ok { deskArguments with check := true, inPlace := false } := rfl
  have hrewriting : Arguments.ofWords (["m.rebeca", "p.property", "q", "-i"].map String.toList) =
      .ok { deskArguments with check := false, inPlace := true } := rfl
  have hoptions : resolve .small desk.tree deskArguments = .ok deskOptions := rfl
  have hm : Laid deskOptions desk.tree (.ofText "m.rebeca".toList) "x ;".toList "x;\n".toList :=
    ⟨rfl, by decide +kernel⟩
  have hp : Laid deskOptions desk.tree (.ofText "p.property".toList) "y;\n".toList "y;\n".toList :=
    ⟨rfl, by decide +kernel⟩
  have hq : desk.tree.read (.ofText "q".toList) = .error .missing := rfl
  have hall : ∀ {P : Path → Prop}, P (.ofText "m.rebeca".toList) →
      P (.ofText "p.property".toList) → P (.ofText "q".toList) → ∀ p ∈ deskOptions.inputs, P p :=
    fun hm hp hq => List.forall_mem_cons.mpr
      ⟨hm, List.forall_mem_cons.mpr ⟨hp, List.forall_mem_singleton.mpr hq⟩⟩
  have htext : ∀ {p source formatted}, Laid deskOptions desk.tree p source formatted →
      ∀ content, desk.tree.read p = .ok content → (decodeText? content).isSome = true := by
    intro p source formatted h content hread
    rw [← Except.ok.inj (h.read.symm.trans hread), decodeText?_encodeText]
    rfl
  have hordinary : ∀ p ∈ deskOptions.inputs, Ordinary desk.tree p := by
    refine hall ⟨by decide, by decide, htext hm⟩ ⟨by decide, by decide, htext hp⟩
      ⟨by decide, by decide, fun content h => ?_⟩
    rw [hq] at h
    cases h
  have hplace : ∀ p ∈ deskOptions.inputs, desk.tree.locate p = .ok p.names := hall rfl rfl rfl
  have hnames : deskOptions.inputs.Pairwise fun p q => p.names ≠ q.names := by decide
  have hdistinct : deskOptions.inputs.Pairwise (Distinct desk.tree) := by
    refine hnames.imp_of_mem fun hp hq hne place h h' => hne ?_
    rw [hplace _ hp] at h
    rw [hplace _ hq] at h'
    exact Except.ok.inj (h.trans h'.symm)
  have hnotices : ∀ verb, deskOptions.inputs.flatMap (notice deskOptions desk.tree verb) =
      verb ++ "m.rebeca\nerror: cannot read q: No such file or directory\n".toList := by
    intro verb
    have hinputs : deskOptions.inputs =
      [.ofText "m.rebeca".toList, .ofText "p.property".toList, .ofText "q".toList] := rfl
    have hdebug : deskOptions.debug = false := rfl
    have hne : "x;\n".toList ≠ "x ;".toList := by decide
    simp only [hinputs, List.flatMap_cons, List.flatMap_nil, hm.notice, hp.notice,
      notice_unreadable hq, hdebug, hne, Bool.false_eq_true, if_false, if_true, List.nil_append,
      List.append_assoc]
    exact congrArg (verb ++ ·) (by decide +kernel)
  have hq' : ∃ p ∈ deskOptions.inputs, isReadable desk.tree p = false :=
    ⟨.ofText "q".toList, by decide, rfl⟩
  obtain ⟨hcheck, tree', hrewrite, hlayouts, -⟩ :=
    run_check_rewrite .small desk deskArguments deskOptions _ _ hchecking hrewriting hoptions rfl hordinary hdistinct
  have hwould : desk.stderr ++ ("would reformat ".toList ++
      "m.rebeca\nerror: cannot read q: No such file or directory\n".toList) =
      "would reformat m.rebeca\nerror: cannot read q: No such file or directory\n".toList := by
    decide +kernel
  have hdone : desk.stderr ++ ("reformatted ".toList ++
      "m.rebeca\nerror: cannot read q: No such file or directory\n".toList) =
      "reformatted m.rebeca\nerror: cannot read q: No such file or directory\n".toList := by
    decide +kernel
  rw [hnotices, hwould, if_pos (by simpa using hq'.imp fun p h => ⟨h.1, Or.inr h.2⟩)] at hcheck
  rw [hnotices, hdone, if_pos (by simpa using hq')] at hrewrite
  have hwritten : ∀ p ∈ deskOptions.inputs, ∀ {source formatted},
      Laid deskOptions desk.tree p source formatted →
      tree'.fileAt? p.names = some (encodeText formatted) := by
    intro p hp source formatted hlaid
    obtain ⟨out, hout, hfile⟩ := hlayouts p hp p.names source (hplace p hp) hlaid.read
    rw [hfile, Except.ok.inj (hout.symm.trans hlaid.layout)]
  exact ⟨hchecking, hrewriting, hoptions, rfl, hordinary, hdistinct, hcheck, tree', hrewrite,
    hwritten (.ofText "m.rebeca".toList) (by decide) hm,
    hwritten (.ofText "p.property".toList) (by decide) hp⟩

end RebecaLayout.Command
