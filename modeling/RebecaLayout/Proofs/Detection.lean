import RebecaLayout.Proofs.Breaks
import RebecaLayout.Proofs.Stability

/-!
What the unit found in a text says about it, and what is found in a layout.

* `outsideLines` -- the lines whose terminators lie outside comments and literals; `codeLinesIn_eq`
  -- **these are the lines that detection looks at**;
* `evidence` -- the leads of those that hold more than blanks;
* `unitOf_tab`, `unitOf_spaces` -- when leads show a tab, and how many spaces they show otherwise;
* `OpensBody` -- a brace opens and something else than its end follows; `deep_of_opensBody`,
  `flat_of_not_opensBody` -- exactly then a token stands off the margin;
* `detectUnit_formatSource` -- **the unit of a layout is found again, or the layout shows none.**
-/

namespace RebecaLayout

variable {d : Dialect} {ts : List Token} {x : Text} {leads : List Text}

/-! ## 1. Lines outside tokens -/

/-- The numbers of the flags that are set, the first of them numbered `line`. -/
def numbered (line : Nat) (flags : List Bool) : List Nat :=
  ((flags.zipIdx line).filter Prod.fst).map Prod.snd

theorem numbered_append (line : Nat) (a b : List Bool) :
    numbered line (a ++ b) = numbered line a ++ numbered (line + a.length) b := by
  unfold numbered
  rw [List.zipIdx_append, List.filter_append, List.map_append]

theorem numbered_cons (line : Nat) (flag : Bool) (flags : List Bool) :
    numbered line (flag :: flags) = (if flag then [line] else []) ++ numbered (line + 1) flags := by
  cases flag <;> rfl

theorem numbered_replicate (line n : Nat) (flag : Bool) :
    numbered line (List.replicate n flag) = if flag then List.range' line n else [] := by
  induction n generalizing line with
  | zero => cases flag <;> rfl
  | succ n ih =>
    rw [List.replicate_succ, numbered_cons, ih]
    cases flag <;> rfl

theorem le_of_mem_numbered {line i : Nat} {flags : List Bool} (h : i ∈ numbered line flags) :
    line ≤ i := by
  obtain ⟨l, hl, rfl⟩ := List.mem_map.mp h
  exact List.le_snd_of_mem_zipIdx (List.mem_of_mem_filter hl)

/-- To leave out lines by their numbers is to leave them out by their flags. -/
theorem filter_numbered (flags : List Bool) (lines : List Text) (line : Nat)
    (hlength : flags.length = lines.length) :
    ((lines.zipIdx line).filter fun l => !(numbered line flags).contains l.2).map Prod.fst =
      ((flags.zip lines).filter fun l => !l.1).map Prod.snd := by
  induction lines generalizing flags line with
  | nil => rw [List.zip_nil_right]; rfl
  | cons first lines ih =>
    cases flags with
    | nil => cases hlength
    | cons flag flags =>
      have hrest := ih flags (line + 1) (Nat.succ.inj hlength)
      have hsame : (lines.zipIdx (line + 1)).filter
            (fun l => !(numbered line (flag :: flags)).contains l.2) =
          (lines.zipIdx (line + 1)).filter
            (fun l => !(numbered (line + 1) flags).contains l.2) := by
        refine List.filter_congr fun l hl => ?_
        have hlater := List.le_snd_of_mem_zipIdx hl
        have hne : l.2 ≠ line := by omega
        rw [numbered_cons]
        cases flag <;> simp [hne]
      have hline : (numbered line (flag :: flags)).contains line = flag := by
        have hnot : line ∉ numbered (line + 1) flags := by
          intro h
          have := le_of_mem_numbered h
          omega
        rw [numbered_cons]
        cases flag <;> simp [hnot]
      rw [List.zipIdx_cons, List.filter_cons, hline, hsame, List.zip_cons_cons, List.filter_cons]
      cases flag with
      | true => exact hrest
      | false => exact congrArg (first :: ·) hrest

/-- The lines within tokens are those whose terminators are marked. -/
theorem linesWithin_eq (d : Dialect) (x : Text) (line : Nat) :
    linesWithin line (tokenize d x) =
      numbered (line + 1) (marks Kind.spansLines (tokenize d x)) := by
  induction x using text_induction d generalizing line with
  | nil => rfl
  | step t rest h ih =>
    have hmarks : numbered (line + 1) (marks Kind.spansLines (t :: tokenize d rest)) =
        (if t.kind.spansLines then
          List.range' (line + 1) ((Text.splitLines t.text).length - 1) else []) ++
        linesWithin (line + ((Text.splitLines t.text).length - 1)) (tokenize d rest) := by
      rw [marks, List.flatMap_cons, numbered_append, numbered_replicate, List.length_replicate,
        Nat.add_right_comm, ih]
      rfl
    rw [tokenize_append h, hmarks]
    cases hv : t.kind.isLayout with
    | false =>
      rw [linesWithin_visible h hv]
      cases hs : t.kind.spansLines with
      | true => rfl
      | false =>
        rw [Text.splitLines_oneLine (h.oneLine hv hs)]
        rfl
    | true =>
      rcases h.layout_cases hv with ⟨hk, -, hall, -⟩ | ⟨hk, hnl, -⟩
      · have hone : Text.OneLine t.text := by
          intro c hc
          rcases Text.isBlank_iff.mp (hall c hc) with rfl | rfl <;> rfl
        rw [Text.splitLines_oneLine hone, linesWithin, hk]
        rfl
      · have hlines : (Text.splitLines t.text).length - 1 = 1 := by
          generalize t.text = nl at hnl
          cases hnl <;> rfl
        rw [hlines, linesWithin, hk]
        rfl

/-- The lines of a text whose terminators, if any stands before them, lie outside comments and
    literals. -/
def outsideLines (d : Dialect) (x : Text) : List Text :=
  ((Text.lines x).filter fun line =>
    !line.1.any (Break.isWithin Kind.spansLines (Token.place 0 (tokenize d x)))).map Prod.snd

theorem outsideLines_eq (d : Dialect) (x : Text) : outsideLines d x =
    (((false :: marks Kind.spansLines (tokenize d x)).zip (Text.splitLines x)).filter
      fun line => !line.1).map Prod.snd := by
  have hmarks := breaks_joined Kind.spansLines (uncut_tokenize d x) 0
  rw [joined_tokenize] at hmarks
  have hflags : false :: marks Kind.spansLines (tokenize d x) =
      (none :: (Text.breaks 0 x).map some).map
        (Option.any (Break.isWithin Kind.spansLines (Token.place 0 (tokenize d x)))) := by
    rw [List.map_cons, List.map_map, ← hmarks]
    rfl
  rw [hflags, List.zip_map_left, List.filter_map, List.map_map]
  rfl

/-- **The lines that detection looks at are those that begin outside comments and literals.** -/
theorem codeLinesIn_eq (d : Dialect) (x : Text) : codeLinesIn d x = outsideLines d x := by
  have hlength : (false :: marks Kind.spansLines (tokenize d x)).length =
      (Text.splitLines x).length := by
    rw [List.length_cons, ← breaks_joined Kind.spansLines (uncut_tokenize d x) 0, List.length_map,
      joined_tokenize, length_splitLines 0]
  rw [outsideLines_eq, ← filter_numbered _ _ 0 hlength, numbered_cons, if_neg Bool.false_ne_true,
    List.nil_append, ← linesWithin_eq]
  rfl

theorem marks_inDialect (d : Dialect) (ts : List Token) :
    marks Kind.spansLines (ts.map (Token.inDialect d)) = marks Kind.spansLines ts := by
  unfold marks
  rw [List.flatMap_map]
  refine List.flatMap_congr fun t _ => ?_
  unfold Token.inDialect
  split
  · rename_i hname
    have hnot : t.kind.spansLines = false := by
      cases hk : t.kind <;> rw [hk] at hname <;> first | rfl | cases hname
    have hword : (wordKind d t.text).spansLines = false := by
      rcases wordKind_cases d t.text with e | e <;> rw [e] <;> rfl
    rw [hnot, hword]
  · rfl

theorem codeLines_eq (d : Dialect) (x : Text) : codeLines x = outsideLines d x := by
  rw [codeLines, codeLinesIn_eq, outsideLines_eq, outsideLines_eq, tokenize_inDialect d .rebeca,
    marks_inDialect]

/-! ## 2. Units of leads -/

/-- The leads of the lines that begin outside comments and literals and hold more than blanks. -/
def evidence (d : Dialect) (x : Text) : List Text :=
  ((outsideLines d x).filter fun line => line.any fun c => !Text.isBlank c).map
    (List.takeWhile Text.isBlank)

theorem filterMap_lead? (lines : List Text) : lines.filterMap Text.lead? =
    (lines.filter fun line => line.any fun c => !Text.isBlank c).map
      (List.takeWhile Text.isBlank) := by
  induction lines with
  | nil => rfl
  | cons line lines ih =>
    have hany : (line.any fun c => !Text.isBlank c) = !line.all Text.isBlank := by
      rw [List.not_all_eq_any_not]
    rw [List.filterMap_cons, List.filter_cons, hany, Text.lead?, ih]
    cases line.all Text.isBlank <;> rfl

theorem detectUnit_eq_unitOf (d : Dialect) (x : Text) : detectUnit x = unitOf (evidence d x) := by
  rw [evidence, ← codeLines_eq d, ← filterMap_lead?]
  rfl

/-- Leads show a tab if one of them holds one, or if there is nothing in any of them. -/
theorem unitOf_tab (h : (∃ lead ∈ leads, '\t' ∈ lead) ∨ ∀ lead ∈ leads, lead = []) :
    unitOf leads = ['\t'] := by
  unfold unitOf
  split
  · rfl
  · rename_i hnot
    rcases h with ⟨lead, hlead, htab⟩ | hflat
    · refine absurd (List.any_eq_true.mpr ⟨lead, hlead, ?_⟩) hnot
      exact List.contains_iff_mem.mpr htab
    · have hzero : leads.foldl (fun width lead => Nat.gcd width lead.length) 0 = 0 := by
        refine Nat.eq_zero_of_zero_dvd
          (dvd_foldl_gcd leads (fun lead hlead => ?_) 0 (Nat.dvd_refl 0))
        rw [hflat lead hlead]
        exact Nat.dvd_refl 0
      rw [hzero]
      rfl

/-- Otherwise they show **the greatest number of spaces that divides them all**. -/
theorem unitOf_spaces (h : ¬ ((∃ lead ∈ leads, '\t' ∈ lead) ∨ ∀ lead ∈ leads, lead = [])) :
    ∃ width, 1 ≤ width ∧ unitOf leads = List.replicate width ' ' ∧
      (∀ lead ∈ leads, width ∣ lead.length) ∧
      ∀ n, (∀ lead ∈ leads, n ∣ lead.length) → n ≤ width := by
  have hnot := not_or.mp h
  have hany : ¬ (leads.any fun lead => lead.contains '\t') = true := by
    intro hany
    obtain ⟨lead, hlead, htab⟩ := List.any_eq_true.mp hany
    exact hnot.1 ⟨lead, hlead, List.contains_iff_mem.mp htab⟩
  have hdvd := (foldl_gcd_dvd leads 0).2
  have hgreatest := fun n hn => dvd_foldl_gcd (k := n) leads hn 0 (Nat.dvd_zero n)
  unfold unitOf
  rw [if_neg hany]
  generalize leads.foldl (fun width lead => Nat.gcd width lead.length) 0 = width at *
  have hpos : 1 ≤ width := by
    refine Nat.one_le_iff_ne_zero.mpr fun hzero => hnot.2 fun lead hlead => ?_
    have hlength := hdvd lead hlead
    rw [hzero] at hlength
    exact List.length_eq_zero_iff.mp (Nat.eq_zero_of_zero_dvd hlength)
  refine ⟨width, hpos, ?_, hdvd, fun n hn => Nat.le_of_dvd hpos (hgreatest n hn)⟩
  obtain ⟨k, rfl⟩ := Nat.exists_eq_succ_of_ne_zero (Nat.one_le_iff_ne_zero.mp hpos)
  rfl

/-- **What the unit found in a text is.** The lines looked at are those that begin outside comments
    and literals. The unit is a tab if one of their leads holds a tab, or if all of them are empty.
    Otherwise it is the greatest number of spaces that divides every lead. -/
theorem detectUnit_evidence (d : Dialect) (x : Text) :
    codeLines x = outsideLines d x ∧
      ((∃ lead ∈ evidence d x, '\t' ∈ lead) ∨ (∀ lead ∈ evidence d x, lead = []) →
        detectUnit x = ['\t']) ∧
      (¬ ((∃ lead ∈ evidence d x, '\t' ∈ lead) ∨ ∀ lead ∈ evidence d x, lead = []) →
        ∃ width, 1 ≤ width ∧ detectUnit x = List.replicate width ' ' ∧
          (∀ lead ∈ evidence d x, width ∣ lead.length) ∧
          ∀ n, (∀ lead ∈ evidence d x, n ∣ lead.length) → n ≤ width) := by
  rw [detectUnit_eq_unitOf d]
  exact ⟨codeLines_eq d x, unitOf_tab, unitOf_spaces⟩

/-- Leads of four and of six spaces show two. The three spaces in the comment show nothing, and
    neither does the tab in the string. -/
theorem detectUnit_evidence_two :
    evidence .property "a\n    b /*\n   c */\n      \"\r\t\"\n \n".toList =
        [[], "    ".toList, "      ".toList] ∧
      detectUnit "a\n    b /*\n   c */\n      \"\r\t\"\n \n".toList = [' ', ' '] := by
  have he : evidence .property "a\n    b /*\n   c */\n      \"\r\t\"\n \n".toList =
      [[], "    ".toList, "      ".toList] := by decide +kernel
  obtain ⟨-, -, hspaces⟩ :=
    detectUnit_evidence .property "a\n    b /*\n   c */\n      \"\r\t\"\n \n".toList
  rw [he] at hspaces
  obtain ⟨width, -, hunit, hdvd, hgreatest⟩ := hspaces (by decide)
  have hle : width ∣ 2 := by
    have hfour : width ∣ 4 := hdvd "    ".toList (by decide)
    have hsix : width ∣ 6 := hdvd "      ".toList (by decide)
    exact (Nat.dvd_sub hsix hfour)
  have htwo : 2 ≤ width := hgreatest 2 (by decide)
  obtain rfl : width = 2 := Nat.le_antisymm (Nat.le_of_dvd Nat.two_pos hle) htwo
  exact ⟨he, hunit⟩

/-! ## 3. Units of layouts -/

/-- Some brace opens and is followed by something else than a brace that closes. -/
def OpensBody (ts : List Token) : Prop :=
  ∃ front brace t back, ts = front ++ brace :: t :: back ∧
    brace.kind = .leftBrace ∧ t.kind ≠ .rightBrace

/-- What a brace opens stands off the margin. -/
theorem deep_of_opensBody (h : OpensBody ts) (depth : Nat) : ∃ n ∈ depthsFrom depth ts, n ≠ 0 := by
  obtain ⟨front, brace, t, back, rfl, hbrace, ht⟩ := h
  induction front generalizing depth with
  | nil =>
    refine ⟨depth + 1, ?_, Nat.succ_ne_zero depth⟩
    simp [depthsFrom, hbrace, ht]
  | cons u front ih =>
    obtain ⟨n, hn, hdeep⟩ := ih (if u.kind == .leftBrace then depth + 1 else
      if u.kind == .rightBrace then depth - 1 else depth)
    exact ⟨n, List.mem_cons_of_mem _ hn, hdeep⟩

theorem not_opensBody_tail {t : Token} (h : ¬ OpensBody (t :: ts)) : ¬ OpensBody ts := by
  rintro ⟨front, brace, u, back, rfl, hbrace, hu⟩
  exact h ⟨t :: front, brace, u, back, rfl, hbrace, hu⟩

/-- If braces that open are followed by braces that close, every token stands at the margin. -/
theorem flat_of_not_opensBody (h : ¬ OpensBody ts) {depth : Nat}
    (hdepth : depth = 0 ∨ (depth = 1 ∧ ∀ t ∈ ts.head?, t.kind = .rightBrace)) :
    ∀ n ∈ depthsFrom depth ts, n = 0 := by
  induction ts generalizing depth with
  | nil => exact fun n hn => by cases hn
  | cons t ts ih =>
    have hhere : (if t.kind == .rightBrace then depth - 1 else depth) = 0 := by
      rcases hdepth with rfl | ⟨rfl, hclose⟩
      · exact ite_self 0
      · rw [hclose t rfl]
        rfl
    rw [depthsFrom]
    refine List.forall_mem_cons.mpr ⟨hhere, ih (not_opensBody_tail h) ?_⟩
    by_cases hopen : t.kind = .leftBrace
    · refine Or.inr ⟨?_, fun u hu => ?_⟩
      · rw [hopen] at hhere ⊢
        exact congrArg (· + 1) hhere
      · by_contra hclose
        obtain ⟨back, rfl⟩ := List.head?_eq_some_iff.mp hu
        exact h ⟨[], t, u, back, rfl, hopen, hclose⟩
    · refine Or.inl ?_
      rw [if_neg (by simpa using hopen), hhere]

/-- The lines of a layout stand as deep as the tokens that open them. -/
theorem mem_depthsFrom_of_lineDepths (dialect : Dialect) (p : Spot) (ts : List Token) :
    ∀ n ∈ lineDepths dialect p ts, n ∈ depthsFrom p.depth ts := by
  induction ts generalizing p with
  | nil => exact fun n hn => by cases hn
  | cons t ts ih =>
    intro n hn
    rw [depthsFrom_cons dialect]
    rw [lineDepths] at hn
    rcases List.mem_append.mp hn with hn | hn
    · split at hn
      · rw [List.mem_singleton.mp hn]
        exact List.mem_cons_self
      · cases hn
    · exact List.mem_cons_of_mem _ (ih _ n hn)

/-- A layout whose tokens all stand at the margin shows no unit. -/
theorem detectUnit_flat {style : Style} (ho : style.Orderly) (h : Legible style.dialect ts)
    (hne : ts ≠ []) (hflat : ∀ n ∈ depthsFrom 0 ts, n = 0) :
    detectUnit (finished style (rendered style (.start 0 true) ts)) = ['\t'] := by
  rw [detectUnit_eq style.dialect, leads_layout ho h hne]
  refine unitOf_tab (Or.inr fun lead hlead => ?_)
  obtain ⟨n, hn, rfl⟩ := List.mem_map.mp hlead
  rw [hflat n (mem_depthsFrom_of_lineDepths style.dialect (.start 0 true) ts n hn), times_zero]

/-- **The unit of a layout is found again** if some brace of the text opens and is followed by
    something else than a brace that closes. Otherwise the layout shows no unit, and a tab is
    found. -/
theorem detectUnit_formatSource (d : Dialect) {unit nl : Text}
    (hu : unit = ['\t'] ∨ ∃ k, 1 ≤ k ∧ unit = List.replicate k ' ') (hn : LineEnd nl)
    (hx : Text.isVoid x = false) :
    ∃ out, formatSource d (some unit) (some nl) x = .ok out ∧
      (OpensBody (Token.significant (tokenize d x)) → detectUnit out = unit) ∧
      (¬ OpensBody (Token.significant (tokenize d x)) → detectUnit out = ['\t']) := by
  have hunit : unit = ['\t'] ∨ ∃ k, unit = List.replicate (k + 1) ' ' := by
    refine hu.imp_right ?_
    rintro ⟨k, hk, rfl⟩
    exact ⟨k - 1, by rw [Nat.sub_add_cancel hk]⟩
  have hblank : ∀ u ∈ some unit, ∀ c ∈ u, Text.isBlank c = true := by
    intro u hmem
    rw [← Option.some.inj hmem]
    exact blank_of_unit hu
  have hend : ∀ e ∈ some nl, LineEnd e := by
    intro e he
    rw [← Option.some.inj he]
    exact hn
  have ho := resolve_orderly hblank hend d x
  have hlegible := legible_significant d x
  have hne := significant_ne_nil d hx
  refine ⟨_, formatSource_eq_finished hblank hend d hx, fun hopens => ?_, fun hopens => ?_⟩
  · rcases deep_or_flat d (Token.significant (tokenize d x)) (.start 0 true) (Or.inl rfl) with
      hone | hflat
    · exact detectUnit_layout ho hunit hlegible hne hone
    · obtain ⟨n, hmem, hdeep⟩ := deep_of_opensBody hopens 0
      exact absurd (hflat n hmem) hdeep
  · exact detectUnit_flat ho hlegible hne (flat_of_not_opensBody hopens (Or.inl rfl))

/-- Three spaces are found where a body holds a comment, and a tab where it holds nothing. -/
theorem detectUnit_formatSource_three :
    (∃ out,
      formatSource .property (some [' ', ' ', ' ']) (some ['\r']) "a\x7b// b".toList = .ok out ∧
      detectUnit out = [' ', ' ', ' ']) ∧
    ∃ out,
      formatSource .property (some [' ', ' ', ' ']) (some ['\r']) "a\x7b \x7d b".toList = .ok out ∧
      detectUnit out = ['\t'] := by
  have hu : [' ', ' ', ' '] = ['\t'] ∨ ∃ k, 1 ≤ k ∧ [' ', ' ', ' '] = List.replicate k ' ' :=
    Or.inr ⟨3, by decide, rfl⟩
  refine ⟨?_, ?_⟩
  · obtain ⟨out, hout, hopens, -⟩ := detectUnit_formatSource .property hu .carriageReturn
      (show Text.isVoid "a\x7b// b".toList = false from rfl)
    refine ⟨out, hout, hopens ⟨[⟨.identifier, ['a']⟩], ⟨.leftBrace, ['\x7b']⟩,
      ⟨.lineComment, "// b".toList⟩, [], by decide +kernel, rfl, by decide⟩⟩
  · obtain ⟨out, hout, -, hnot⟩ := detectUnit_formatSource .property hu .carriageReturn
      (show Text.isVoid "a\x7b \x7d b".toList = false from rfl)
    have hflat : ∀ n ∈ depthsFrom 0 (Token.significant (tokenize .property "a\x7b \x7d b".toList)),
        n = 0 := by decide +kernel
    refine ⟨out, hout, hnot fun hopens => ?_⟩
    obtain ⟨n, hn, hdeep⟩ := deep_of_opensBody hopens 0
    exact hdeep (hflat n hn)

end RebecaLayout
