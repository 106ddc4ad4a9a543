import RebecaLayout.Proofs.Evidence
import RebecaLayout.Proofs.Stream

/-!
**The layout of a text is in canonical form**, as it is read: one terminator at a time and right behind
a token, blanks only as indentation or as a single space, comments with tidy lines.

* `Text.terminators`, `Tidy` -- the terminators in a text; lines that end with no blank, joined by one
  terminator;
* `Separates`, `tokenize_separates` -- what stands between two tokens of a layout, and how it is read;
* `Fit`, `FitRow`, `fitRow_weldAll` -- the row of a layout, once what welds is welded;
* `Follows`, `follows_tokensOf` -- what may stand right behind a token;
* `Canonical`, `FitRow.canonical` -- the form, and that a fit row is read in it;
* `formatSource_canonical` -- **every layout is in canonical form and ends with one terminator**.
-/

namespace RebecaLayout

variable {style : Style} {d : Dialect} {t u z : Token} {ts : List Token} {nl x g rest : Text}
  {row : List (Text × Token)}

/-! ## 1. Tidy lines -/

/-- The terminators in a text. -/
def Text.terminators : Text → List Text
  | [] => []
  | '\r' :: '\n' :: rest => ['\r', '\n'] :: terminators rest
  | c :: rest => if isTerminator c then [c] :: terminators rest else terminators rest

/-- Lines that end with no blank, joined by one terminator. -/
def Tidy (nl x : Text) : Prop := ∃ lines : List Text, lines ≠ [] ∧
  (∀ line ∈ lines, Text.OneLine line ∧ ∀ c ∈ line.getLast?, Text.isBlank c = false) ∧
  x = nl.intercalate lines

theorem terminators_append {a : Text} (ha : Text.OneLine a) (b : Text) :
    Text.terminators (a ++ b) = Text.terminators b := by
  induction a with
  | nil => rfl
  | cons c a ih =>
    have hc := ha c List.mem_cons_self
    have hreturn : c ≠ '\r' := by rintro rfl; cases hc
    rw [List.cons_append, Text.terminators, if_neg (by simp [hc])]
    · exact ih fun y hy => ha y (List.mem_cons_of_mem c hy)
    · exact fun rest e => absurd e hreturn

theorem terminators_lineEnd (h : LineEnd nl) (hx : nl = ['\r'] → x.head? ≠ some '\n') :
    Text.terminators (nl ++ x) = nl :: Text.terminators x := by
  cases h with
  | feed => rfl
  | returnFeed => rfl
  | carriageReturn =>
    rw [List.cons_append, List.nil_append, Text.terminators, if_pos (by rfl)]
    rintro rest - rfl
    exact hx rfl rfl

/-- **Every terminator between tidy lines is the one that joins them.** -/
theorem Tidy.terminators (hn : LineEnd nl) (h : Tidy nl x) : ∀ e ∈ Text.terminators x, e = nl := by
  obtain ⟨lines, hne, hlines, rfl⟩ := h
  induction lines with
  | nil => exact absurd rfl hne
  | cons line lines ih =>
    have hone := (hlines line List.mem_cons_self).1
    have hrest := fun l hl => hlines l (List.mem_cons_of_mem line hl)
    cases lines with
    | nil =>
      have hnone : Text.terminators line = [] := by
        have := terminators_append hone []
        rwa [List.append_nil] at this
      simp [hnone]
    | cons next lines =>
      have hhead := Text.head_intercalate hn fun l hl => (hrest l hl).1
      rw [List.intercalate_cons_cons, List.append_assoc, terminators_append hone,
        terminators_lineEnd hn hhead]
      exact List.forall_mem_cons.mpr ⟨rfl, ih (List.cons_ne_nil _ _) hrest⟩

theorem Tidy.splitLines (hn : LineEnd nl) (h : Tidy nl x) :
    ∀ line ∈ Text.splitLines x, ∀ c ∈ line.getLast?, Text.isBlank c = false := by
  obtain ⟨lines, hne, hlines, rfl⟩ := h
  rw [Text.splitLines_intercalate hn lines hne fun line hl => (hlines line hl).1]
  exact fun line hl => (hlines line hl).2

theorem tidy_oneLine (hone : Text.OneLine x) (hlast : ∀ c ∈ x.getLast?, Text.isBlank c = false)
    (nl : Text) : Tidy nl x :=
  ⟨[x], List.cons_ne_nil _ _, by simpa using ⟨hone, hlast⟩, by simp [List.intercalate]⟩

theorem tidy_nil (nl : Text) : Tidy nl [] :=
  tidy_oneLine (fun c hc => by cases hc) (fun c hc => by cases hc) nl

theorem intercalate_concat {lines : List Text} (h : lines ≠ []) (line : Text) :
    nl.intercalate (lines ++ [line]) = nl.intercalate lines ++ (nl ++ line) := by
  obtain ⟨first, further, rfl⟩ := List.exists_cons_of_ne_nil h
  rw [List.cons_append, Text.intercalate_cons, Text.intercalate_cons, List.flatMap_append,
    List.append_assoc]
  simp

theorem Tidy.append_lineEnd (h : Tidy nl x) : Tidy nl (x ++ nl) := by
  obtain ⟨lines, hne, hlines, rfl⟩ := h
  refine ⟨lines ++ [[]], by simp, fun line hl => ?_, ?_⟩
  · rcases List.mem_append.mp hl with hl | hl
    · exact hlines line hl
    · rw [List.mem_singleton.mp hl]
      exact ⟨nofun, nofun⟩
  · rw [intercalate_concat hne, List.append_nil]

/-- Lines stay tidy without the empty ones at their end. -/
theorem Tidy.trimEnd (hn : LineEnd nl) (h : Tidy nl x) :
    Tidy nl (Text.trimEnd Text.isLayoutChar x) := by
  obtain ⟨lines, hne, hlines, rfl⟩ := h
  induction lines using List.reverseRecOn with
  | nil => exact absurd rfl hne
  | append_singleton init line ih =>
    obtain ⟨hone, hlast⟩ := hlines line (by simp)
    have hinit := fun l hl => hlines l (List.mem_append_left [line] hl)
    by_cases hline : line = []
    · subst hline
      by_cases hnil : init = []
      · subst hnil
        exact tidy_nil nl
      · rw [intercalate_concat hnil, List.append_nil, Text.trimEnd_append_of_all hn.layout]
        exact ih hnil hinit
    · -- the last line holds the last character, which is neither blank nor a terminator
      have hend : ∃ front, nl.intercalate (init ++ [line]) = front ++ line := by
        by_cases hnil : init = []
        · exact ⟨[], by rw [hnil]; simp [List.intercalate]⟩
        · exact ⟨_, by rw [intercalate_concat hnil, ← List.append_assoc]⟩
      obtain ⟨front, hfront⟩ := hend
      have hsolid : ∀ c ∈ (nl.intercalate (init ++ [line])).getLast?,
          Text.isLayoutChar c = false := by
        intro c hc
        rw [hfront, List.getLast?_append_of_ne_nil _ hline] at hc
        rw [Text.isLayoutChar, hlast c hc, hone c (List.mem_of_getLast? hc)]
        rfl
      rw [Text.trimEnd_eq_self hsolid]
      exact ⟨_, hne, hlines, rfl⟩

/-- A comment is written with tidy lines. -/
theorem Reads.tidy_body (h : Reads d t rest) (hc : t.kind.isComment = true) (ho : style.Orderly)
    (depth : Nat) : Tidy style.terminator (body style depth t) := by
  rcases isComment_cases hc with hk | hk
  · have hbody : body style depth t = Text.trimEnd Text.isSpace t.text := by simp [body, hk]
    have hone : Text.OneLine t.text := h.oneLine (by rw [hk]; rfl) (by rw [hk]; rfl)
    rw [hbody]
    exact tidy_oneLine (hone.trimEnd _)
      (fun c hl => (not_layoutChar_iff.mp (Text.trimEnd_isSpace_last _ c hl)).1) _
  · have hbody : body style depth t = relaid style depth t.text := by simp [body, hk, relaid]
    obtain ⟨first, further, e⟩ := Text.exists_splitLines t.text
    rw [hbody]
    refine ⟨commentLines style depth t.text, ?_, fun line hl => ?_, rfl⟩
    · rw [commentLines_cons e]
      exact List.cons_ne_nil _ _
    · refine ⟨commentLines_oneLine ho depth t.text line hl, ?_⟩
      rw [commentLines_cons e] at hl
      rcases List.mem_cons.mp hl with rfl | hl
      · exact Text.trimEnd_last _ _
      · obtain ⟨source, -, rfl⟩ := List.mem_map.mp hl
        exact furtherLine_firm style depth source

/-! ## 2. Gaps -/

/-- What stands between two tokens of a layout: nothing, a space, or one terminator and indentation. -/
def Separates (style : Style) (g : Text) : Prop :=
  g = [] ∨ g = [' '] ∨ ∃ depth, g = style.terminator ++ Text.times style.unit depth

theorem separates_gap (style : Style) (q : Spot) (l t : Token) :
    Separates style (gap style (q.after style.dialect l) t) := by
  unfold gap
  split
  · exact Or.inr (Or.inr ⟨_, by rw [lineBreak_after]⟩)
  · split
    · exact Or.inr (Or.inl rfl)
    · exact Or.inl rfl

/-- **What stands between two tokens is read** as nothing, as a space, or as a terminator with the
    indentation behind it, if there is any. -/
theorem tokenize_separates (ho : style.Orderly) (hunit : style.unit ≠ []) (h : Separates style g)
    (d : Dialect) : tokenize d g = [] ∨ tokenize d g = [⟨.whitespace, [' ']⟩] ∨
      tokenize d g = [⟨.newline, style.terminator⟩] ∨ ∃ depth, 1 ≤ depth ∧ tokenize d g =
        [⟨.newline, style.terminator⟩, ⟨.whitespace, Text.times style.unit depth⟩] := by
  rcases h with rfl | rfl | ⟨depth, rfl⟩
  · exact Or.inl (tokenize_nil d)
  · exact Or.inr (Or.inl (tokenize_blanks (by simp) (by simp [Text.isBlank])))
  · have hblank := ho.blank_indent depth
    rw [tokenize_lineEnd_append ho.terminator hblank]
    cases depth with
    | zero =>
      rw [times_zero, tokenize_nil]
      exact Or.inr (Or.inr (Or.inl rfl))
    | succ depth =>
      have hne : Text.times style.unit (depth + 1) ≠ [] := by
        simp [Text.times, hunit, List.replicate_succ]
      rw [tokenize_blanks hne hblank]
      exact Or.inr (Or.inr (Or.inr ⟨depth + 1, by omega, rfl⟩))

/-! ## 3. Rows -/

/-- A token behind its gap, as a layout has it. -/
structure Fit (style : Style) (a : Text × Token) : Prop where
  gap : Separates style a.1
  visible : a.2.kind.isLayout = false
  comment : a.2.kind.isComment = true → Tidy style.terminator a.2.text

theorem fit_written (ho : style.Orderly) (hv : t.kind.isLayout = false) (h : Reads d t rest)
    (hg : Separates style g) (depth : Nat) : Fit style (g, written style depth t) where
  gap := hg
  visible := hv
  comment hc := (h.tidy_body hc ho depth).trimEnd ho.terminator

theorem fit_pieces (ho : style.Orderly) (h : Legible d ts) (q : Spot) (l : Token) :
    ∀ a ∈ pieces style (q.after style.dialect l) ts, Fit style a := by
  induction ts generalizing q l with
  | nil => exact nofun
  | cons t ts ih =>
    obtain ⟨hv, rest, hreads⟩ := h.head
    rw [pieces_cons]
    exact List.forall_mem_cons.mpr ⟨fit_written ho hv hreads (separates_gap style q l t) _,
      ih h.tail (q.after style.dialect l) t⟩

/-- A welded token is no comment and stands behind the gap of its first part. -/
theorem fit_weldOnto {a : Text × Token} {m : Bool} (d : Dialect) (ha : Fit style a)
    (hrow : ∀ b ∈ row, Fit style b) : ∀ b ∈ weldOnto d a m row, Fit style b := by
  induction row generalizing a m with
  | nil =>
    intro b hb
    rw [List.mem_singleton.mp hb]
    exact ha
  | cons b row ih =>
    obtain ⟨hb, hrow⟩ := List.forall_mem_cons.mp hrow
    rw [weldOnto]
    split
    · have hfused := fused_isUnquoted d a.2 b.2
      refine ih ⟨ha.gap, ?_, fun hc => ?_⟩ hrow
      · rcases isUnquoted_cases hfused with e | e | e <;> rw [e] <;> rfl
      · rcases isUnquoted_cases hfused with e | e | e <;> rw [e] at hc <;> cases hc
    · exact List.forall_mem_cons.mpr ⟨ha, ih hb hrow⟩

/-- A row as a layout from the margin has it: nothing stands before its first token. -/
structure FitRow (style : Style) (row : List (Text × Token)) : Prop where
  first : ∃ z further, row = ([], z) :: further
  fit : ∀ a ∈ row, Fit style a

/-- **The row of a layout from the margin is fit**, once what welds is welded. -/
theorem fitRow_weldAll (ho : style.Orderly) (h : Legible d ts) (hne : ts ≠ []) :
    FitRow style (weldAll d (pieces style (.start 0 true) ts)) := by
  obtain ⟨t, ts, rfl⟩ := List.exists_cons_of_ne_nil hne
  obtain ⟨hv, rest, hreads⟩ := h.head
  rw [pieces_cons, weldAll, gap_margin]
  constructor
  · obtain ⟨z, further, e, -⟩ := weldOnto_head d
      (([] : Text), written style ((Spot.start 0 true).depthAt t.kind) t) false
      (pieces style ((Spot.start 0 true).after style.dialect t) ts)
    exact ⟨z, further, e⟩
  · exact fit_weldOnto d (fit_written ho hv hreads (Or.inl rfl) _)
      (fit_pieces ho h.tail (.start 0 true) t)

/-! ## 4. Reading a row -/

/-- What may stand right behind a token: a terminator behind one that is no layout, indentation
    behind a terminator, and a single space behind anything else. -/
structure Follows (unit : Text) (t u : Token) : Prop where
  lineEnd : u.kind = .newline → t.kind.isLayout = false
  indent : u.kind = .whitespace → t.kind = .newline →
    ∃ depth, 1 ≤ depth ∧ u.text = Text.times unit depth
  space : u.kind = .whitespace → t.kind ≠ .newline → u.text = [' ']

theorem follows_visible (hu : u.kind.isLayout = false) (unit : Text) (t : Token) :
    Follows unit t u where
  lineEnd e := by rw [e] at hu; cases hu
  indent e := by rw [e] at hu; cases hu
  space e := by rw [e] at hu; cases hu

/-- **In a row every token follows the one before it**, also with a terminator behind the row. -/
theorem follows_tokensOf (ho : style.Orderly) (hunit : style.unit ≠ [])
    (hrow : ∀ a ∈ row, Fit style a) (hz : z.kind.isLayout = false) {tail : List Token}
    (htail : tail = [] ∨ tail = [⟨.newline, style.terminator⟩]) :
    (z :: (tokensOf d row ++ tail)).IsChain (Follows style.unit) := by
  have hline : ∀ {z : Token}, z.kind.isLayout = false →
      Follows style.unit z ⟨.newline, style.terminator⟩ := by
    intro z hz
    exact ⟨fun _ => hz, nofun, nofun⟩
  induction row generalizing z with
  | nil =>
    rcases htail with rfl | rfl
    · exact .singleton z
    · exact .cons_cons (hline hz) (.singleton _)
  | cons a row ih =>
    obtain ⟨ha, hrow⟩ := List.forall_mem_cons.mp hrow
    have hnext := ih hrow ha.visible
    have hvisible := fun t => follows_visible ha.visible style.unit t
    have hnot : z.kind ≠ .newline := by
      intro e
      rw [e] at hz
      cases hz
    rw [tokensOf_cons, List.append_assoc]
    rcases tokenize_separates ho hunit ha.gap d with e | e | e | ⟨depth, hdepth, e⟩ <;> rw [e]
    · exact .cons_cons (hvisible z) hnext
    · exact .cons_cons ⟨nofun, fun _ e => absurd e hnot, fun _ _ => rfl⟩
        (.cons_cons (hvisible _) hnext)
    · exact .cons_cons (hline hz) (.cons_cons (hvisible _) hnext)
    · exact .cons_cons (hline hz) (.cons_cons ⟨nofun, fun _ _ => ⟨depth, hdepth, rfl⟩,
        fun _ e => absurd rfl e⟩ (.cons_cons (hvisible _) hnext))

/-- The terminators between the tokens of a row, and the comments among them. -/
theorem kinds_tokensOf (ho : style.Orderly) (hunit : style.unit ≠ [])
    (hrow : ∀ a ∈ row, Fit style a) : ∀ t ∈ tokensOf d row,
      (t.kind = .newline → t.text = style.terminator) ∧
        (t.kind.isComment = true → Tidy style.terminator t.text) := by
  intro t ht
  obtain ⟨a, hmem, ht⟩ := List.mem_flatMap.mp ht
  have ha := hrow a hmem
  rcases List.mem_append.mp ht with ht | ht
  · rcases tokenize_separates ho hunit ha.gap d with e | e | e | ⟨depth, hdepth, e⟩ <;> rw [e] at ht
    · cases ht
    · rw [List.mem_singleton.mp ht]
      exact ⟨nofun, nofun⟩
    · rw [List.mem_singleton.mp ht]
      exact ⟨fun _ => rfl, nofun⟩
    · rcases List.mem_pair.mp ht with rfl | rfl
      · exact ⟨fun _ => rfl, nofun⟩
      · exact ⟨nofun, nofun⟩
  · rw [List.mem_singleton.mp ht]
    refine ⟨fun e => ?_, ha.comment⟩
    have hv := ha.visible
    rw [e] at hv
    cases hv

/-- A fit row with a terminator behind it is read as a fit row, and the terminator behind it unless
    its last token is open. -/
theorem FitRow.tokenize_eq (hrow : FitRow style row) (ho : style.Orderly)
    (h : Readable d style.terminator row) : ∃ row' tail, FitRow style row' ∧
      (tail = [] ∨ tail = [⟨.newline, style.terminator⟩]) ∧
      tokenize d (spread row ++ style.terminator) = tokensOf d row' ++ tail := by
  rcases h.tokenize_eq with e | ⟨init, g, z, rfl, -, -, e⟩
  · exact ⟨row, _, hrow, Or.inr (tokenize_lineEnd ho.terminator), e⟩
  · -- the last token takes the terminator with it
    obtain ⟨⟨first, further, hfirst⟩, hfit⟩ := hrow
    have hz := hfit (g, z) (by simp)
    refine ⟨init ++ [(g, ⟨z.kind, z.text ++ style.terminator⟩)], [], ⟨?_, ?_⟩, Or.inl rfl, ?_⟩
    · cases init with
      | nil =>
        obtain rfl : g = [] := congrArg Prod.fst (List.cons.inj hfirst).1
        exact ⟨_, [], rfl⟩
      | cons b init =>
        rw [(List.cons.inj hfirst).1]
        exact ⟨first, _, rfl⟩
    · intro a ha
      rcases List.mem_append.mp ha with ha | ha
      · exact hfit a (List.mem_append_left _ ha)
      · rw [List.mem_singleton.mp ha]
        exact ⟨hz.gap, hz.visible, fun hc => (hz.comment hc).append_lineEnd⟩
    · rw [e, tokensOf_concat, List.append_nil]

/-! ## 5. Canonical form -/

/-- **Canonical form.** The first token is no layout; terminators are all `nl` and stand right behind
    tokens that are no layout; blanks are indentation by `unit` or single spaces, and none are last;
    and comments have tidy lines. -/
structure Canonical (unit nl : Text) (ts : List Token) : Prop where
  first : ∃ t, ts.head? = some t ∧ t.kind.isLayout = false
  newline : ∀ t ∈ ts, t.kind = .newline → t.text = nl
  follows : ts.IsChain (Follows unit)
  last : ∀ t ∈ ts.getLast?, t.kind ≠ .whitespace
  comments : ∀ t ∈ ts, t.kind.isComment = true → (∀ e ∈ Text.terminators t.text, e = nl) ∧
    ∀ line ∈ Text.splitLines t.text, ∀ c ∈ line.getLast?, Text.isBlank c = false

/-- The last token of a row is no layout. -/
theorem FitRow.getLast?_tokensOf (hrow : FitRow style row) :
    ∀ t ∈ (tokensOf d row).getLast?, t.kind.isLayout = false := by
  obtain ⟨⟨first, further, rfl⟩, hfit⟩ := hrow
  obtain ⟨init, ⟨g, z⟩, e⟩ :=
    (List.eq_nil_or_concat' ((([] : Text), first) :: further)).resolve_left (List.cons_ne_nil _ _)
  rw [e] at hfit ⊢
  intro t ht
  rw [tokensOf_concat, ← List.append_assoc, List.getLast?_append] at ht
  obtain rfl : z = t := Option.some.inj ht
  exact (hfit (g, z) (by simp)).visible

/-- **A fit row is read in canonical form.** -/
theorem FitRow.canonical (hrow : FitRow style row) (ho : style.Orderly) (hunit : style.unit ≠ [])
    {tail : List Token} (htail : tail = [] ∨ tail = [⟨.newline, style.terminator⟩]) :
    Canonical style.unit style.terminator (tokensOf d row ++ tail) := by
  have hlast := hrow.getLast?_tokensOf (d := d)
  obtain ⟨⟨z, further, rfl⟩, hfit⟩ := hrow
  have htokens : tokensOf d (([], z) :: further) ++ tail = z :: (tokensOf d further ++ tail) := by
    rw [tokensOf_cons, tokenize_nil]
    rfl
  obtain ⟨hz, hfurther⟩ := List.forall_mem_cons.mp hfit
  have hkinds : ∀ t ∈ tokensOf d (([], z) :: further) ++ tail,
      (t.kind = .newline → t.text = style.terminator) ∧
        (t.kind.isComment = true → Tidy style.terminator t.text) := by
    intro t ht
    rcases List.mem_append.mp ht with ht | ht
    · exact kinds_tokensOf ho hunit hfit t ht
    · rcases htail with rfl | rfl
      · cases ht
      · rw [List.mem_singleton.mp ht]
        exact ⟨fun _ => rfl, nofun⟩
  refine ⟨⟨z, by rw [htokens]; rfl, hz.visible⟩, fun t ht => (hkinds t ht).1, ?_, ?_, ?_⟩
  · rw [htokens]
    exact follows_tokensOf ho hunit hfurther hz.visible htail
  · intro t ht
    rcases htail with rfl | rfl
    · rw [List.append_nil] at ht
      intro e
      have hv := hlast t ht
      rw [e] at hv
      cases hv
    · rw [List.getLast?_append] at ht
      obtain rfl : ⟨.newline, style.terminator⟩ = t := Option.some.inj ht
      nofun
  · intro t ht hc
    have htidy := (hkinds t ht).2 hc
    exact ⟨htidy.terminators ho.terminator, htidy.splitLines ho.terminator⟩

/-- A layout ends with a character that is no layout and one terminator. -/
theorem ending_finished (ho : style.Orderly) (h : Legible d ts) (hne : ts ≠ []) (p : Spot) :
    ∃ before c, finished style (rendered style p ts) = before ++ c :: style.terminator ∧
      Text.isLayoutChar c = false := by
  obtain ⟨htrim, solid, hmem, hsolid⟩ := trimEnd_rendered ho h hne p
  have hlast := Text.trimEnd_last Text.isLayoutChar (rendered style p ts)
  rw [finished_rendered ho h hne, ← htrim]
  rcases List.eq_nil_or_concat' (Text.trimEnd Text.isLayoutChar (rendered style p ts)) with
    hnil | ⟨before, c, e⟩
  · have hlayout := List.rdropWhile_eq_nil_iff.mp hnil solid hmem
    rw [hsolid] at hlayout
    cases hlayout
  · rw [e] at hlast ⊢
    exact ⟨before, c, by simp, hlast c (by simp)⟩

/-- **A layout from the margin is read in canonical form.** -/
theorem canonical_finished (ho : style.Orderly) (hunit : style.unit ≠ [])
    (h : Legible style.dialect ts) (hne : ts ≠ []) :
    Canonical style.unit style.terminator
      (tokenize style.dialect (finished style (rendered style (.start 0 true) ts))) := by
  obtain ⟨hreadable, hspread⟩ := weldAll_readable ho ho.terminator.atLineEnd_self h
    (Or.inl ho.terminator.layout) hne (.start 0 true)
  obtain ⟨row, tail, hrow, htail, e⟩ := (fitRow_weldAll ho h hne).tokenize_eq ho hreadable
  rw [finished_rendered ho h hne, ← hspread, e]
  exact hrow.canonical ho hunit htail

/-- **The layout of a text is in canonical form**, for every text that shows something, in every
    dialect, with a tab or some spaces as its unit and with every terminator: so its tokens are
    read, and it ends with a character that is no layout and one terminator. -/
theorem formatSource_canonical (d : Dialect) (unit nl x : Text)
    (hu : unit = ['\t'] ∨ ∃ k, 1 ≤ k ∧ unit = List.replicate k ' ') (hn : LineEnd nl)
    (hx : Text.isVoid x = false) :
    ∃ out, formatSource d (some unit) (some nl) x = .ok out ∧
      Canonical unit nl (tokenize d out) ∧
      ∃ before c, out = before ++ c :: nl ∧ Text.isLayoutChar c = false := by
  have hblank : ∀ c ∈ unit, Text.isBlank c = true := by
    rcases hu with rfl | ⟨k, -, rfl⟩
    · simp [Text.isBlank]
    · intro c hc
      rw [List.eq_of_mem_replicate hc]
      rfl
  have hunit : unit ≠ [] := by
    rcases hu with rfl | ⟨k, hk, rfl⟩
    · exact List.cons_ne_nil _ _
    · rw [ne_eq, List.replicate_eq_nil_iff]
      omega
  have hu' : ∀ u ∈ some unit, ∀ c ∈ u, Text.isBlank c = true := by simpa using hblank
  have hn' : ∀ nl' ∈ some nl, LineEnd nl' := by simpa using hn
  have ho := resolve_orderly hu' hn' d x
  have hlegible := legible_significant d x
  have hne := significant_ne_nil d hx
  exact ⟨_, formatSource_eq_finished hu' hn' d hx, canonical_finished ho hunit hlegible hne,
    ending_finished ho hlegible hne _⟩

/-- An open comment takes the last terminator with it, and a character that continues words is
    welded to the word before it. -/
theorem formatSource_canonical_open_comment :
    ([' ', ' '] = ['\t'] ∨ ∃ k, 1 ≤ k ∧ [' ', ' '] = List.replicate k ' ') ∧ LineEnd ['\r'] ∧
    Text.isVoid "if(x \u00B2)\x7by; \n\n/* a \n\n * b\r\n".toList = false ∧
    formatSource .rebeca (some [' ', ' ']) (some ['\r'])
      "if(x \u00B2)\x7by; \n\n/* a \n\n * b\r\n".toList =
        .ok "if (x\u00B2) \x7b\r  y;\r  /* a\r\r   * b\r".toList ∧
    Canonical [' ', ' '] ['\r']
      (tokenize .rebeca "if (x\u00B2) \x7b\r  y;\r  /* a\r\r   * b\r".toList) := by
  have hu : [' ', ' '] = ['\t'] ∨ ∃ k, 1 ≤ k ∧ [' ', ' '] = List.replicate k ' ' :=
    Or.inr ⟨2, by omega, rfl⟩
  have hx : Text.isVoid "if(x \u00B2)\x7by; \n\n/* a \n\n * b\r\n".toList = false := by decide
  have hfixed : formatSource .rebeca (some [' ', ' ']) (some ['\r'])
      "if(x \u00B2)\x7by; \n\n/* a \n\n * b\r\n".toList =
        .ok "if (x\u00B2) \x7b\r  y;\r  /* a\r\r   * b\r".toList := by decide +kernel
  obtain ⟨out, hout, hcanonical, -⟩ :=
    formatSource_canonical .rebeca [' ', ' '] ['\r'] _ hu .carriageReturn hx
  obtain rfl := Except.ok.inj (hfixed.symm.trans hout)
  exact ⟨hu, .carriageReturn, hx, hfixed, hcanonical⟩

end RebecaLayout
