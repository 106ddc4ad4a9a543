import RebecaLayout.Proofs.Canonical
import RebecaLayout.Proofs.Region
import RebecaLayout.Proofs.Neighbours

/-!
**How many blank lines a text has once a region of it is laid out.**

* `blankLines` -- the lines of a text that hold nothing but blanks; `blanksFrom` -- the same of a text
  whose first line has begun already;
* `innerBlanks` -- the blank lines within tokens, which no layout changes;
* `blanksFrom_pieces` -- **between its tokens a layout has no blank line**;
* `blanksFrom_tokens` -- a text has at least those within its tokens;
* `leavesIndent`, `leavesTrail` -- the two seams where a blank line comes to stand: blanks in front of
  a closing brace that moves to a new line, and blanks behind a region that ends its line;
* `blankLines_formatRegion` -- **so a region in its place adds no blank line, but one at each of
  these**.
-/

namespace RebecaLayout

variable {style : Style} {d : Dialect} {t l : Token} {a b ts us : List Token}
  {x y z w nl : Text} {s : Bool} {offset length k : Nat}

/-! ## 1. Counting -/

/-- The number of lines that hold nothing but blanks. -/
def blankLines (t : Text) : Nat := (Text.splitLines t).countP fun line => line.all Text.isBlank

/-- The number of blank lines from here on, if the first line holds something already (`solid`) or
    nothing but blanks. -/
def blanksFrom (solid : Bool) (t : Text) : Nat :=
  match Text.splitLines t with
  | [] => 0
  | first :: further =>
    (if solid || !first.all Text.isBlank then 0 else 1) +
      further.countP fun line => line.all Text.isBlank

theorem blanksFrom_eq {first : Text} {further : List Text}
    (h : Text.splitLines y = first :: further) (s : Bool) :
    blanksFrom s y = (if s || !first.all Text.isBlank then 0 else 1) +
      further.countP fun line => line.all Text.isBlank := by
  rw [blanksFrom, h]

/-- The blank lines of two texts in a row, by the lines of the first. -/
theorem blankLines_append (h : x.getLast? = some '\r' → y.head? ≠ some '\n') {init : List Text}
    {line : Text} (hx : Text.splitLines x = init ++ [line]) :
    blankLines (x ++ y) = (init.countP fun line => line.all Text.isBlank) +
      blanksFrom (!line.all Text.isBlank) y := by
  obtain ⟨first, further, e⟩ := Text.exists_splitLines y
  rw [blankLines, Text.splitLines_append_lines e h hx, List.countP_append, List.countP_cons,
    blanksFrom_eq e, List.all_append]
  cases line.all Text.isBlank <;> cases first.all Text.isBlank <;> simp
  omega

theorem blanksFrom_nil (s : Bool) : blanksFrom s [] = if s then 0 else 1 := by
  cases s <;> rfl

/-- Text within one line. -/
theorem blanksFrom_oneLine (hx : Text.OneLine x) (s : Bool) (y : Text) :
    blanksFrom s (x ++ y) = blanksFrom (s || !x.all Text.isBlank) y := by
  obtain ⟨first, further, e⟩ := Text.exists_splitLines y
  rw [blanksFrom_eq (Text.splitLines_append hx e), blanksFrom_eq e, List.all_append]
  cases s <;> cases x.all Text.isBlank <;> simp

theorem oneLine_of_blanks (hx : ∀ c ∈ x, Text.isBlank c = true) : Text.OneLine x := by
  intro c hc
  rcases Text.isBlank_iff.mp (hx c hc) with rfl | rfl <;> rfl

/-- Blanks decide nothing. -/
theorem blanksFrom_blanks (hx : ∀ c ∈ x, Text.isBlank c = true) (s : Bool) (y : Text) :
    blanksFrom s (x ++ y) = blanksFrom s y := by
  rw [blanksFrom_oneLine (oneLine_of_blanks hx), List.all_eq_true.mpr hx, Bool.not_true,
    Bool.or_false]

/-- A terminator ends a line, and a blank one counts. -/
theorem blanksFrom_lineEnd (hn : LineEnd nl) (hy : nl = ['\r'] → y.head? ≠ some '\n') (s : Bool) :
    blanksFrom s (nl ++ y) = (if s then 0 else 1) + blanksFrom false y := by
  obtain ⟨first, further, e⟩ := Text.exists_splitLines y
  have hlines := Text.splitLines_lineEnd hn hy
  rw [e] at hlines
  rw [blanksFrom_eq hlines, blanksFrom_eq e, List.countP_cons]
  cases s <;> cases first.all Text.isBlank <;> simp <;> omega

/-- A line that begins with something is not blank. -/
theorem blanksFrom_solid {c : Char} (hc : Text.isLayoutChar c = false) (s : Bool) (y : Text) :
    blanksFrom s (c :: y) = blanksFrom true y := by
  have hblank := (not_layoutChar_iff.mp hc).1
  have hone : Text.OneLine [c] := by
    intro c' hc'
    rw [List.mem_singleton.mp hc']
    exact (Bool.or_eq_false_iff.mp hc).2
  have h := blanksFrom_oneLine hone s y
  rw [List.singleton_append] at h
  rw [h]
  simp [hblank]

/-- **Behind something that ends with a character that is no layout, a line goes on.** -/
theorem blanksFrom_append {c : Char} (hc : Text.isLayoutChar c = false)
    (hlast : x.getLast? = some c) (s : Bool) (y : Text) :
    blanksFrom s (x ++ y) = blanksFrom s x + blanksFrom true y := by
  obtain ⟨hblank, -, hreturn⟩ := not_layoutChar_iff.mp hc
  obtain ⟨w, rfl⟩ : ∃ w, x = w ++ [c] := by
    rcases List.eq_nil_or_concat' x with rfl | ⟨w, c', rfl⟩
    · cases hlast
    · rw [List.getLast?_concat] at hlast
      exact ⟨w, by rw [Option.some.inj hlast]⟩
  obtain ⟨init, line, ew⟩ := Text.exists_lastLine w
  obtain ⟨first, further, ey⟩ := Text.exists_splitLines y
  have ex : Text.splitLines (w ++ [c]) = init ++ [line ++ [c]] := by
    rw [Text.splitLines_concat_of_not (Bool.or_eq_false_iff.mp hc).2, ew, Text.growLast_concat]
  have hseam : (w ++ [c]).getLast? = some '\r' → y.head? ≠ some '\n' := by
    intro e
    rw [hlast] at e
    exact absurd (Option.some.inj e) hreturn
  have exy := Text.splitLines_append_lines ey hseam ex
  cases init with
  | nil =>
    rw [List.nil_append] at ex exy
    rw [blanksFrom_eq exy, blanksFrom_eq ex, blanksFrom_eq ey]
    simp [hblank]
  | cons f init =>
    rw [List.cons_append] at ex exy
    rw [blanksFrom_eq exy, blanksFrom_eq ex, blanksFrom_eq ey]
    simp [hblank]
    omega

theorem blanksFrom_true_le (s : Bool) (y : Text) : blanksFrom true y ≤ blanksFrom s y := by
  obtain ⟨first, further, e⟩ := Text.exists_splitLines y
  rw [blanksFrom_eq e, blanksFrom_eq e]
  simp

/-! ## 2. Tokens -/

/-- A text that neither begins nor ends with layout. -/
structure Solid (w : Text) : Prop where
  head : ∃ c, w.head? = some c ∧ Text.isLayoutChar c = false
  last : ∃ c, w.getLast? = some c ∧ Text.isLayoutChar c = false

theorem solid_trimEnd {c : Char} (hc : Text.isLayoutChar c = false) (y : Text) :
    Solid (Text.trimEnd Text.isLayoutChar (c :: y)) := by
  have hcons := Text.trimEnd_cons hc y
  have hne : Text.trimEnd Text.isLayoutChar (c :: y) ≠ [] := by
    rw [hcons]
    exact List.cons_ne_nil _ _
  obtain ⟨l, hl⟩ := Option.ne_none_iff_exists'.mp (List.getLast?_eq_none_iff.not.mpr hne)
  exact ⟨⟨c, by rw [hcons]; rfl, hc⟩, l, hl, Text.trimEnd_last _ _ l hl⟩

theorem Solid.blanksFrom_eq (hw : Solid w) (s : Bool) : blanksFrom s w = blanksFrom true w := by
  obtain ⟨c, hc, hsolid⟩ := hw.head
  obtain ⟨y, rfl⟩ : ∃ y, w = c :: y := ⟨w.tail, List.eq_cons_of_mem_head? hc⟩
  rw [blanksFrom_solid hsolid, blanksFrom_solid hsolid]

/-- Solid text leaves a line that holds something. -/
theorem Solid.blanksFrom_append (hw : Solid w) (s : Bool) (y : Text) :
    blanksFrom s (w ++ y) = blanksFrom true w + blanksFrom true y := by
  obtain ⟨c, hc, hsolid⟩ := hw.last
  rw [RebecaLayout.blanksFrom_append hsolid hc, hw.blanksFrom_eq]

theorem Solid.head_ne (hw : Solid w) (hz : ∀ c ∈ z, Text.isBlank c = true) (y : Text) :
    (z ++ (w ++ y)).head? ≠ some '\n' := by
  intro hfeed
  cases z with
  | nil =>
    obtain ⟨c, hc, hsolid⟩ := hw.head
    rw [List.nil_append, List.head?_append, hc] at hfeed
    obtain rfl : c = '\n' := Option.some.inj hfeed
    cases hsolid
  | cons c z =>
    obtain rfl : c = '\n' := Option.some.inj hfeed
    have hblank := hz _ List.mem_cons_self
    cases hblank

/-- The blank lines within tokens. -/
def innerBlanks : List Token → Nat
  | [] => 0
  | t :: ts => blanksFrom true (Text.trimEnd Text.isLayoutChar t.text) + innerBlanks ts

theorem innerBlanks_append (ts us : List Token) :
    innerBlanks (ts ++ us) = innerBlanks ts + innerBlanks us := by
  induction ts with
  | nil => exact (Nat.zero_add _).symm
  | cons t ts ih => rw [List.cons_append, innerBlanks, innerBlanks, ih, Nat.add_assoc]

theorem blanksFrom_true_oneLine (hx : Text.OneLine x) : blanksFrom true x = 0 := by
  have h := blanksFrom_oneLine hx true []
  rw [List.append_nil] at h
  rw [h]
  rfl

theorem all_trimEnd (x : Text) :
    (Text.trimEnd Text.isBlank x).all Text.isBlank = x.all Text.isBlank := by
  obtain ⟨z, e, hz⟩ := Text.trimEnd_decomp Text.isBlank x
  conv_rhs => rw [e, List.all_append, List.all_eq_true.mpr hz, Bool.and_true]

theorem all_trim (x : Text) : (Text.trim Text.isBlank x).all Text.isBlank = x.all Text.isBlank := by
  have hstart : x.all Text.isBlank = (Text.trimStart Text.isBlank x).all Text.isBlank := by
    have hall : (x.takeWhile Text.isBlank).all Text.isBlank = true :=
      List.all_eq_true.mpr fun c hc => List.mem_takeWhile_imp hc
    conv_lhs => rw [← List.takeWhile_append_dropWhile (p := Text.isBlank) (l := x),
      List.all_append, hall, Bool.true_and]
    rfl
  rw [Text.trim, all_trimEnd, hstart]

/-- Blanks at the edges of lines make no line blank. -/
theorem blankLines_trimmedLines (x : Text) :
    blankLines x = (Text.trimmedLines x).countP fun line => line.all Text.isBlank := by
  obtain ⟨first, further, e⟩ := Text.exists_splitLines x
  rw [blankLines, Text.trimmedLines, e, Text.trimmed, List.countP_cons, List.countP_cons,
    all_trimEnd, List.countP_map]
  congr 2
  exact funext fun line => (all_trim line).symm

theorem Solid.blankLines_eq (hw : Solid w) : blanksFrom true w = blankLines w := by
  obtain ⟨first, further, e⟩ := Text.exists_splitLines w
  rw [← hw.blanksFrom_eq false, RebecaLayout.blanksFrom_eq e, blankLines, e, List.countP_cons]
  cases first.all Text.isBlank <;> simp [Nat.add_comm]

theorem Reads.solid_written {rest : Text} (h : Reads d t rest) (hv : t.kind.isLayout = false)
    (style : Style) (depth : Nat) : Solid (written style depth t).text := by
  obtain ⟨c, y, htext, -, hc⟩ := h.written_head hv style depth
  have hsolid := solid_trimEnd hc y
  have htrim : Text.trimEnd Text.isLayoutChar (written style depth t).text =
      (written style depth t).text := Text.trimEnd_trimEnd _ _
  rwa [← htext, htrim] at hsolid

/-- **Layout changes no blank line within a token.** -/
theorem Reads.blanksFrom_written {rest : Text} (h : Reads d t rest) (hv : t.kind.isLayout = false)
    (ho : style.Orderly) (depth : Nat) : blanksFrom true (written style depth t).text =
      blanksFrom true (Text.trimEnd Text.isLayoutChar t.text) := by
  have htrim : Text.trimEnd Text.isLayoutChar (written style depth t).text =
      (written style depth t).text := Text.trimEnd_trimEnd _ _
  cases hs : t.kind.spansLines with
  | false =>
    have hone := h.oneLine hv hs
    have hbody : Text.OneLine (body style depth t) := by
      cases hk : t.kind with
      | lineComment =>
        simp only [body, hk]
        exact hone.trimEnd _
      | blockComment => rw [hk] at hs; cases hs
      | _ => simpa only [body, hk] using hone
    have hwritten : Text.OneLine (written style depth t).text := hbody.trimEnd _
    rw [blanksFrom_true_oneLine hwritten, blanksFrom_true_oneLine (hone.trimEnd _)]
  | true =>
    have hcore := congrArg Prod.snd (h.core_written hv ho depth)
    have hkind : (written style depth t).kind = t.kind := rfl
    obtain ⟨c, y, htext, hc⟩ := h.head_solid hv
    rcases spansLines_cases hs with hk | hk | hk
    · -- the lines of a comment are the same up to blanks at their edges
      have hlines : Text.trimmedLines (written style depth t).text =
          Text.trimmedLines (Text.trimEnd Text.isLayoutChar t.text) := by
        simpa only [Token.core, hkind, hk, htrim] using hcore
      have hsolid : Solid (Text.trimEnd Text.isLayoutChar t.text) := htext ▸ solid_trimEnd hc y
      rw [(h.solid_written hv style depth).blankLines_eq, hsolid.blankLines_eq,
        blankLines_trimmedLines, blankLines_trimmedLines, hlines]
    all_goals
      have hsame : (written style depth t).text = Text.trimEnd Text.isLayoutChar t.text := by
        simpa [Token.core, hkind, hk, htrim] using hcore
      rw [hsame]

/-! ## 3. Layouts -/

/-- Behind a token, the next one stands on a line that is not blank. -/
theorem blanksFrom_separates {g : Text} (ho : style.Orderly) (hg : Separates style g)
    (hw : Solid w) (y : Text) :
    blanksFrom true (g ++ (w ++ y)) = blanksFrom true w + blanksFrom true y := by
  rcases hg with rfl | rfl | ⟨depth, rfl⟩
  · exact hw.blanksFrom_append true y
  · rw [blanksFrom_blanks (by simp [Text.isBlank]), hw.blanksFrom_append]
  · have hindent := ho.blank_indent depth
    rw [List.append_assoc, blanksFrom_lineEnd ho.terminator fun _ => hw.head_ne hindent y,
      blanksFrom_blanks hindent, hw.blanksFrom_append]
    exact Nat.zero_add _

/-- **Between its tokens a layout has no blank line.** -/
theorem blanksFrom_pieces (ho : style.Orderly) (h : Legible d ts) (q : Spot) (l : Token) (y : Text) :
    blanksFrom true (spread (pieces style (q.after style.dialect l) ts) ++ y) =
      innerBlanks ts + blanksFrom true y := by
  induction ts generalizing q l with
  | nil => exact (Nat.zero_add _).symm
  | cons t ts ih =>
    obtain ⟨hv, rest, hreads⟩ := h.head
    rw [pieces_cons, spread_cons, List.append_assoc, List.append_assoc,
      blanksFrom_separates ho (separates_gap style q l t) (hreads.solid_written hv style _),
      ih h.tail, hreads.blanksFrom_written hv ho, innerBlanks, Nat.add_assoc]

/-- In front of its first token, a layout leaves a blank line if that is a closing brace that moves to
    a new line and only blanks stand in front of it. -/
theorem blanksFrom_opening (ho : style.Orderly) (hw : Solid w) (depth : Nat) (lineStart : Bool)
    (t : Token) (s : Bool) (y : Text) :
    blanksFrom s (opening style depth lineStart t ++ (w ++ y)) =
      (!lineStart && t.kind == .rightBrace && !s).toNat +
        (blanksFrom true w + blanksFrom true y) := by
  have hindent := ho.blank_indent (levelOf depth [] t)
  unfold opening
  cases lineStart with
  | true =>
    rw [if_pos rfl, blanksFrom_blanks hindent, hw.blanksFrom_append]
    exact (Nat.zero_add _).symm
  | false =>
    rw [if_neg Bool.false_ne_true]
    by_cases hk : t.kind = .rightBrace
    · rw [if_pos hk, List.append_assoc,
        blanksFrom_lineEnd ho.terminator fun _ => hw.head_ne hindent y, blanksFrom_blanks hindent,
        hw.blanksFrom_append, hk]
      cases s <;> rfl
    · have hbrace : (t.kind == .rightBrace) = false := by simpa using hk
      rw [if_neg hk, hbrace]
      split
      · rw [blanksFrom_blanks (by simp [Text.isBlank]), hw.blanksFrom_append]
        exact (Nat.zero_add _).symm
      · rw [List.nil_append, hw.blanksFrom_append]
        exact (Nat.zero_add _).symm

/-- The blank lines of a layout from its start. -/
theorem blanksFrom_laid (ho : style.Orderly) (h : Legible d (t :: us)) (depth : Nat)
    (lineStart s : Bool) (y : Text) :
    blanksFrom s (spread (pieces style (.start depth lineStart) (t :: us)) ++ y) =
      (!lineStart && t.kind == .rightBrace && !s).toNat +
        (innerBlanks (t :: us) + blanksFrom true y) := by
  obtain ⟨hv, rest, hreads⟩ := h.head
  rw [pieces_cons, spread_cons, List.append_assoc, List.append_assoc, gap_start,
    blanksFrom_opening ho (hreads.solid_written hv style _), blanksFrom_pieces ho h.tail,
    hreads.blanksFrom_written hv ho, innerBlanks, Nat.add_assoc]

/-! ## 4. Texts -/

/-- Layout at the end of a token that something follows is blanks. -/
theorem Reads.trail_blank {rest : Text} (h : Reads d t rest) (hv : t.kind.isLayout = false)
    (hrest : rest ≠ []) (htext : t.text = w ++ z) (hz : ∀ c ∈ z, Text.isLayoutChar c = true) :
    ∀ c ∈ z, Text.isBlank c = true := by
  intro c hc
  cases hs : t.kind.spansLines with
  | false =>
    have hone := h.oneLine hv hs c (htext ▸ List.mem_append_right w hc)
    have hlayout := hz c hc
    rw [Text.isLayoutChar, hone, Bool.or_false] at hlayout
    exact hlayout
  | true =>
    obtain ⟨l, hl⟩ := Option.ne_none_iff_exists'.mp
      (List.getLast?_eq_none_iff.not.mpr (List.ne_nil_of_mem hc))
    have hsolid := h.last_of_spansLines hs hrest l (by rw [htext, List.getLast?_append, hl]; rfl)
    rw [hz l (List.mem_of_getLast? hl)] at hsolid
    cases hsolid

/-- The last line of a text that ends with a terminator is empty. -/
theorem splitLines_of_last {c : Char} (hc : Text.isTerminator c = true)
    (hlast : y.getLast? = some c) :
    ∃ first further, Text.splitLines y = first :: (further ++ [[]]) := by
  fun_induction Text.splitLines y with
  | case1 => cases hlast
  | case2 rest ih =>
    by_cases hnil : rest = []
    · exact ⟨[], [], by rw [hnil]; rfl⟩
    · rw [List.getLast?_cons_of_ne_nil (List.cons_ne_nil _ _), List.getLast?_cons_of_ne_nil hnil]
        at hlast
      obtain ⟨first, further, e⟩ := ih hlast
      exact ⟨[], first :: further, by rw [e]; rfl⟩
  | case3 c' rest _ hterminator ih =>
    by_cases hnil : rest = []
    · exact ⟨[], [], by rw [hnil]; rfl⟩
    · rw [List.getLast?_cons_of_ne_nil hnil] at hlast
      obtain ⟨first, further, e⟩ := ih hlast
      exact ⟨[], first :: further, by rw [e]; rfl⟩
  | case4 c' rest _ hterminator ih =>
    by_cases hnil : rest = []
    · rw [hnil] at hlast
      obtain rfl : c' = c := Option.some.inj hlast
      exact absurd hc hterminator
    · rw [List.getLast?_cons_of_ne_nil hnil] at hlast
      obtain ⟨first, further, e⟩ := ih hlast
      exact ⟨c' :: first, further, by rw [e]; rfl⟩

theorem blanksFrom_of_last {c : Char} (hc : Text.isTerminator c = true)
    (hlast : y.getLast? = some c) (s : Bool) : 1 ≤ blanksFrom s y := by
  obtain ⟨first, further, e⟩ := splitLines_of_last hc hlast
  rw [blanksFrom_eq e, List.countP_append, ← Nat.add_assoc]
  exact Nat.le_add_left 1 _

/-- **A token that is no layout has the blank lines within it**, and one more if nothing follows and it
    ends with a terminator. -/
theorem Reads.blanksFrom_visible {rest : Text} (h : Reads d t rest) (hv : t.kind.isLayout = false)
    (s : Bool) : blanksFrom true (Text.trimEnd Text.isLayoutChar t.text) +
        blanksFrom (!t.text.getLast?.any Text.isTerminator) rest ≤ blanksFrom s (t.text ++ rest) := by
  obtain ⟨c, y, htext, hc⟩ := h.head_solid hv
  have hsolid : Solid (Text.trimEnd Text.isLayoutChar t.text) := htext ▸ solid_trimEnd hc y
  obtain ⟨z, e, hz⟩ := Text.trimEnd_decomp Text.isLayoutChar t.text
  have hstart : blanksFrom s (t.text ++ rest) =
      blanksFrom true (Text.trimEnd Text.isLayoutChar t.text) + blanksFrom true (z ++ rest) := by
    conv_lhs => rw [e, List.append_assoc, hsolid.blanksFrom_append]
  rw [hstart]
  refine Nat.add_le_add_left ?_ _
  by_cases hrest : rest = []
  · rw [hrest, List.append_nil, blanksFrom_nil]
    cases hany : t.text.getLast?.any Text.isTerminator with
    | false => exact Nat.zero_le _
    | true =>
      obtain ⟨l, hl, hterminator⟩ : ∃ l, t.text.getLast? = some l ∧ Text.isTerminator l = true := by
        simpa [Option.any_eq_true] using hany
      have hzl : z.getLast? = some l := by
        rw [e, List.getLast?_append] at hl
        cases hlast : z.getLast? with
        | some c => rwa [hlast] at hl
        | none =>
          obtain ⟨c, hc', hsolid'⟩ := hsolid.last
          rw [hlast, hc'] at hl
          obtain rfl : c = l := Option.some.inj hl
          rw [Text.isLayoutChar_of_isTerminator hterminator] at hsolid'
          cases hsolid'
      exact blanksFrom_of_last hterminator hzl true
  · have hblank := h.trail_blank hv hrest e hz
    have hany : t.text.getLast?.any Text.isTerminator = false := by
      cases hl : t.text.getLast? with
      | none => rfl
      | some l => exact h.last_not_terminator hv hrest l hl
    rw [blanksFrom_blanks hblank, hany]
    exact Nat.le_refl _

/-- **One token**: the blank lines within it, the blank line that it ends, and what follows on the line
    where it leaves off. -/
theorem Reads.blanksFrom_step {rest : Text} (h : Reads d t rest) (s : Bool) :
    (!s && t.kind == .newline).toNat + (innerBlanks (Token.significant [t]) +
        blanksFrom (!t.text.getLast?.any Text.isTerminator) rest) ≤ blanksFrom s (t.text ++ rest) := by
  have hnone : innerBlanks (Token.significant []) = 0 := rfl
  rw [significant_cons]
  cases hl : t.kind.isLayout with
  | true =>
    rw [if_pos rfl, hnone, Nat.zero_add]
    rcases h.layout_cases hl with ⟨hk, hne, hblank, -⟩ | ⟨hk, terminator, whole⟩
    · obtain ⟨c, hc⟩ := Option.ne_none_iff_exists'.mp (List.getLast?_eq_none_iff.not.mpr hne)
      have hany : t.text.getLast?.any Text.isTerminator = false := by
        rw [hc]
        exact oneLine_of_blanks hblank c (List.mem_of_getLast? hc)
      have hkind : (!s && t.kind == .newline) = false := by
        rw [hk]
        exact Bool.and_false _
      rw [hany, hkind, blanksFrom_blanks hblank]
      exact (Nat.zero_add _).le.trans (blanksFrom_true_le s rest)
    · rw [terminator.last_any, hk, blanksFrom_lineEnd terminator whole]
      cases s <;> exact Nat.le_refl _
  | false =>
    have hkind : (!s && t.kind == .newline) = false := by
      have hnewline : (t.kind == .newline) = false := by
        refine beq_eq_false_iff_ne.mpr fun hk => ?_
        rw [hk] at hl
        cases hl
      rw [hnewline, Bool.and_false]
    rw [if_neg Bool.false_ne_true, innerBlanks, hnone, hkind]
    exact (Nat.zero_add _).le.trans (h.blanksFrom_visible hl s)

/-- **A text has at least the blank lines within its tokens**, one more if a line that is blank so far
    ends right at its start, and what follows begins a line if the text ends one. -/
theorem blanksFrom_tokens (h : tokenize d y = a ++ b) (ha : a ≠ []) (s : Bool) :
    (!s && a.head?.any fun t => t.kind == .newline).toNat + (innerBlanks (Token.significant a) +
        blanksFrom (!(Token.joined a).getLast?.any Text.isTerminator) (Token.joined b)) ≤
      blanksFrom s y := by
  induction a generalizing y s with
  | nil => exact absurd rfl ha
  | cons t a ih =>
    rw [List.cons_append] at h
    obtain ⟨rest, rfl, hreads, hrest⟩ := exists_reads_of_tokenize h
    have hstep := hreads.blanksFrom_step s
    by_cases hnil : a = []
    · have htext : rest = Token.joined b := by
        rw [← joined_tokenize d rest, hrest, hnil]
        rfl
      have hjoined : Token.joined [t] = t.text := List.append_nil _
      rw [hnil, hjoined, ← htext]
      exact hstep
    · -- the text ends as its last tokens do
      have hend : (Token.joined (t :: a)).getLast? = (Token.joined a).getLast? := by
        have hne : Token.joined a ≠ [] := by
          intro e
          obtain ⟨u, us, rfl⟩ := List.exists_cons_of_ne_nil hnil
          obtain ⟨rest', -, hreads', -⟩ := exists_reads_of_tokenize hrest
          exact hreads'.text_ne_nil (List.append_eq_nil_iff.mp e).1
        rw [joined_cons, List.getLast?_append_of_ne_nil _ hne]
      have htail := ih hrest hnil (!t.text.getLast?.any Text.isTerminator)
      have hinner : innerBlanks (Token.significant (t :: a)) =
          innerBlanks (Token.significant [t]) + innerBlanks (Token.significant a) := by
        rw [← List.singleton_append, significant_append, innerBlanks_append]
      rw [hinner, hend]
      simp only [List.head?_cons, Option.any_some]
      omega

/-! ## 5. Seams -/

/-- Blanks in front of a region that begins with a closing brace. -/
def leavesIndent (before span : Text) : Bool :=
  span.head? == some '\x7d' && (Text.splitLines before).getLast?.any fun line =>
    !line.isEmpty && line.all Text.isBlank

/-- Blanks, and nothing else up to the end of the line, behind a region that does not end a line. -/
def leavesTrail (span following : Text) : Bool :=
  !(span.getLast?.any Text.isTerminator) && following.head?.any Text.isBlank &&
    (Text.splitLines following).head?.any fun line => line.all Text.isBlank

/-- A token is read before all that follows it. -/
theorem reads_of_append (h : tokenize d x = a ++ l :: b) : Reads d l (Token.joined b) := by
  induction a generalizing x with
  | nil =>
    obtain ⟨rest, -, hreads, hrest⟩ := exists_reads_of_tokenize h
    rwa [← hrest, joined_tokenize]
  | cons t a ih =>
    obtain ⟨rest, -, -, hrest⟩ := exists_reads_of_tokenize h
    exact ih hrest

/-- The token in front of a boundary, read before what is behind it. -/
theorem reads_of_boundary (hk : k ∈ boundaries d x) {c : Char} (hc : (x.take k).getLast? = some c) :
    ∃ l, l.text.getLast? = some c ∧ Reads d l (x.drop k) := by
  have hcut := (tokenize_take_drop hk).1
  rcases List.eq_nil_or_concat' (tokenize d (x.take k)) with e | ⟨a, l, e⟩
  · rw [← joined_tokenize d (x.take k), e] at hc
    cases hc
  · rw [e, List.append_assoc, List.singleton_append] at hcut
    have hreads := reads_of_append hcut
    rw [joined_tokenize] at hreads
    exact ⟨l, (getLast?_of_tokenize e).symm.trans hc, hreads⟩

/-- No boundary parts a return from its feed. -/
theorem return_of_boundary (hk : k ∈ boundaries d x) :
    (x.take k).getLast? = some '\r' → (x.drop k).head? ≠ some '\n' := by
  intro hc
  obtain ⟨l, hlast, hreads⟩ := reads_of_boundary hk hc
  cases hl : l.kind.isLayout with
  | false => exact hreads.last_not_return hl hlast
  | true =>
    rcases hreads.layout_cases hl with ⟨-, -, hblank, -⟩ | ⟨-, terminator, whole⟩
    · have hreturn := hblank _ (List.mem_of_getLast? hlast)
      cases hreturn
    · refine whole ?_
      generalize l.text = nl at terminator hlast
      cases terminator with
      | carriageReturn => rfl
      | _ => cases hlast

/-- Behind a comment up to the end of its line, the line ends. -/
theorem Reads.lineComment_stop {rest : Text} (h : Reads d t rest) (hk : t.kind = .lineComment) :
    ∀ c ∈ rest.head?, Text.isTerminator c = true := by
  cases h with
  | lineComment _ stop => exact stop
  | literal opens _ => rcases literalKind?_cases opens with ⟨-, rfl⟩ | ⟨-, rfl⟩ <;> cases hk
  | @word c x _ _ _ _ => rcases wordKind_cases d (c :: x) with e | e <;> rw [e] at hk <;> cases hk
  | mark isMark =>
    obtain rfl := hk
    cases (punctuation_kind isMark).2.2.1
  | _ => cases hk

/-- No boundary parts blanks. -/
theorem blank_of_boundary (hk : k ∈ boundaries d x) {c : Char} (hc : (x.take k).getLast? = some c)
    (hblank : Text.isBlank c = true) : ∀ c' ∈ (x.drop k).head?, Text.isBlank c' = false := by
  intro c' hc'
  obtain ⟨l, hlast, hreads⟩ := reads_of_boundary hk hc
  have hrest : x.drop k ≠ [] := by
    intro e
    rw [e] at hc'
    cases hc'
  cases hl : l.kind.isLayout with
  | true =>
    rcases hreads.layout_cases hl with ⟨-, -, -, stop⟩ | ⟨-, terminator, -⟩
    · exact stop c' hc'
    · rw [terminator.last_not_blank [] c hlast] at hblank
      cases hblank
  | false =>
    -- of the tokens that are no layout, only a comment up to the end of its line ends with blanks
    have hsolid : ∀ {p : Prop}, Text.isLayoutChar c = false → p := by
      intro p h
      rw [Text.isLayoutChar_of_isBlank hblank] at h
      cases h
    cases hcomment : l.kind.isComment with
    | false => exact hsolid (hreads.last_solid hl hcomment (fun _ => hrest) c hlast)
    | true =>
      rcases isComment_cases hcomment with hkind | hkind
      · have hterminator := hreads.lineComment_stop hkind c' hc'
        cases hb : Text.isBlank c' with
        | false => rfl
        | true => rcases Text.isBlank_iff.mp hb with rfl | rfl <;> cases hterminator
      · exact hsolid (hreads.last_of_spansLines (by rw [hkind]; rfl) hrest c hlast)

/-- A terminator in front of what begins a line adds no blank line. -/
theorem blanksFrom_break (hn : LineEnd nl) (y : Text) :
    blanksFrom true (nl ++ y) ≤ blanksFrom false y := by
  by_cases hseam : nl = ['\r'] → y.head? ≠ some '\n'
  · rw [blanksFrom_lineEnd hn hseam]
    exact (Nat.zero_add _).le
  · -- a return in front of a feed, and the two are one
    obtain ⟨rfl, hhead⟩ := Classical.not_imp.mp hseam
    obtain ⟨z, rfl⟩ : ∃ z, y = '\n' :: z := ⟨y.tail, List.eq_cons_of_mem_head? (not_not.mp hhead)⟩
    have hpair := blanksFrom_lineEnd (y := z) .returnFeed (fun e => by cases e) true
    have hfeed := blanksFrom_lineEnd (y := z) .feed (fun e => by cases e) false
    change blanksFrom true ('\r' :: '\n' :: z) ≤ blanksFrom false ('\n' :: z)
    change blanksFrom true ('\r' :: '\n' :: z) = _ at hpair
    change blanksFrom false ('\n' :: z) = _ at hfeed
    rw [hpair, hfeed]
    exact Nat.add_le_add_right (Nat.zero_le _) _

/-- **The back seam**: what ends the last line of a layout leaves a blank line exactly if blanks and
    nothing else stand between it and the end of the line. -/
theorem blanksFrom_lineEnding (ho : style.Orderly) {span following : Text}
    (hspan : span.getLast?.any Text.isTerminator = false) :
    blanksFrom true (lineEnding style span following ++ following) =
      blanksFrom true following + (leavesTrail span following).toNat := by
  unfold lineEnding lineEndFollows leavesTrail
  rw [hspan]
  cases hhead : following.head? with
  | none => rfl
  | some c =>
    obtain ⟨z, rfl⟩ : ∃ z, following = c :: z := ⟨following.tail, List.eq_cons_of_mem_head? hhead⟩
    cases hc : Text.isTerminator c with
    | true =>
      have hblank : Text.isBlank c = false := by
        rcases Text.isTerminator_iff.mp hc with rfl | rfl <;> rfl
      simp [hc, hblank]
    | false =>
      obtain ⟨first, further, e⟩ := Text.exists_splitLines z
      have hlines : Text.splitLines (c :: z) = (c :: first) :: further := by
        rw [Text.splitLines_cons hc, e]
        rfl
      have hseam : style.terminator = ['\r'] → (c :: z).head? ≠ some '\n' := by
        intro _ hfeed
        obtain rfl : c = '\n' := Option.some.inj hfeed
        cases hc
      have hbreak := blanksFrom_lineEnd ho.terminator hseam true
      rw [blanksFrom_eq hlines false] at hbreak
      rw [hlines, blanksFrom_eq hlines true]
      rw [Option.all_some, hc, Bool.and_false, if_neg Bool.false_ne_true, hbreak]
      cases hb : Text.isBlank c <;> cases hf : first.all Text.isBlank <;> simp [hb, hf]
      omega

/-- So what ends the last line leaves at most that one. -/
theorem blanksFrom_lineEnding_le (ho : style.Orderly) (span following : Text) :
    blanksFrom true (lineEnding style span following ++ following) ≤
      blanksFrom (!span.getLast?.any Text.isTerminator) following +
        (leavesTrail span following).toNat := by
  cases hspan : span.getLast?.any Text.isTerminator with
  | false => exact (blanksFrom_lineEnding ho hspan).le
  | true =>
    have hending : lineEnding style span following = style.terminator := by
      rw [lineEnding, lineEndFollows, hspan]
      rfl
    rw [hending]
    exact (blanksFrom_break ho.terminator following).trans (Nat.le_add_right _ _)

/-- The last line of a text is empty where a line begins, and ends as the text does elsewhere. -/
theorem lastLine_cases {init : List Text} {line : Text} (h : Text.splitLines x = init ++ [line]) :
    (line = [] ∧ x.getLast?.all Text.isTerminator = true) ∨
      ∃ c, x.getLast? = some c ∧ Text.isTerminator c = false ∧ line.getLast? = some c := by
  have hline : ∀ {init' : List Text} {line' : Text}, Text.splitLines x = init' ++ [line'] →
      line = line' := fun h' => (List.append_singleton_inj.mp (h.symm.trans h')).2
  rcases List.eq_nil_or_concat' x with rfl | ⟨w, c, rfl⟩
  · exact Or.inl ⟨hline (show Text.splitLines [] = [] ++ [[]] from rfl), rfl⟩
  · have hlast : (w ++ [c]).getLast? = some c := List.getLast?_concat ..
    cases hc : Text.isTerminator c with
    | true =>
      obtain ⟨first, further, e⟩ := splitLines_of_last hc hlast
      refine Or.inl ⟨hline (e.trans (List.cons_append ..).symm), ?_⟩
      rw [hlast]
      exact hc
    | false =>
      obtain ⟨init', line', e⟩ := Text.exists_lastLine w
      have hgrown : Text.splitLines (w ++ [c]) = init' ++ [line' ++ [c]] := by
        rw [Text.splitLines_concat_of_not hc, e, Text.growLast_concat]
      rw [hline hgrown]
      exact Or.inr ⟨c, hlast, hc, List.getLast?_concat ..⟩

/-- Whether a closing brace comes first and moves to a new line, away from blanks. -/
def movesBrace (before : Text) (line : Text) (t : Token) : Bool :=
  !before.getLast?.all Text.isTerminator && t.kind == .rightBrace && line.all Text.isBlank

/-- **The front seam**: a closing brace that moves to a new line leaves blanks behind if it begins the
    region, and otherwise the line in front of it is ended already. -/
theorem leavesIndent_or_newline (hstart : offset ∈ boundaries d x)
    (ht : Token.significant (tokenize d (spanOf x offset length)) = t :: us) {init : List Text}
    {line : Text} (hline : Text.splitLines (x.take offset) = init ++ [line])
    (h : movesBrace (x.take offset) line t = true) :
    leavesIndent (x.take offset) (spanOf x offset length) = true ∨
      ((tokenize d (spanOf x offset length)).head?.any fun t => t.kind == .newline) = true := by
  obtain ⟨⟨hstays, hbrace⟩, hblank⟩ : ((x.take offset).getLast?.all Text.isTerminator = false ∧
      t.kind = .rightBrace) ∧ line.all Text.isBlank = true := by simpa [movesBrace] using h
  rcases lastLine_cases hline with ⟨-, hall⟩ | ⟨c, hlast, -, hc⟩
  · rw [hall] at hstays
    cases hstays
  have hcblank : Text.isBlank c = true := List.all_eq_true.mp hblank c (List.mem_of_getLast? hc)
  cases htokens : tokenize d (spanOf x offset length) with
  | nil =>
    rw [htokens] at ht
    cases ht
  | cons u rest =>
    obtain ⟨more, htext, hreads, -⟩ := exists_reads_of_tokenize htokens
    rw [htokens, significant_cons] at ht
    cases hl : u.kind.isLayout with
    | true =>
      rcases hreads.layout_cases hl with ⟨-, hne, hall, -⟩ | ⟨hk, -, -⟩
      · -- blanks are not parted, so none begin the region
        obtain ⟨c', y, e⟩ := List.exists_cons_of_ne_nil hne
        have hhead : (x.drop offset).head? = some c' := by
          rw [← spanOf_append x offset length, htext, e]
          rfl
        have hnot := blank_of_boundary hstart hlast hcblank c' hhead
        rw [hall c' (e ▸ List.mem_cons_self)] at hnot
        cases hnot
      · exact Or.inr (beq_iff_eq.mpr hk)
    | false =>
      rw [hl, if_neg Bool.false_ne_true] at ht
      obtain ⟨rfl, -⟩ := List.cons.inj ht
      have hmark : u.text = ['\x7d'] := by
        rw [hreads.proper.mark (by rw [hbrace]; decide), hbrace]
        rfl
      left
      have hne : line ≠ [] := by
        rintro rfl
        cases hc
      rw [leavesIndent, htext, hmark, hline, List.getLast?_concat]
      simpa [hne] using hblank

theorem movesBrace_le (hstart : offset ∈ boundaries d x)
    (ht : Token.significant (tokenize d (spanOf x offset length)) = t :: us) {init : List Text}
    {line : Text} (hline : Text.splitLines (x.take offset) = init ++ [line]) :
    (movesBrace (x.take offset) line t).toNat ≤
      (leavesIndent (x.take offset) (spanOf x offset length)).toNat +
        (!!line.all Text.isBlank &&
          (tokenize d (spanOf x offset length)).head?.any fun t => t.kind == .newline).toNat := by
  cases h : movesBrace (x.take offset) line t with
  | false => exact Nat.zero_le _
  | true =>
    have hblank : line.all Text.isBlank = true := (Bool.and_eq_true_iff.mp h).2
    rcases leavesIndent_or_newline hstart ht hline h with e | e
    · rw [e]
      exact Nat.le_add_right _ _
    · rw [hblank, e]
      exact Nat.le_add_left _ _

/-- A closing brace that begins the region moves away from blanks in front of it. -/
theorem movesBrace_of_leavesIndent
    (ht : Token.significant (tokenize d (spanOf x offset length)) = t :: us) {init : List Text}
    {line : Text} (hline : Text.splitLines (x.take offset) = init ++ [line])
    (h : leavesIndent (x.take offset) (spanOf x offset length) = true) :
    movesBrace (x.take offset) line t = true := by
  rw [leavesIndent, hline, List.getLast?_concat] at h
  obtain ⟨hhead, hne, hblank⟩ : (spanOf x offset length).head? = some '\x7d' ∧ line ≠ [] ∧
      line.all Text.isBlank = true := by simpa using h
  obtain ⟨y, hspan⟩ : ∃ y, spanOf x offset length = '\x7d' :: y :=
    ⟨_, List.eq_cons_of_mem_head? hhead⟩
  have hreads : Reads d ⟨.rightBrace, ['\x7d']⟩ y := .mark rfl
  have htokens : tokenize d (spanOf x offset length) = ⟨.rightBrace, ['\x7d']⟩ :: tokenize d y := by
    rw [hspan]
    exact tokenize_append hreads
  rw [htokens] at ht
  obtain rfl : ⟨.rightBrace, ['\x7d']⟩ = t := (List.cons.inj ht).1
  have hstays : (x.take offset).getLast?.all Text.isTerminator = false := by
    rcases lastLine_cases hline with ⟨hnil, -⟩ | ⟨c, hlast, hc, -⟩
    · exact absurd hnil hne
    · rw [hlast]
      exact hc
  rw [movesBrace, hstays, hblank]
  rfl

/-! ## 6. A region in its place -/

/-- The blank lines that come to stand at the seams of a region. -/
def seamBlanks (x : Text) (offset length : Nat) : Nat :=
  (leavesIndent (x.take offset) (spanOf x offset length)).toNat +
    (leavesTrail (spanOf x offset length) (x.drop (offset + length))).toNat

/-- Tokens within one line have no blank lines within them. -/
theorem innerBlanks_oneLine (h : ∀ t ∈ ts, Text.OneLine t.text) : innerBlanks ts = 0 := by
  induction ts with
  | nil => rfl
  | cons t ts ih =>
    rw [innerBlanks, blanksFrom_true_oneLine ((h t List.mem_cons_self).trimEnd _),
      ih fun u hu => h u (List.mem_cons_of_mem t hu)]

theorem oneLine_of_mem_tokenize (hx : Text.OneLine x) (ht : t ∈ tokenize d x) :
    Text.OneLine t.text := by
  intro c hc
  refine hx c ?_
  rw [← joined_tokenize d x]
  exact List.mem_flatMap.mpr ⟨t, ht, hc⟩

/-- No terminator stands within one line. -/
theorem head_newline_oneLine (hx : Text.OneLine x) :
    ((tokenize d x).head?.any fun t => t.kind == .newline) = false := by
  cases htokens : tokenize d x with
  | nil => rfl
  | cons t ts =>
    obtain ⟨rest, rfl, hreads, -⟩ := exists_reads_of_tokenize htokens
    refine beq_eq_false_iff_ne.mpr fun hk => ?_
    rcases hreads.layout_cases (by rw [hk]; rfl) with ⟨hk', -⟩ | ⟨-, terminator, -⟩
    · rw [hk] at hk'
      cases hk'
    · obtain ⟨c, more, e, hc⟩ := terminator.exists_head
      rw [hx c (by rw [e]; exact List.mem_cons_self)] at hc
      cases hc

/-- Within a line, only a closing brace that begins the region moves away from blanks. -/
theorem movesBrace_oneLine (hstart : offset ∈ boundaries d x)
    (hone : Text.OneLine (spanOf x offset length))
    (ht : Token.significant (tokenize d (spanOf x offset length)) = t :: us) {init : List Text}
    {line : Text} (hline : Text.splitLines (x.take offset) = init ++ [line]) :
    movesBrace (x.take offset) line t =
      leavesIndent (x.take offset) (spanOf x offset length) := by
  refine Bool.eq_iff_iff.mpr ⟨fun h => ?_, movesBrace_of_leavesIndent ht hline⟩
  rcases leavesIndent_or_newline hstart ht hline h with e | e
  · exact e
  · rw [head_newline_oneLine hone] at e
    cases e

/-- The blank lines of a text with the layout of a region in its place. -/
theorem blankLines_replacement (ho : style.Orderly)
    (ht : Token.significant (tokenize style.dialect (spanOf x offset length)) = t :: us)
    {init : List Text} {line : Text} (hline : Text.splitLines (x.take offset) = init ++ [line])
    (depth : Nat) :
    blankLines (spliced x offset length (replacement style depth x offset length)) =
      (init.countP fun line => line.all Text.isBlank) +
        ((movesBrace (x.take offset) line t).toNat + (innerBlanks (t :: us) +
          blanksFrom true (lineEnding style (spanOf x offset length) (x.drop (offset + length)) ++
            x.drop (offset + length)))) := by
  have hlegible : Legible style.dialect (t :: us) := ht ▸ legible_significant _ _
  obtain ⟨hv, rest, hreads⟩ := hlegible.head
  have hseam : (x.take offset).getLast? = some '\r' →
      (replacement style depth x offset length ++ x.drop (offset + length)).head? ≠ some '\n' := by
    intro hlast
    have hall : (x.take offset).getLast?.all Text.isTerminator = true := by
      rw [hlast]
      rfl
    rw [replacement, ht, hall, pieces_cons, spread_cons, gap_start, opening, if_pos rfl]
    simp only [List.append_assoc]
    exact (hreads.solid_written hv style _).head_ne (ho.blank_indent _) _
  rw [spliced, List.append_assoc, blankLines_append hseam hline, replacement, ht, List.append_assoc,
    blanksFrom_laid ho hlegible, Bool.not_not]
  rfl

/-- **A region in its place adds no blank line but at its seams**: between two boundaries, in any
    dialect and with any unit of blanks and any terminator, given or taken from the text, the region
    is laid out, and the text has at most as many blank lines with the layout in its place as before,
    one more if the region begins with a closing brace behind nothing but blanks on its line, and one
    more if it does not end its line and nothing but blanks follow on it. A region within a line adds
    exactly these. -/
theorem blankLines_formatRegion (d : Dialect) (unit? terminator? : Option Text) (x : Text)
    (offset length : Nat) (hu : ∀ u ∈ unit?, u ≠ [] ∧ ∀ c ∈ u, Text.isBlank c = true)
    (hn : ∀ nl ∈ terminator?, LineEnd nl) (hstart : offset ∈ boundaries d x)
    (hend : offset + length ∈ boundaries d x) :
    ∃ out, formatRegion d unit? terminator? x offset length = .ok out ∧
      blankLines (spliced x offset length out) ≤ blankLines x + seamBlanks x offset length ∧
      (Text.OneLine (spanOf x offset length) → Text.isVoid (spanOf x offset length) = false →
        blankLines (spliced x offset length out) = blankLines x + seamBlanks x offset length) := by
  obtain ⟨depth, hout⟩ := formatRegion_eq hu hn d (le_of_mem_boundaries hend)
  refine ⟨_, hout, ?_⟩
  cases hvoid : Text.isVoid (spanOf x offset length) with
  | true =>
    rw [if_pos rfl, spliced_span]
    exact ⟨Nat.le_add_right _ _, fun _ h => by cases h⟩
  | false =>
    rw [if_neg Bool.false_ne_true]
    have ho := resolve_orderly (fun u h => (hu u h).2) hn d x
    obtain ⟨t, us, ht⟩ := List.exists_cons_of_ne_nil (significant_ne_nil d hvoid)
    obtain ⟨init, line, hline⟩ := Text.exists_lastLine (x.take offset)
    have hnew := blankLines_replacement ho ht hline depth
    have hold := blankLines_append (return_of_boundary hstart) hline
    rw [List.take_append_drop] at hold
    rw [hnew, hold, seamBlanks]
    refine ⟨?_, fun hone _ => ?_⟩
    · have hfront := movesBrace_le hstart ht hline
      have hne : tokenize d (spanOf x offset length) ≠ [] := by
        intro e
        rw [e] at ht
        cases ht
      have hleast := blanksFrom_tokens (tokenize_region hstart hend).1 hne (!line.all Text.isBlank)
      rw [joined_tokenize, joined_tokenize, ht] at hleast
      have hback := blanksFrom_lineEnding_le ho (spanOf x offset length) (x.drop (offset + length))
      omega
    · -- a region within a line shows something there, and nothing of it is blank
      have hlast : (spanOf x offset length).getLast?.any Text.isTerminator = false := by
        cases hc : (spanOf x offset length).getLast? with
        | none => rfl
        | some c => exact hone c (List.mem_of_getLast? hc)
      have hsolid : (spanOf x offset length).all Text.isBlank = false := by
        refine Bool.eq_false_iff.mpr fun hall => ?_
        have hspace : Text.isVoid (spanOf x offset length) = true :=
          List.all_eq_true.mpr fun c hc => Text.isSpace_of_isLayoutChar
            (Text.isLayoutChar_of_isBlank (List.all_eq_true.mp hall c hc))
        rw [hvoid] at hspace
        cases hspace
      have hbefore : blanksFrom (!line.all Text.isBlank) (x.drop offset) =
          blanksFrom true (x.drop (offset + length)) := by
        rw [← spanOf_append x offset length, blanksFrom_oneLine hone, hsolid, Bool.not_false,
          Bool.or_true]
      have hinner : innerBlanks (t :: us) = 0 := by
        refine innerBlanks_oneLine fun u hu => oneLine_of_mem_tokenize hone (d := d) ?_
        rw [← ht] at hu
        exact (List.mem_filter.mp hu).1
      rw [hbefore, hinner, movesBrace_oneLine hstart hone ht hline, blanksFrom_lineEnding ho hlast]
      omega

/-- A blank line goes, and another one comes. -/
theorem blankLines_formatRegion_trail :
    (∀ u ∈ (none : Option Text), u ≠ [] ∧ ∀ c ∈ u, Text.isBlank c = true) ∧
    (∀ nl ∈ (none : Option Text), LineEnd nl) ∧
    3 ∈ boundaries .rebeca "m\x7b\n\n  x;  \n y".toList ∧
    3 + 5 ∈ boundaries .rebeca "m\x7b\n\n  x;  \n y".toList ∧
    seamBlanks "m\x7b\n\n  x;  \n y".toList 3 5 = 1 ∧
    ∃ out, formatRegion .rebeca none none "m\x7b\n\n  x;  \n y".toList 3 5 = .ok out ∧
      blankLines (spliced "m\x7b\n\n  x;  \n y".toList 3 5 out) ≤
        blankLines "m\x7b\n\n  x;  \n y".toList + 1 := by
  have hu : ∀ u ∈ (none : Option Text), u ≠ [] ∧ ∀ c ∈ u, Text.isBlank c = true := by simp
  have hn : ∀ nl ∈ (none : Option Text), LineEnd nl := by simp
  have hstart : 3 ∈ boundaries .rebeca "m\x7b\n\n  x;  \n y".toList := by decide +kernel
  have hend : 3 + 5 ∈ boundaries .rebeca "m\x7b\n\n  x;  \n y".toList := by decide +kernel
  have hseams : seamBlanks "m\x7b\n\n  x;  \n y".toList 3 5 = 1 := by decide +kernel
  obtain ⟨out, hout, hle, -⟩ :=
    blankLines_formatRegion .rebeca none none _ 3 5 hu hn hstart hend
  rw [hseams] at hle
  exact ⟨hu, hn, hstart, hend, hseams, out, hout, hle⟩

/-- Each of the two seams adds a blank line to a text that has none. -/
theorem blankLines_formatRegion_more :
    (0 ∈ boundaries .rebeca "x;  \ny".toList ∧ 0 + 2 ∈ boundaries .rebeca "x;  \ny".toList ∧
      blankLines "x;  \ny".toList = 0 ∧
      formatRegion .rebeca none none "x;  \ny".toList 0 2 = .ok "x;\n".toList ∧
      blankLines (spliced "x;  \ny".toList 0 2 "x;\n".toList) = 1) ∧
    (2 ∈ boundaries .rebeca "  \x7d".toList ∧ 2 + 1 ∈ boundaries .rebeca "  \x7d".toList ∧
      blankLines "  \x7d".toList = 0 ∧
      formatRegion .rebeca none none "  \x7d".toList 2 1 = .ok "\n\x7d".toList ∧
      blankLines (spliced "  \x7d".toList 2 1 "\n\x7d".toList) = 1) := by
  decide +kernel

end RebecaLayout
