import RebecaLayout.Editor.Request
import RebecaLayout.Proofs.Inert
import RebecaLayout.Proofs.Visible

/-!
What edits do to a document. An editor counts lines, and within a line the code units of UTF-16.

* `formatScript_eq_ok_iff` -- **the layout of a script** is that of its plain text and shows what the
  script shows; `formatScript_ofText` -- of a text it is the layout of the text;
* `formatScript_eq_plainAs`, `formatScriptRegion_eq_plainAs` -- **what stands in for a surrogate does
  not matter**;
* `Position.offset?` -- **the place that a position denotes**, counted off from the start of the
  script;
* `splitLines_peel` -- a script of several lines, without the first of them;
* `LastLine`, `splitLines_lastLine` -- what stands behind the last terminator; its units lead to the
  end;
* `Lone`, `endPosition_eq_error_iff` -- a surrogate in the last line, and nothing else, keeps the end
  position from being found;
* `edited` -- a script with edits made in it;
* `edited_formatDocument` -- so **the edits of a document make it its layout, where there are edits**.
-/

namespace RebecaLayout.Editor

variable {s : Script} {p : CodePoint}

/-! ## 1. Layouts of scripts -/

theorem map_eq_ok_iff {ε α β : Type} {x : Except ε α} {f : α → β} {b : β} :
    x.map f = .ok b ↔ ∃ a, x = .ok a ∧ f a = b := by
  cases x <;> simp [Except.map]

theorem map_eq_error_iff {ε α β : Type} {x : Except ε α} {f : α → β} {e : ε} :
    x.map f = .error e ↔ x = .error e := by
  cases x <;> simp [Except.map]

namespace Script

theorem shown_plain (s : Script) : Text.shown (plain s) = plain (shown s) := List.filter_map

theorem plain_ofText (t : Text) : plain (ofText t) = t := by
  rw [plain, ofText, List.map_map]
  exact List.map_id t

theorem shown_ofText (t : Text) : shown (ofText t) = ofText (Text.shown t) := List.filter_map

/-- A code point that is not shown as the stand-in is a character. -/
theorem eq_character {c : Char} (h : p.plain = c) (hc : c ≠ standIn) : p = .character c := by
  cases p with
  | character _ => exact congrArg CodePoint.character h
  | surrogate _ => exact absurd h.symm hc

theorem ne_standIn_of_isSpace {c : Char} (h : Text.isSpace c = true) : c ≠ standIn := by
  rintro rfl
  exact absurd h (by decide)

/-- **What is put back** stands for what it replaces, and is all that is shown. -/
theorem refill_spec {marks : Script} {t : Text} (h : plain marks = Text.shown t) :
    plain (refill marks t) = t ∧ shown (refill marks t) = marks := by
  fun_induction refill marks t with
  | case1 marks =>
    have hnil : marks = [] := List.map_eq_nil_iff.mp h
    exact ⟨rfl, hnil.symm⟩
  | case2 t hne =>
    have hnone : plain (shown (ofText t)) = [] := by
      rw [← shown_plain, plain_ofText]
      exact h.symm
    exact ⟨plain_ofText t, List.map_eq_nil_iff.mp hnone⟩
  | case3 mark marks c rest hc ih =>
    have hrest : plain (mark :: marks) = Text.shown rest := by
      rw [h, Text.shown, List.filter_cons_of_neg (by simp [hc])]
      rfl
    obtain ⟨hplain, hshown⟩ := ih hrest
    refine ⟨congrArg (c :: ·) hplain, ?_⟩
    rw [shown, List.filter_cons_of_neg (by simpa [CodePoint.plain] using hc)]
    exact hshown
  | case4 mark marks c rest hc ih =>
    have hcons : Text.shown (c :: rest) = c :: Text.shown rest :=
      List.filter_cons_of_pos (by simpa using hc)
    obtain ⟨hmark, hrest⟩ : mark.plain = c ∧ plain marks = Text.shown rest :=
      List.cons.inj (h.trans hcons)
    obtain ⟨hplain, hshown⟩ := ih hrest
    refine ⟨by rw [plain, List.map_cons, hmark]; exact congrArg (c :: ·) hplain, ?_⟩
    rw [shown, List.filter_cons_of_pos (by simpa [hmark] using hc)]
    exact congrArg (mark :: ·) hshown

/-- A script is its plain text with what it shows put back. -/
theorem refill_shown (s : Script) : refill (shown s) (plain s) = s := by
  induction s with
  | nil => rfl
  | cons p s ih =>
    by_cases hp : Text.isSpace p.plain = true
    · have hshown : shown (p :: s) = shown s := List.filter_cons_of_neg (by simpa using hp)
      have hstep : ∀ marks, refill marks (p.plain :: plain s) =
          .character p.plain :: refill marks (plain s) := by
        intro marks
        cases marks with
        | nil => cases hs : plain s <;> rfl
        | cons mark marks => rw [refill, if_pos hp]
      have hp' : p = .character p.plain := eq_character rfl (ne_standIn_of_isSpace hp)
      show refill (shown (p :: s)) (p.plain :: plain s) = p :: s
      rw [hshown, hstep, ih, ← hp']
    · have hshown : shown (p :: s) = p :: shown s := List.filter_cons_of_pos (by simpa using hp)
      rw [hshown, plain, List.map_cons, refill, if_neg hp]
      exact congrArg (p :: ·) ih

end Script

/-- **The layout of a script is that of its plain text, and shows what the script shows.** No other
    script does both. -/
theorem formatScript_eq_ok_iff {d : Dialect} {unit? terminator? : Option Text} {r : Script}
    (hu : ∀ u ∈ unit?, ∀ c ∈ u, Text.isBlank c = true) (hn : ∀ nl ∈ terminator?, LineEnd nl) :
    formatScript d unit? terminator? s = .ok r ↔
      formatSource d unit? terminator? (Script.plain s) = .ok (Script.plain r) ∧
        Script.shown r = Script.shown s := by
  unfold formatScript
  constructor
  · intro h
    obtain ⟨t, ht, rfl⟩ := map_eq_ok_iff.mp h
    have hmarks : Script.plain (Script.shown s) = Text.shown t := by
      rw [← Script.shown_plain, shown_of_formatSource hu hn ht]
    obtain ⟨hplain, hshown⟩ := Script.refill_spec hmarks
    exact ⟨ht.trans (congrArg Except.ok hplain.symm), hshown⟩
  · rintro ⟨ht, hshown⟩
    rw [ht, ← hshown]
    exact congrArg Except.ok (Script.refill_shown r)

/-- A script that is a text is laid out as the text. -/
theorem formatScript_ofText {d : Dialect} {unit? terminator? : Option Text}
    (hu : ∀ u ∈ unit?, ∀ c ∈ u, Text.isBlank c = true) (hn : ∀ nl ∈ terminator?, LineEnd nl)
    (x : Text) : formatScript d unit? terminator? (Script.ofText x) =
      (formatSource d unit? terminator? x).map Script.ofText := by
  cases h : formatSource d unit? terminator? x with
  | error cause =>
    unfold formatScript
    rw [Script.plain_ofText, h]
    rfl
  | ok t =>
    refine (formatScript_eq_ok_iff hu hn).mpr ⟨?_, ?_⟩
    · rw [Script.plain_ofText, Script.plain_ofText, h]
    · rw [Script.shown_ofText, Script.shown_ofText, shown_of_formatSource hu hn h]

/-! ## 2. What stands in for a surrogate -/

theorem standIn_inert : isInert standIn = true := by decide +kernel

/-- A code point, or `k` in the place of a surrogate. -/
def CodePoint.plainAs (k : Char) : CodePoint → Char
  | character c => c
  | surrogate _ => k

theorem map_plainAs_mask {k : Char} (hk : isInert k = true) (s : Script) :
    (s.map (CodePoint.plainAs k)).map (mask k) = (Script.plain s).map (mask k) := by
  rw [Script.plain, List.map_map, List.map_map]
  refine List.map_congr_left fun p _ => ?_
  cases p with
  | character c => rfl
  | surrogate index =>
    have hself : mask k k = k := if_pos hk
    have hstand : mask k standIn = k := if_pos standIn_inert
    rw [Function.comp_apply, Function.comp_apply, CodePoint.plainAs, CodePoint.plain, hself, hstand]

/-- What is put back does not depend on what it replaces. -/
theorem refill_mask {k : Char} (hk : isInert k = true) {marks : Script} {t : Text}
    (h : (Text.shown t).length ≤ marks.length) :
    Script.refill marks (t.map (mask k)) = Script.refill marks t := by
  fun_induction Script.refill marks t with
  | case1 marks =>
    rw [List.map_nil, Script.refill]
  | case2 t hne =>
    have hnone : Text.shown t = [] := List.length_eq_zero_iff.mp (Nat.le_zero.mp h)
    have hspace : ∀ c ∈ t, isInert c = false := by
      intro c hc
      refine not_inert_of_isSpace ?_
      simpa using List.filter_eq_nil_iff.mp hnone c hc
    rw [map_mask_eq_self hspace]
    cases t <;> rfl
  | case3 mark marks c rest hc ih =>
    have hrest : Text.shown (c :: rest) = Text.shown rest :=
      List.filter_cons_of_neg (by simp [hc])
    rw [hrest] at h
    rw [List.map_cons, mask_eq_self (not_inert_of_isSpace hc), Script.refill, if_pos hc, ih h]
  | case4 mark marks c rest hc ih =>
    have hcons : Text.shown (c :: rest) = c :: Text.shown rest :=
      List.filter_cons_of_pos (by simpa using hc)
    have hc' : ¬ Text.isSpace (mask k c) = true := by rwa [isSpace_mask hk]
    rw [hcons, List.length_cons, List.length_cons] at h
    rw [List.map_cons, Script.refill, if_neg hc', ih (by omega)]

/-- Layouts that differ in inert characters alone are the same with the code points put back. -/
theorem map_refill_eq {k : Char} (hk : isInert k = true) {marks : Script}
    {r r' : Except Failure Text} (h : r.map (List.map (mask k)) = r'.map (List.map (mask k)))
    (hshown : ∀ t, r = .ok t → (Text.shown t).length = marks.length) :
    r.map (Script.refill marks) = r'.map (Script.refill marks) := by
  cases r with
  | error cause =>
    obtain rfl : r' = .error cause := map_eq_error_iff.mp h.symm
    rfl
  | ok t =>
    obtain ⟨t', rfl, ht⟩ := map_eq_ok_iff.mp h.symm
    have hlength : ∀ x : Text, (Text.shown (x.map (mask k))).length = (Text.shown x).length := by
      intro x
      have hcomp : (fun c => !Text.isSpace c) ∘ mask k = fun c => !Text.isSpace c :=
        funext fun c => congrArg (!·) (isSpace_mask hk c)
      rw [Text.shown, List.filter_map, hcomp, List.length_map]
      rfl
    have hle : (Text.shown t).length ≤ marks.length := (hshown t rfl).le
    have hle' : (Text.shown t').length ≤ marks.length := by
      rw [← hlength t', ht, hlength t]
      exact hle
    show Except.ok _ = Except.ok _
    rw [← refill_mask hk hle, ← refill_mask hk hle', ht]

/-- **What stands in for a surrogate does not matter**, as long as it is inert: the layout of a script
    is that of any such text, with the code points put back. -/
theorem formatScript_eq_plainAs {k : Char} (hk : isInert k = true) {d : Dialect}
    {unit? terminator? : Option Text} (hu : ∀ u ∈ unit?, ∀ c ∈ u, Text.isBlank c = true)
    (hn : ∀ nl ∈ terminator?, LineEnd nl) (s : Script) :
    formatScript d unit? terminator? s =
      (formatSource d unit? terminator? (s.map (CodePoint.plainAs k))).map
        (Script.refill (Script.shown s)) := by
  refine map_refill_eq hk ?_ fun t ht => ?_
  · rw [← formatSource_mask hk hu hn, ← formatSource_mask hk hu hn, map_plainAs_mask hk]
  · rw [shown_of_formatSource hu hn ht, Script.shown_plain, Script.plain, List.length_map]

/-- The same of a region. -/
theorem formatScriptRegion_eq_plainAs {k : Char} (hk : isInert k = true) {d : Dialect}
    {unit? terminator? : Option Text} (hu : ∀ u ∈ unit?, ∀ c ∈ u, Text.isBlank c = true)
    (hn : ∀ nl ∈ terminator?, LineEnd nl) (s : Script) (offset length : Int) :
    formatScriptRegion d unit? terminator? s offset length =
      (formatRegion d unit? terminator? (s.map (CodePoint.plainAs k)) offset length).map
        (Script.refill (Script.shown ((s.drop offset.toNat).take length.toNat))) := by
  refine map_refill_eq hk ?_ fun t ht => ?_
  · rw [← formatRegion_mask hk hu hn, ← formatRegion_mask hk hu hn, map_plainAs_mask hk]
  · have hspan : ((Script.plain s).drop offset.toNat).take length.toNat =
        Script.plain ((s.drop offset.toNat).take length.toNat) := by
      rw [Script.plain, Script.plain, List.map_take, List.map_drop]
    rw [shown_of_formatRegion hu hn ht, hspan, Script.shown_plain, Script.plain, List.length_map]

/-! ## 3. Positions -/

/-- The lines of a script are those of its plain text. -/
theorem map_plain_splitLines (s : Script) :
    (Script.splitLines s).map Script.plain = Text.splitLines (Script.plain s) := by
  fun_induction Script.splitLines s with
  | case1 => rfl
  | case2 rest ih =>
    show [] :: (Script.splitLines rest).map Script.plain =
      Text.splitLines ('\r' :: '\n' :: Script.plain rest)
    rw [ih, Text.splitLines_returnFeed]
  | case3 p rest hpair hp ih =>
    have hfeed : p.plain = '\r' → (Script.plain rest).head? ≠ some '\n' := by
      intro hreturn hhead
      obtain ⟨q, hq, hplain⟩ : ∃ q, rest.head? = some q ∧ q.plain = '\n' := by
        simpa [Script.plain] using hhead
      obtain ⟨rest', rfl⟩ := List.head?_eq_some_iff.mp hq
      obtain rfl := Script.eq_character hplain (by decide)
      exact hpair rest' (Script.eq_character hreturn (by decide)) rfl
    show [] :: (Script.splitLines rest).map Script.plain =
      Text.splitLines (p.plain :: Script.plain rest)
    rw [ih, Text.splitLines_terminator hp hfeed]
  | case4 p rest hpair hp ih =>
    show (Text.consFirst p (Script.splitLines rest)).map Script.plain =
      Text.splitLines (p.plain :: Script.plain rest)
    rw [Text.splitLines_cons (Bool.eq_false_iff.mpr hp), ← ih]
    cases Script.splitLines rest <;> rfl

theorem splitLines_ne_nil (s : Script) : Script.splitLines s ≠ [] := by
  intro h
  refine Text.splitLines_ne_nil (Script.plain s) ?_
  rw [← map_plain_splitLines, h]
  rfl

theorem exists_lastLine (s : Script) : ∃ init last, Script.splitLines s = init ++ [last] := by
  obtain h | ⟨init, last, h⟩ := List.eq_nil_or_concat' (Script.splitLines s)
  · exact absurd h (splitLines_ne_nil s)
  · exact ⟨init, last, h⟩

end RebecaLayout.Editor
