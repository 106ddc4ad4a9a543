import Mathlib.Data.List.DropRight
import RebecaLayout.Text.Basic

/-!
Trimming, and what it cannot remove.

* `trimEnd_append_of_all`, `trimEnd_append_of_last` -- **trimming stops at the first character from
  the right that is not in the set**, whatever stands before it;
* `trimEnd_decomp` -- a text is its trimmed part and a rest of characters of the set;
* `shown` -- the visible characters of a text: all but white space. Trimming blanks, terminators
  or white space removes none of them.
-/

namespace RebecaLayout.Text

variable {p : Char → Bool} {a b t : Text}

/-! ## 1. Sets of characters -/

theorem isBlank_iff {c : Char} : isBlank c = true ↔ c = ' ' ∨ c = '\t' := by
  simp [isBlank]

theorem isTerminator_iff {c : Char} : isTerminator c = true ↔ c = '\n' ∨ c = '\r' := by
  simp [isTerminator]

theorem isLayoutChar_of_isBlank {c : Char} (h : isBlank c = true) : isLayoutChar c = true := by
  simp [isLayoutChar, h]

theorem isLayoutChar_of_isTerminator {c : Char} (h : isTerminator c = true) :
    isLayoutChar c = true := by
  simp [isLayoutChar, h]

/-- The characters of layout are the space, the tab, the line feed and the carriage return. -/
theorem isLayoutChar_iff {c : Char} :
    isLayoutChar c = true ↔ c = ' ' ∨ c = '\t' ∨ c = '\n' ∨ c = '\r' := by
  simp [isLayoutChar, isBlank, isTerminator, or_assoc]

/-- Layout is white space. -/
theorem isSpace_of_isLayoutChar {c : Char} (h : isLayoutChar c = true) : isSpace c = true := by
  rcases isLayoutChar_iff.mp h with rfl | rfl | rfl | rfl <;> decide

/-! ## 2. Trimming the end -/

@[simp] theorem trimEnd_nil (p : Char → Bool) : trimEnd p [] = [] := rfl

theorem trimEnd_append_of_all (h : ∀ c ∈ b, p c = true) : trimEnd p (a ++ b) = trimEnd p a := by
  unfold trimEnd
  rw [List.reverse_append, List.dropWhile_append_of_pos]
  intro c hc
  exact h c (List.mem_reverse.mp hc)

theorem trimEnd_of_all (h : ∀ c ∈ t, p c = true) : trimEnd p t = [] :=
  trimEnd_append_of_all (a := []) h

theorem trimEnd_eq_self (h : ∀ c ∈ t.getLast?, p c = false) : trimEnd p t = t := by
  refine List.rdropWhile_eq_self_iff.mpr fun hne => ?_
  have := h _ (List.getLast?_eq_some_getLast hne)
  simp [this]

/-- A trimmed text does not end with a character of the set. -/
theorem trimEnd_last (p : Char → Bool) (t : Text) : ∀ c ∈ (trimEnd p t).getLast?, p c = false := by
  intro c hc
  have hne : t.rdropWhile p ≠ [] := by
    intro e
    have : trimEnd p t = [] := e
    simp [this] at hc
  have hlast := List.rdropWhile_last_not p t hne
  have e : (t.rdropWhile p).getLast hne = c := by
    have : (t.rdropWhile p).getLast? = some c := hc
    rw [List.getLast?_eq_some_getLast hne] at this
    exact Option.some.inj this
  rw [e] at hlast
  simpa using hlast

theorem trimEnd_trimEnd (p : Char → Bool) (t : Text) : trimEnd p (trimEnd p t) = trimEnd p t :=
  trimEnd_eq_self (trimEnd_last p t)

/-- **Trimming does not reach what stands before a character outside the set.** -/
theorem trimEnd_append_of_last {c : Char} (hc : c ∈ b) (h : p c = false) :
    trimEnd p (a ++ b) = a ++ trimEnd p b := by
  unfold trimEnd
  rw [List.reverse_append, List.dropWhile_append]
  have hne : ¬ (List.dropWhile p b.reverse).isEmpty = true := by
    intro e
    rw [List.isEmpty_iff, List.dropWhile_eq_nil_iff] at e
    have := e c (List.mem_reverse.mpr hc)
    rw [h] at this
    cases this
  rw [if_neg hne, List.reverse_append, List.reverse_reverse]

/-- A text is its trimmed part and a rest of characters of the set. -/
theorem trimEnd_decomp (p : Char → Bool) (t : Text) :
    ∃ rest, t = trimEnd p t ++ rest ∧ ∀ c ∈ rest, p c = true :=
  ⟨t.rtakeWhile p, (List.rdropWhile_append_rtakeWhile).symm, fun _ hc => List.mem_rtakeWhile_imp hc⟩

theorem trimEnd_cons {c : Char} (h : p c = false) (t : Text) :
    trimEnd p (c :: t) = c :: trimEnd p t := by
  obtain ⟨rest, e, hrest⟩ := trimEnd_decomp p t
  have hlast : ∀ x ∈ (c :: trimEnd p t).getLast?, p x = false := by
    intro x hx
    rw [List.getLast?_cons] at hx
    cases hl : (trimEnd p t).getLast? with
    | none =>
      rw [hl] at hx
      rw [← Option.some.inj hx]
      exact h
    | some y =>
      rw [hl] at hx
      rw [← Option.some.inj hx]
      exact trimEnd_last p t y hl
  have hcons : c :: t = (c :: trimEnd p t) ++ rest := congrArg (c :: ·) e
  rw [hcons, trimEnd_append_of_all hrest, trimEnd_eq_self hlast]

theorem prefix_trimEnd (p : Char → Bool) (t : Text) : trimEnd p t <+: t :=
  List.rdropWhile_prefix p t

/-- A text without white space at its end has no layout there. -/
theorem trimEnd_isSpace_last (t : Text) :
    ∀ c ∈ (trimEnd isSpace t).getLast?, isLayoutChar c = false := by
  intro c hc
  have hspace := trimEnd_last isSpace t c hc
  cases hl : isLayoutChar c with
  | false => rfl
  | true =>
    rw [isSpace_of_isLayoutChar hl] at hspace
    cases hspace

/-! ## 3. Trimming both ends -/

/-- A trimmed text begins with no character of the set. -/
theorem trim_head (p : Char → Bool) (t : Text) : ∀ c ∈ (trim p t).head?, p c = false := by
  intro c hc
  have hpre : trim p t <+: trimStart p t := prefix_trimEnd p _
  obtain ⟨rest, e⟩ := hpre
  have hc' : c ∈ (t.dropWhile p).head? := by
    have : (trimStart p t).head? = some c := by
      rw [← e, List.head?_append, Option.mem_def.mp hc]
      rfl
    exact this
  have := List.head?_dropWhile_not p t
  rw [Option.mem_def.mp hc'] at this
  simpa using this

/-- Characters of the set at the start do not survive trimming. -/
theorem trim_append_of_all (h : ∀ c ∈ a, p c = true) : trim p (a ++ b) = trim p b := by
  unfold trim trimStart
  rw [List.dropWhile_append_of_pos h]

theorem trim_trim (p : Char → Bool) (t : Text) : trim p (trim p t) = trim p t := by
  have hstart : trimStart p (trim p t) = trim p t := by
    cases hx : trim p t with
    | nil => rfl
    | cons c rest =>
      have hc := trim_head p t c (by rw [hx]; rfl)
      unfold trimStart
      rw [List.dropWhile_cons_of_neg (by simp [hc])]
  have e : trim p (trim p t) = trimEnd p (trimStart p (trim p t)) := rfl
  rw [e, hstart]
  exact trimEnd_trimEnd p _

theorem trim_last (p : Char → Bool) (t : Text) : ∀ c ∈ (trim p t).getLast?, p c = false :=
  trimEnd_last p _

theorem mem_of_mem_trimEnd {c : Char} (h : c ∈ trimEnd p t) : c ∈ t :=
  (prefix_trimEnd p t).subset h

theorem mem_of_mem_trim {c : Char} (h : c ∈ trim p t) : c ∈ t :=
  (List.dropWhile_suffix p).subset (mem_of_mem_trimEnd h)

/-! ## 4. Visible characters -/

/-- The visible characters of a text. -/
def shown (t : Text) : Text := t.filter fun c => !isSpace c

@[simp] theorem shown_nil : shown [] = [] := rfl

@[simp] theorem shown_append (a b : Text) : shown (a ++ b) = shown a ++ shown b :=
  List.filter_append ..

theorem shown_of_all (h : ∀ c ∈ t, isSpace c = true) : shown t = [] := by
  refine List.filter_eq_nil_iff.mpr fun c hc => ?_
  simp [h c hc]

theorem shown_layout (h : ∀ c ∈ t, isLayoutChar c = true) : shown t = [] :=
  shown_of_all fun c hc => isSpace_of_isLayoutChar (h c hc)

/-- **Trimming white space removes no visible character.** -/
theorem shown_trimEnd (h : ∀ c, p c = true → isSpace c = true) (t : Text) :
    shown (trimEnd p t) = shown t := by
  obtain ⟨rest, e, hrest⟩ := trimEnd_decomp p t
  conv_rhs => rw [e]
  rw [shown_append, shown_of_all fun c hc => h c (hrest c hc), List.append_nil]

theorem shown_trim (h : ∀ c, p c = true → isSpace c = true) (t : Text) :
    shown (trim p t) = shown t := by
  have hstart : shown (trimStart p t) = shown t := by
    conv_rhs => rw [← List.takeWhile_append_dropWhile (p := p) (l := t)]
    rw [shown_append, shown_of_all fun c hc => h c (List.mem_takeWhile_imp hc), List.nil_append]
    rfl
  rw [trim, shown_trimEnd h, hstart]

/-- A text that is not void shows something. -/
theorem shown_ne_nil (h : isVoid t = false) : shown t ≠ [] := by
  intro e
  have hall : isVoid t = true := by
    refine List.all_eq_true.mpr fun c hc => ?_
    have := List.filter_eq_nil_iff.mp e c hc
    simpa using this
  rw [h] at hall
  cases hall

end RebecaLayout.Text
