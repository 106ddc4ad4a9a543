import RebecaLayout.Proofs.Core

/-!
The one place where layout runs tokens together. Some characters may stand within a word and not
begin one; such a character is a token of its own where it begins, but right behind a word it is read
as part of the word, and so is a word behind it.

* `Token.welds` -- a word and a character that continues it;
* `welded` -- **the tokens as they are read once they are written**: what welds is one word;
* `WeldFree` -- tokens of which no two weld;
* `welded_of_weldFree`, `weldFree_of_length` -- these, and only these, stay as many as they are.
-/

namespace RebecaLayout

variable {α β : Type} {d : Dialect} {t u : Token} {ts us : List Token} {m : Bool}

/-! ## 1. Tokens that weld -/

/-- Whether a token is a character that may stand within a word but begins none. -/
def Token.extendsWord (u : Token) : Bool := u.kind == .other && u.text.all isWordChar

/-- Whether the two tokens, side by side, are read as one word. -/
def Token.welds (t u : Token) : Bool := t.kind.isUnquoted && u.extendsWord

/-- The word that two tokens are side by side. -/
def Token.fused (d : Dialect) (t u : Token) : Token :=
  ⟨if t.kind == .number then .number else wordKind d (t.text ++ u.text), t.text ++ u.text⟩

/-- Whether `u` is read as one with the word `t` before it, which ends with a character that
    extends it (`m`) or not. -/
def Token.joinsTo (t : Token) (m : Bool) (u : Token) : Bool :=
  t.welds u || (m && u.kind.isUnquoted)

/-- Welds what follows to the token `a`, as far as it goes, and then the rest. What a token carries
    along with it stays with the word that it begins. -/
def weldOnto (d : Dialect) : α × Token → Bool → List (α × Token) → List (α × Token)
  | a, _, [] => [a]
  | a, m, b :: rest =>
    if a.2.joinsTo m b.2 then weldOnto d (a.1, a.2.fused d b.2) (b.2.kind == .other) rest
    else a :: weldOnto d b false rest

/-- Tokens as they are read once they are written, with what they carry along. -/
def weldAll (d : Dialect) : List (α × Token) → List (α × Token)
  | [] => []
  | a :: rest => weldOnto d a false rest

/-- **The tokens as they are read once they are written.** -/
def welded (d : Dialect) (ts : List Token) : List Token :=
  (weldAll d (ts.map fun t => ((), t))).map Prod.snd

/-- Tokens of which no two weld. -/
def WeldFree (ts : List Token) : Prop := ts.IsChain fun t u => t.welds u = false

instance (ts : List Token) : Decidable (WeldFree ts) :=
  inferInstanceAs (Decidable (ts.IsChain fun t u => t.welds u = false))

/-! ## 2. What tokens carry does not matter -/

theorem map_snd_bare (ts : List Token) : (ts.map fun t => ((), t)).map Prod.snd = ts := by
  rw [List.map_map]
  exact List.map_id ts

theorem weldOnto_map (f : α → β) (a : α × Token) (m : Bool) (l : List (α × Token)) :
    weldOnto d (Prod.map f id a) m (l.map (Prod.map f id)) =
      (weldOnto d a m l).map (Prod.map f id) := by
  induction l generalizing a m with
  | nil => rfl
  | cons b rest ih =>
    rw [List.map_cons, weldOnto, weldOnto]
    have hjoins : (Prod.map f id a).2.joinsTo m (Prod.map f id b).2 = a.2.joinsTo m b.2 := rfl
    rw [hjoins]
    split
    · exact ih (a.1, a.2.fused d b.2) _
    · rw [List.map_cons, ← ih b false]

/-- The tokens of a welded row are the welded tokens of the row. -/
theorem weldAll_tokens (l : List (α × Token)) :
    (weldAll d l).map Prod.snd = welded d (l.map Prod.snd) := by
  have hrow : (l.map Prod.snd).map (fun t => ((), t)) = l.map (Prod.map (fun _ => ()) id) := by
    rw [List.map_map]
    rfl
  unfold welded
  rw [hrow]
  cases l with
  | nil => rfl
  | cons a rest =>
    rw [List.map_cons, weldAll, weldAll, weldOnto_map, List.map_map]
    rfl

/-! ## 3. Welding respects cores -/

theorem joinsTo_congr {t' u' : Token} (ht : t.core = t'.core) (hu : u.core = u'.core) :
    t.joinsTo m u = t'.joinsTo m u' := by
  have hextends : u.extendsWord = u'.extendsWord := by
    have hk := Token.kind_eq_of_core hu
    unfold Token.extendsWord
    rw [← hk]
    by_cases ho : u.kind = .other
    · rw [Token.text_eq_of_core hu (by simp [ho, Kind.isComment]) (by simp [ho, Kind.spansLines])]
    · have hfalse : (u.kind == .other) = false := beq_eq_false_iff_ne.mpr ho
      rw [hfalse, Bool.false_and, Bool.false_and]
  unfold Token.joinsTo Token.welds
  rw [Token.kind_eq_of_core ht, Token.kind_eq_of_core hu, hextends]

/-- What is joined is a word with a character that extends it, or with a word. -/
theorem joinsTo_kinds (hm : m = true → t.kind.isUnquoted = true) (h : t.joinsTo m u = true) :
    t.kind.isUnquoted = true ∧ (u.extendsWord = true ∨ (m = true ∧ u.kind.isUnquoted = true)) := by
  unfold Token.joinsTo Token.welds at h
  rcases Bool.or_eq_true_iff.mp h with h | h
  · obtain ⟨ht, hu⟩ := Bool.and_eq_true_iff.mp h
    exact ⟨ht, Or.inl hu⟩
  · obtain ⟨hm', hu⟩ := Bool.and_eq_true_iff.mp h
    exact ⟨hm hm', Or.inr ⟨hm', hu⟩⟩

theorem fused_isUnquoted (d : Dialect) (t u : Token) : (t.fused d u).kind.isUnquoted = true := by
  unfold Token.fused
  dsimp only
  split
  · rfl
  · exact wordKind_isUnquoted d _

theorem text_eq_of_unquoted (h : t.core = u.core) (ht : t.kind.isUnquoted = true) :
    t.text = u.text := by
  refine Token.text_eq_of_core h ?_ ?_ <;> cases hk : t.kind <;> rw [hk] at ht <;>
    first | rfl | cases ht

theorem extendsWord_kind (h : u.extendsWord = true) : u.kind = .other :=
  beq_iff_eq.mp (Bool.and_eq_true_iff.mp h).1

theorem fused_congr {t' u' : Token} (hm : m = true → t.kind.isUnquoted = true)
    (h : t.joinsTo m u = true) (ht : t.core = t'.core) (hu : u.core = u'.core) :
    t.fused d u = t'.fused d u' := by
  obtain ⟨hquoted, hext⟩ := joinsTo_kinds hm h
  have htext : t.text = t'.text := text_eq_of_unquoted ht hquoted
  have hutext : u.text = u'.text := by
    rcases hext with hext | ⟨-, hu'⟩
    · have hk := extendsWord_kind hext
      exact Token.text_eq_of_core hu (by simp [hk, Kind.isComment]) (by simp [hk, Kind.spansLines])
    · exact text_eq_of_unquoted hu hu'
  unfold Token.fused
  rw [htext, hutext, Token.kind_eq_of_core ht]

theorem weldOnto_congr {a : α × Token} {b : β × Token} {l : List (α × Token)}
    {k : List (β × Token)} (hm : m = true → a.2.kind.isUnquoted = true) (hab : a.2.core = b.2.core)
    (h : l.map (fun x => x.2.core) = k.map (fun x => x.2.core)) :
    (weldOnto d a m l).map (fun x => x.2.core) = (weldOnto d b m k).map (fun x => x.2.core) := by
  induction l generalizing a b k m with
  | nil =>
    obtain rfl : k = [] := List.map_eq_nil_iff.mp h.symm
    simp only [weldOnto, List.map_cons, List.map_nil, hab]
  | cons x l ih =>
    cases k with
    | nil => cases h
    | cons y k =>
      rw [List.map_cons, List.map_cons, List.cons.injEq] at h
      obtain ⟨hxy, hlk⟩ := h
      rw [weldOnto, weldOnto, ← joinsTo_congr hab hxy]
      cases hj : a.2.joinsTo m x.2 with
      | true =>
        rw [if_pos rfl, if_pos rfl, Token.kind_eq_of_core hxy]
        refine ih (fun _ => fused_isUnquoted d _ _) ?_ hlk
        exact congrArg Token.core (fused_congr hm hj hab hxy)
      | false =>
        rw [if_neg Bool.false_ne_true, if_neg Bool.false_ne_true, List.map_cons, List.map_cons, hab,
          ih (by simp) hxy hlk]

/-- **Tokens with the same cores weld in the same way.** -/
theorem welded_congr (h : ts.map Token.core = us.map Token.core) :
    (welded d ts).map Token.core = (welded d us).map Token.core := by
  unfold welded
  cases ts with
  | nil =>
    obtain rfl : us = [] := List.map_eq_nil_iff.mp h.symm
    rfl
  | cons t ts =>
    cases us with
    | nil => cases h
    | cons u us =>
      rw [List.map_cons, List.map_cons, List.cons.injEq] at h
      rw [List.map_map, List.map_map]
      exact weldOnto_congr (by simp) h.1 (by rw [List.map_map, List.map_map]; exact h.2)

/-! ## 4. Tokens of which no two weld -/

theorem weldOnto_of_weldFree {a : α × Token} {l : List (α × Token)}
    (h : WeldFree (a.2 :: l.map Prod.snd)) : weldOnto d a false l = a :: l := by
  induction l generalizing a with
  | nil => rfl
  | cons b l ih =>
    obtain ⟨hab, hl⟩ := List.isChain_cons_cons.mp h
    have hjoins : a.2.joinsTo false b.2 = false := by
      rw [Token.joinsTo, hab]
      rfl
    rw [weldOnto, hjoins, if_neg Bool.false_ne_true, ih hl]

theorem weldAll_of_weldFree {l : List (α × Token)} (h : WeldFree (l.map Prod.snd)) :
    weldAll d l = l := by
  cases l with
  | nil => rfl
  | cons a l => exact weldOnto_of_weldFree h

theorem welded_of_weldFree (h : WeldFree ts) : welded d ts = ts := by
  unfold welded
  rw [weldAll_of_weldFree (by rw [map_snd_bare]; exact h), map_snd_bare]

theorem weldOnto_length (a : α × Token) (m : Bool) (l : List (α × Token)) :
    (weldOnto d a m l).length ≤ l.length + 1 := by
  induction l generalizing a m with
  | nil => exact Nat.le_refl 1
  | cons b l ih =>
    rw [weldOnto]
    split
    · have := ih (a.1, a.2.fused d b.2) (b.2.kind == .other)
      rw [List.length_cons]
      omega
    · have := ih b false
      rw [List.length_cons, List.length_cons]
      omega

/-- Welding makes the row shorter. -/
theorem weldFree_of_weldOnto_length {a : α × Token} {l : List (α × Token)}
    (h : (weldOnto d a false l).length = l.length + 1) : WeldFree (a.2 :: l.map Prod.snd) := by
  induction l generalizing a with
  | nil => exact .singleton _
  | cons b l ih =>
    rw [weldOnto] at h
    cases hj : a.2.joinsTo false b.2 with
    | true =>
      have hle := weldOnto_length (d := d) (a.1, a.2.fused d b.2) (b.2.kind == .other) l
      rw [hj, if_pos rfl, List.length_cons] at h
      omega
    | false =>
      rw [hj, if_neg Bool.false_ne_true, List.length_cons, List.length_cons] at h
      refine List.isChain_cons_cons.mpr ⟨?_, ih (Nat.succ.inj h)⟩
      exact (Bool.or_eq_false_iff.mp hj).1

theorem weldFree_of_length (h : (welded d ts).length = ts.length) : WeldFree ts := by
  cases ts with
  | nil => exact .nil
  | cons t ts =>
    have hlength : (weldOnto d ((), t) false (ts.map fun t => ((), t))).length =
        (ts.map fun t => ((), t)).length + 1 := by
      rw [List.length_map]
      rw [welded, List.length_map] at h
      exact h
    have hfree := weldFree_of_weldOnto_length hlength
    rwa [map_snd_bare] at hfree

end RebecaLayout
