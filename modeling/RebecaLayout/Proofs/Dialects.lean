import Mathlib.Data.List.Forall2
import RebecaLayout.Proofs.Detection
import RebecaLayout.Proofs.Placement

/-!
One text in two dialects.

* `Placed.inDialect` -- a placed token as another dialect has it: it stays where it is;
* `Recast d d' t u` -- the tokens `t` and `u` are one in the dialects `d` and `d'`: they differ in nothing
  but that a word is reserved in one of the two;
* `tokenize_dialects` -- **the tokens of a text are the same in every dialect**, and so is all that
  detection finds.
-/

namespace RebecaLayout

variable {d : Dialect} {t : Token} {rest : Text}

/-- The token as another dialect has it, in the same place. -/
def Placed.inDialect (d : Dialect) (t : Placed) : Placed :=
  { t.toToken.inDialect d with offset := t.offset }

/-- **The same token in two dialects.** -/
structure Recast (d d' : Dialect) (t u : Placed) : Prop where
  offset : u.offset = t.offset
  text : u.text = t.text
  /-- The kinds differ only for a word that one of the dialects reserves. -/
  kind : u.kind = t.kind ∨
    (t.kind = .keyword ∧ u.kind = .identifier ∧ t.text ∈ d.keywords ∧ t.text ∉ d'.keywords) ∨
    (t.kind = .identifier ∧ u.kind = .keyword ∧ t.text ∉ d.keywords ∧ t.text ∈ d'.keywords)

/-- Tokens that change their kinds stay in their places. -/
theorem place_inDialect (d : Dialect) (n : Nat) (ts : List Token) :
    Token.place n (ts.map (Token.inDialect d)) = (Token.place n ts).map (Placed.inDialect d) := by
  induction ts generalizing n with
  | nil => rfl
  | cons t ts ih =>
    rw [List.map_cons, Token.place, Token.place, List.map_cons, inDialect_text, ih]
    rfl

/-- A name has the kind that the dialect gives to its word. -/
theorem Reads.kind_of_isName (h : Reads d t rest) (hname : t.kind.isName = true) :
    t.kind = wordKind d t.text := by
  cases h with
  | word => rfl
  | literal opens _ =>
    rw [literalKind?_not_name opens] at hname
    cases hname
  | mark isMark =>
    rw [(punctuation_kind isMark).1] at hname
    cases hname
  | _ => cases hname

theorem wordKind_of_mem {word : Text} (h : word ∈ d.keywords) : wordKind d word = .keyword :=
  if_pos (List.contains_iff_mem.mpr h)

theorem wordKind_of_notMem {word : Text} (h : word ∉ d.keywords) : wordKind d word = .identifier :=
  if_neg fun hcontains => h (List.contains_iff_mem.mp hcontains)

/-- **A token that a text begins with is the same in another dialect.** -/
theorem Reads.recast {t : Placed} (h : Reads d t.toToken rest) (d' : Dialect) :
    Recast d d' t (t.inDialect d') where
  offset := rfl
  text := inDialect_text d' t.toToken
  kind := by
    have hkind : (t.inDialect d').kind = (t.toToken.inDialect d').kind := rfl
    rw [hkind, Token.inDialect]
    cases hname : t.kind.isName with
    | false => exact Or.inl rfl
    | true =>
      have hd := h.kind_of_isName hname
      rw [if_pos rfl, hd]
      dsimp only
      by_cases hin : t.text ∈ d.keywords <;> by_cases hin' : t.text ∈ d'.keywords
      · exact Or.inl ((wordKind_of_mem hin').trans (wordKind_of_mem hin).symm)
      · exact Or.inr (Or.inl ⟨wordKind_of_mem hin, wordKind_of_notMem hin', hin, hin'⟩)
      · exact Or.inr (Or.inr ⟨wordKind_of_notMem hin, wordKind_of_mem hin', hin, hin'⟩)
      · exact Or.inl ((wordKind_of_notMem hin').trans (wordKind_of_notMem hin).symm)

theorem recast_tokenize (d d' : Dialect) (x : Text) :
    List.Forall₂ (Recast d d') (Token.place 0 (tokenize d x)) (Token.place 0 (tokenize d' x)) := by
  rw [tokenize_inDialect d d' x, place_inDialect, List.forall₂_map_right_iff, List.forall₂_same]
  intro t ht
  have hmem : t.toToken ∈ tokenize d x := by
    rw [← place_toToken 0 (tokenize d x)]
    exact List.mem_map_of_mem ht
  obtain ⟨rest, hreads⟩ := exists_reads_of_mem hmem
  exact hreads.recast d'

/-- **The tokens of a text are the same in every dialect**, with any words reserved: there are as many,
    each in its place and with its text, and their kinds differ only where a word is a keyword of one
    dialect and not of the other. So the lines and the unit that detection finds by the tokens of one
    dialect are those that it would find by the tokens of any other. -/
theorem tokenize_dialects (d d' : Dialect) (x : Text) :
    List.Forall₂ (Recast d d') (Token.place 0 (tokenize d x)) (Token.place 0 (tokenize d' x)) ∧
      codeLines x = codeLinesIn d x ∧ detectUnit x = unitShownBy (codeLinesIn d x) := by
  have hlines : codeLines x = codeLinesIn d x := (codeLines_eq d x).trans (codeLinesIn_eq d x).symm
  exact ⟨recast_tokenize d d' x, hlines, congrArg unitShownBy hlines⟩

end RebecaLayout
