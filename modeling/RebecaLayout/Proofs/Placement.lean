import RebecaLayout.Proofs.Boundary

/-!
Tokens with their offsets. They cover the text from end to end, and the text can be cut between any
two of them.

* `Tiles` -- tokens that cover a text: none is empty, and each begins where the one before it ends;
* `tokenEnd` -- where the token at an offset ends; **always behind the offset, never behind the
  text**, so going from end to end gets through;
* `tokenize_tiles` -- the tokens of a text cover it, and their boundaries are the ends to go to;
* `SplitsAt` -- the text is read as its two parts are, the second from where it begins;
* `tokenize_splits` -- **a text splits at its boundaries and nowhere else**.
-/

namespace RebecaLayout

variable {d : Dialect} {t : Token} {ts : List Token} {x rest : Text} {n k : Nat}

/-! ## 1. Placing -/

/-- The token `k` characters further on. -/
def Placed.shifted (k : Nat) (t : Placed) : Placed := { t with offset := t.offset + k }

theorem place_append (n : Nat) (a b : List Token) :
    Token.place n (a ++ b) = Token.place n a ++ Token.place (n + (Token.joined a).length) b := by
  induction a generalizing n with
  | nil => rfl
  | cons t a ih =>
    rw [List.cons_append, Token.place, ih, joined_cons, List.length_append, Nat.add_assoc]
    rfl

theorem place_shifted (n k : Nat) (ts : List Token) :
    (Token.place n ts).map (Placed.shifted k) = Token.place (n + k) ts := by
  induction ts generalizing n with
  | nil => rfl
  | cons t ts ih =>
    rw [Token.place, List.map_cons, ih, Token.place]
    have hnext : n + t.text.length + k = n + k + t.text.length := by omega
    rw [hnext]
    rfl

theorem place_toToken (n : Nat) (ts : List Token) : (Token.place n ts).map Placed.toToken = ts := by
  induction ts generalizing n with
  | nil => rfl
  | cons t ts ih => rw [Token.place, List.map_cons, ih]

/-- A placed token stands behind the tokens in front of it. -/
theorem exists_of_placed {t : Placed} (h : t ∈ Token.place n ts) :
    ∃ a b, ts = a ++ t.toToken :: b ∧ t.offset = n + (Token.joined a).length := by
  induction ts generalizing n with
  | nil => cases h
  | cons u ts ih =>
    rcases List.mem_cons.mp h with rfl | h
    · exact ⟨[], ts, rfl, rfl⟩
    · obtain ⟨a, b, e, hoffset⟩ := ih h
      refine ⟨u :: a, b, by rw [e]; rfl, ?_⟩
      rw [hoffset, joined_cons, List.length_append]
      omega

/-! ## 2. Covering -/

/-- **Tokens that cover a text**: none is empty, together they are the text, the first begins where
    it begins, each begins where the one before it ends, and the last ends where it ends. -/
structure Tiles (x : Text) (ts : List Placed) : Prop where
  nonempty : ∀ t ∈ ts, t.text ≠ []
  whole : (ts.flatMap fun t => t.text) = x
  first : ∀ t ∈ ts.head?, t.offset = 0
  next : ts.IsChain fun t u => u.offset = t.offset + t.text.length
  last : ∀ t ∈ ts.getLast?, t.offset + t.text.length = x.length

theorem place_next (n : Nat) (ts : List Token) :
    (Token.place n ts).IsChain fun t u => u.offset = t.offset + t.text.length := by
  induction ts generalizing n with
  | nil => exact .nil
  | cons t ts ih =>
    cases ts with
    | nil => exact .singleton _
    | cons u ts => exact .cons_cons rfl (ih (n + t.text.length))

theorem place_last (n : Nat) (ts : List Token) :
    ∀ t ∈ (Token.place n ts).getLast?, t.offset + t.text.length = n + (Token.joined ts).length := by
  intro t ht
  obtain ⟨init, l, rfl⟩ : ∃ init l, ts = init ++ [l] := by
    rcases List.eq_nil_or_concat' ts with rfl | h
    · cases ht
    · exact h
  have hlast : Token.place (n + (Token.joined init).length) [l] =
      [{ l with offset := n + (Token.joined init).length }] := rfl
  rw [place_append, hlast, List.getLast?_concat] at ht
  rw [← Option.some.inj ht, joined_append, List.length_append]
  have hl : Token.joined [l] = l.text := List.append_nil _
  rw [hl]
  exact Nat.add_assoc ..

/-- Tokens that are not empty cover the text that they are together. -/
theorem tiles_place (h : ∀ t ∈ ts, t.text ≠ []) : Tiles (Token.joined ts) (Token.place 0 ts) where
  nonempty t ht := by
    have hmem : t.toToken ∈ ts := by
      rw [← place_toToken 0 ts]
      exact List.mem_map_of_mem ht
    exact h _ hmem
  whole := by
    conv_rhs => rw [← place_toToken 0 ts]
    rw [Token.joined, List.flatMap_map]
  first t ht := by
    cases ts with
    | nil => cases ht
    | cons u ts => rw [← Option.some.inj ht]
  next := place_next 0 ts
  last t ht := by
    rw [place_last 0 ts t ht, Nat.zero_add]

/-! ## 3. From end to end -/

/-- Where the token ends that begins at `p`. -/
def tokenEnd (d : Dialect) (x : Text) (p : Nat) : Nat :=
  match x.drop p with
  | [] => p
  | c :: rest => p + (lead d c rest).text.length

theorem tokenEnd_append (h : Reads d t rest) (front : Text) :
    tokenEnd d (front ++ (t.text ++ rest)) front.length = front.length + t.text.length := by
  obtain ⟨c, y, e⟩ := List.exists_cons_of_ne_nil h.text_ne_nil
  have htext : t.text ++ rest = c :: (y ++ rest) := by rw [e]; rfl
  unfold tokenEnd
  rw [List.drop_left, htext]
  dsimp only
  rw [h.lead_eq htext]

/-- **A token ends behind where it begins, and within the text.** -/
theorem tokenEnd_bounds (d : Dialect) {p : Nat} (h : p < x.length) :
    p < tokenEnd d x p ∧ tokenEnd d x p ≤ x.length := by
  obtain ⟨c, r, e⟩ := List.exists_cons_of_ne_nil (List.drop_eq_nil_iff.not.mpr (Nat.not_le.mpr h))
  obtain ⟨rest, htext, hreads⟩ := exists_reads d c r
  have hx : x = x.take p ++ ((lead d c r).text ++ rest) := by
    rw [htext, ← e, List.take_append_drop]
  have hp : (x.take p).length = p := by
    rw [List.length_take]
    omega
  have hend := tokenEnd_append hreads (x.take p)
  rw [← hx, hp] at hend
  have hpos := List.length_pos_iff.mpr hreads.text_ne_nil
  have hlength := congrArg List.length hx
  rw [List.length_append, List.length_append, hp] at hlength
  omega

/-- Going from end to end stops where the tokens begin, and at the end of the text. -/
theorem tokenEnd_iterate (d : Dialect) (x : Text) : ∀ front : Text,
    (Token.place front.length (tokenize d x)).map (fun t => t.offset) ++ [(front ++ x).length] =
      List.iterate (tokenEnd d (front ++ x)) front.length ((tokenize d x).length + 1) := by
  induction x using text_induction d with
  | nil => exact fun front => congrArg (fun y => [List.length y]) (List.append_nil front)
  | step t rest h ih =>
    intro front
    have hlength : (front ++ t.text).length = front.length + t.text.length := List.length_append
    have hnext := ih (front ++ t.text)
    rw [List.append_assoc, hlength] at hnext
    rw [tokenize_append h, List.length_cons, List.iterate, tokenEnd_append h, ← hnext]
    rfl

/-- **Reading loses nothing and always comes to an end**: the tokens of every text, in every dialect,
    cover it; from wherever in the text, a token ends further on and within the text; and going from
    end to end stops at the boundaries of the tokens, the last of which is the end of the text. -/
theorem tokenize_tiles (d : Dialect) (x : Text) :
    Tiles x (Token.place 0 (tokenize d x)) ∧
      (∀ p < x.length, p < tokenEnd d x p ∧ tokenEnd d x p ≤ x.length) ∧
      boundaries d x = List.iterate (tokenEnd d x) 0 ((tokenize d x).length + 1) := by
  refine ⟨?_, fun p hp => tokenEnd_bounds d hp, tokenEnd_iterate d x []⟩
  have hne : ∀ t ∈ tokenize d x, t.text ≠ [] := by
    intro t ht
    obtain ⟨rest, hreads⟩ := exists_reads_of_mem ht
    exact hreads.text_ne_nil
  have htiles := tiles_place hne
  rwa [joined_tokenize] at htiles

/-- A superscript, a pair of terminators, an operator of three characters, and a literal that ends
    with a lone backslash. -/
theorem tokenize_tiles_open_literal :
    Tiles "\u00B2\r\n<->'\\".toList
      [⟨⟨.other, ['\u00B2']⟩, 0⟩, ⟨⟨.newline, ['\r', '\n']⟩, 1⟩, ⟨⟨.operator, "<->".toList⟩, 3⟩,
        ⟨⟨.character, ['\x27', '\\']⟩, 6⟩] ∧
    7 < "\u00B2\r\n<->'\\".toList.length ∧
    7 < tokenEnd .rebeca "\u00B2\r\n<->'\\".toList 7 ∧
    tokenEnd .rebeca "\u00B2\r\n<->'\\".toList 7 ≤ "\u00B2\r\n<->'\\".toList.length := by
  obtain ⟨htiles, hbounds, -⟩ := tokenize_tiles .rebeca "\u00B2\r\n<->'\\".toList
  have htokens : Token.place 0 (tokenize .rebeca "\u00B2\r\n<->'\\".toList) =
      [⟨⟨.other, ['\u00B2']⟩, 0⟩, ⟨⟨.newline, ['\r', '\n']⟩, 1⟩, ⟨⟨.operator, "<->".toList⟩, 3⟩,
        ⟨⟨.character, ['\x27', '\\']⟩, 6⟩] := by
    decide +kernel
  rw [htokens] at htiles
  exact ⟨htiles, by decide, hbounds 7 (by decide)⟩

/-! ## 4. Splitting -/

/-- The text is read as its first `k` characters are and as the others are, `k` further on. -/
def SplitsAt (d : Dialect) (x : Text) (k : Nat) : Prop :=
  Token.place 0 (tokenize d x) = Token.place 0 (tokenize d (x.take k)) ++
    (Token.place 0 (tokenize d (x.drop k))).map (Placed.shifted k)

theorem zero_mem_boundaries (d : Dialect) (x : Text) : 0 ∈ boundaries d x := by
  unfold boundaries
  cases x with
  | nil => exact List.mem_singleton.mpr rfl
  | cons c r =>
    obtain ⟨rest, e, h⟩ := exists_reads d c r
    rw [← e, tokenize_append h]
    exact List.mem_cons_self

theorem splitsAt_of_mem (h : k ∈ boundaries d x) : SplitsAt d x k := by
  have hle := le_of_mem_boundaries h
  have hlength : (Token.joined (tokenize d (x.take k))).length = k := by
    rw [joined_tokenize, List.length_take]
    omega
  unfold SplitsAt
  rw [(tokenize_take_drop h).1, place_append, hlength, place_shifted]

/-- Where a text splits, a token begins or the text ends. -/
theorem mem_of_splitsAt (hk : k ≤ x.length) (h : SplitsAt d x k) : k ∈ boundaries d x := by
  unfold SplitsAt at h
  unfold boundaries
  rw [h]
  cases hrest : tokenize d (x.drop k) with
  | nil =>
    have hnil : x.drop k = [] := by
      rw [← joined_tokenize d (x.drop k), hrest]
      rfl
    have hend : k = x.length := Nat.le_antisymm hk (List.drop_eq_nil_iff.mp hnil)
    exact List.mem_append_right _ (List.mem_singleton.mpr hend)
  | cons t ts =>
    have hfirst : (Placed.shifted k { t with offset := 0 }).offset = k := Nat.zero_add k
    refine List.mem_append_left _ (List.mem_map.mpr ⟨_, ?_, hfirst⟩)
    exact List.mem_append_right _ List.mem_cons_self

/-- **A token is read by itself as it is read in any text.** -/
theorem tokenize_text (h : t ∈ tokenize d x) : tokenize d t.text = [t] := by
  obtain ⟨a, b, e⟩ := List.append_of_mem h
  have hsplit : tokenize d x = (a ++ [t]) ++ b := by rw [e, List.append_assoc]; rfl
  obtain ⟨-, hlast, -⟩ := tokenize_joined (tokenize_joined hsplit).1
  have htext : Token.joined [t] = t.text := List.append_nil _
  rwa [htext] at hlast

/-- **A text splits at its boundaries and nowhere else**: where it begins, where it ends and where a
    token begins, it is read as its two parts are. So every token is read by itself. -/
theorem tokenize_splits (d : Dialect) (x : Text) :
    (∀ k, k = 0 ∨ k ∈ boundaries d x → SplitsAt d x k) ∧
      (∀ k ≤ x.length, SplitsAt d x k → k ∈ boundaries d x) ∧
      ∀ t ∈ tokenize d x, tokenize d t.text = [t] := by
  refine ⟨fun k hk => ?_, fun k hk h => mem_of_splitsAt hk h, fun t ht => tokenize_text ht⟩
  rcases hk with rfl | hk
  · exact splitsAt_of_mem (zero_mem_boundaries d x)
  · exact splitsAt_of_mem hk

/-- Between a comment that looks closed too early and an operator that looks further ahead. -/
theorem tokenize_splits_comment :
    7 ∈ boundaries .property "a/*/b*/<->".toList ∧
    SplitsAt .property "a/*/b*/<->".toList 7 ∧
    (⟨.blockComment, "/*/b*/".toList⟩ : Token) ∈ tokenize .property "a/*/b*/<->".toList ∧
    tokenize .property "/*/b*/".toList = [⟨.blockComment, "/*/b*/".toList⟩] := by
  obtain ⟨hsplits, -, halone⟩ := tokenize_splits .property "a/*/b*/<->".toList
  have hk : 7 ∈ boundaries .property "a/*/b*/<->".toList := by decide +kernel
  have ht : (⟨.blockComment, "/*/b*/".toList⟩ : Token) ∈
      tokenize .property "a/*/b*/<->".toList := by
    decide +kernel
  exact ⟨hk, hsplits 7 (Or.inr hk), ht, halone _ ht⟩

end RebecaLayout
