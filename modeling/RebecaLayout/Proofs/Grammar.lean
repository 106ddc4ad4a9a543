import RebecaLayout.Proofs.Placement

/-!
The lexical grammar, said of places in a text and without a scan: which rule applies where a token
begins, how far the token reaches, and what its kind is.

* `Rule`, `Rule.opens`, `ruleAt` -- the rules in their order, and the first that fits;
* `LongestRun`, `ThroughFirst` -- the two ways to reach further than a fixed number of characters;
* `takenAt` -- whether a backslash takes a character, by **pairing from the start**;
* `Rule.Reaches`, `Rule.kindOf` -- how far a token reaches by a rule, and its kind;
* `Assigned` -- the token that the grammar assigns to the start of a text, **one at most**;
* `Lexed` -- tokens assigned one behind the other, from a place to the end of the text;
* `tokenize_grammar` -- the tokens of a text are those that the grammar assigns.
-/

namespace RebecaLayout

variable {d : Dialect} {t u : Token} {s x y rest : Text} {c quote : Char} {n m p : Nat}

/-! ## 1. How far tokens reach -/

/-- The first `n` characters are in `q`, and the next one is not. -/
def LongestRun (q : Char → Bool) (s : Text) (n : Nat) : Prop :=
  n ≤ s.length ∧ (∀ c ∈ s.take n, q c = true) ∧ ∀ c ∈ s[n]?, q c = false

/-- Up to the first place that is found and `width` characters with it, or to the end at `size` if
    none is found. -/
def ThroughFirst (found : Nat → Prop) (width size n : Nat) : Prop :=
  (∃ q, found q ∧ (∀ i < q, ¬ found i) ∧ n = q + width) ∨ ((∀ i, ¬ found i) ∧ n = size)

/-- Whether a backslash takes the character at a place. Backslashes are paired with what stands
    behind them from the start of the text. -/
def takenAt (s : Text) : Nat → Bool
  | 0 => false
  | i + 1 => s[i]? == some '\\' && !takenAt s i

/-- A quote that no backslash takes. -/
def QuoteAt (quote : Char) (s : Text) (i : Nat) : Prop := s[i]? = some quote ∧ takenAt s i = false

theorem LongestRun.unique {q : Char → Bool} (hn : LongestRun q s n) (hm : LongestRun q s m) :
    n = m := by
  have hle : ∀ {n m : Nat}, LongestRun q s n → LongestRun q s m → m ≤ n := by
    intro n m hn hm
    refine Nat.le_of_not_lt fun hlt => ?_
    obtain ⟨-, -, hstop⟩ := hn
    obtain ⟨hsize, hall, -⟩ := hm
    have hget : s[n]? = some s[n] := List.getElem?_eq_getElem (by omega)
    have hmem : s[n] ∈ s.take m := List.mem_take_iff_getElem.mpr ⟨n, by omega, rfl⟩
    have hin := hall _ hmem
    rw [hstop _ hget] at hin
    cases hin
  exact Nat.le_antisymm (hle hm hn) (hle hn hm)

theorem ThroughFirst.unique {found : Nat → Prop} {width size : Nat}
    (hn : ThroughFirst found width size n) (hm : ThroughFirst found width size m) : n = m := by
  rcases hn with ⟨q, hq, hfirst, rfl⟩ | ⟨hnone, rfl⟩
  · rcases hm with ⟨q', hq', hfirst', rfl⟩ | ⟨hnone, -⟩
    · have hle : q ≤ q' := Nat.le_of_not_lt fun hlt => hfirst q' hlt hq'
      have hge : q' ≤ q := Nat.le_of_not_lt fun hlt => hfirst' q hlt hq
      omega
    · exact absurd hq (hnone q)
  · rcases hm with ⟨q, hq, -, -⟩ | ⟨-, rfl⟩
    · exact absurd hq (hnone q)
    · rfl

/-- What is found in a text is found `k` further on behind `k` characters where nothing is. -/
theorem ThroughFirst.shift {found found' : Nat → Prop} {width size : Nat} (k : Nat)
    (hnone : ∀ i < k, ¬ found i) (hshift : ∀ i, found (i + k) ↔ found' i)
    (h : ThroughFirst found' width size n) : ThroughFirst found width (size + k) (n + k) := by
  have hback : ∀ i, k ≤ i → found i → found' (i - k) := by
    intro i hi hf
    refine (hshift _).mp ?_
    rwa [Nat.sub_add_cancel hi]
  rcases h with ⟨q, hq, hfirst, rfl⟩ | ⟨hnever, rfl⟩
  · refine Or.inl ⟨q + k, (hshift q).mpr hq, fun i hi hf => ?_, by omega⟩
    by_cases hik : i < k
    · exact hnone i hik hf
    · exact hfirst (i - k) (by omega) (hback i (by omega) hf)
  · refine Or.inr ⟨fun i hf => ?_, rfl⟩
    by_cases hik : i < k
    · exact hnone i hik hf
    · exact hnever (i - k) (hback i (by omega) hf)

/-- Characters of a set, up to one that is not in it, are the longest run. -/
theorem longestRun_append {q : Char → Bool} (hx : ∀ c ∈ x, q c = true)
    (hrest : ∀ c ∈ rest.head?, q c = false) : LongestRun q (x ++ rest) x.length := by
  refine ⟨by rw [List.length_append]; omega, ?_, ?_⟩
  · rw [List.take_left]
    exact hx
  · rw [List.getElem?_append_right (Nat.le_refl _), Nat.sub_self, ← List.head?_eq_getElem?]
    exact hrest

/-- **A comment reaches through the first `*/`, or to the end.** -/
theorem throughClose_first (z : Text) :
    ThroughFirst (fun i => ['*', '/'] <+: z.drop i) 2 z.length (throughClose z).length := by
  fun_induction throughClose z with
  | case1 => exact Or.inr ⟨fun i => by simp, rfl⟩
  | case2 rest => exact Or.inl ⟨0, ⟨rest, rfl⟩, fun i hi => absurd hi (Nat.not_lt_zero i), rfl⟩
  | case3 c rest hc ih =>
    refine ih.shift 1 (fun i hi => ?_) fun i => Iff.rfl
    obtain rfl : i = 0 := by omega
    rintro ⟨more, e⟩
    obtain ⟨hstar, hslash⟩ := List.cons.inj e
    exact hc more hstar.symm hslash.symm

theorem takenAt_cons (hc : c ≠ '\\') (z : Text) (i : Nat) :
    takenAt (c :: z) (i + 1) = takenAt z i := by
  induction i with
  | zero => simp [takenAt, hc]
  | succ i ih => rw [takenAt, ih, List.getElem?_cons_succ, takenAt]

theorem takenAt_pair (c : Char) (z : Text) (i : Nat) :
    takenAt ('\\' :: c :: z) (i + 2) = takenAt z i := by
  induction i with
  | zero => simp [takenAt]
  | succ i ih => rw [takenAt, ih, List.getElem?_cons_succ, List.getElem?_cons_succ, takenAt]

/-- **A literal reaches through the first quote that no backslash takes, or to the end.** -/
theorem throughQuote_first (hq : quote ≠ '\\') (z : Text) :
    ThroughFirst (QuoteAt quote z) 1 z.length (throughQuote quote z).length := by
  fun_induction throughQuote quote z with
  | case1 => exact Or.inr ⟨fun i h => absurd h.1 (by simp), rfl⟩
  | case2 =>
    refine Or.inr ⟨fun i h => ?_, rfl⟩
    have hmem := List.mem_of_getElem? h.1
    exact hq (List.mem_singleton.mp hmem)
  | case3 c rest ih =>
    refine ih.shift 2 (fun i hi => ?_) fun i => ?_
    · -- the backslash is no quote, and what stands behind it is taken
      intro h
      obtain ⟨hget, htaken⟩ := h
      have hcases : i = 0 ∨ i = 1 := by omega
      rcases hcases with rfl | rfl
      · exact hq (Option.some.inj hget).symm
      · cases htaken
    · rw [QuoteAt, takenAt_pair]
      rfl
  | case4 c rest _ _ hc =>
    refine Or.inl ⟨0, ⟨?_, rfl⟩, fun i hi => absurd hi (Nat.not_lt_zero i), rfl⟩
    rw [beq_iff_eq.mp hc]
    rfl
  | case5 c rest hlone hpair hc ih =>
    refine ih.shift 1 (fun i hi => ?_) fun i => ?_
    · obtain rfl : i = 0 := by omega
      rintro ⟨hget, -⟩
      exact hc (beq_iff_eq.mpr (Option.some.inj hget))
    · rw [QuoteAt, takenAt_cons (ne_backslash hlone hpair)]
      rfl

/-! ## 2. The rules -/

/-- The rules of the grammar. -/
inductive Rule where
  | blanks
  | lineEnd
  | lineComment
  | blockComment
  | string
  | character
  | word
  | number
  | mark
  | operator
  | other
  deriving DecidableEq, Repr

namespace Rule

/-- The rules in their order. -/
def priority : List Rule :=
  [blanks, lineEnd, lineComment, blockComment, string, character, word, number, mark, operator,
   other]

/-- Whether a text begins as the rule asks. -/
def opens (r : Rule) (s : Text) : Bool :=
  match r with
  | blanks => s.head?.any Text.isBlank
  | lineEnd => s.head?.any Text.isTerminator
  | lineComment => ['/', '/'].isPrefixOf s
  | blockComment => ['/', '*'].isPrefixOf s
  | string => s.head? == some '"'
  | character => s.head? == some '\x27'
  | word => s.head?.any isWordStart
  | number => s.head?.any Char.isDigit
  | mark => s.head?.any fun c => (punctuation? c).isSome
  | operator => operators.any fun op => op.isPrefixOf s
  | other => !s.isEmpty

/-- **The first `n` characters of a text are a token by the rule.** -/
def Reaches (r : Rule) (s : Text) (n : Nat) : Prop :=
  match r with
  | blanks => LongestRun Text.isBlank s n
  -- the pair of return and feed if it is there
  | lineEnd => n = if ['\r', '\n'].isPrefixOf s then 2 else 1
  | lineComment => LongestRun (fun c => !Text.isTerminator c) s n
  -- the first `*/` behind the two characters that open the comment
  | blockComment => ThroughFirst (fun i => 2 ≤ i ∧ ['*', '/'] <+: s.drop i) 2 s.length n
  -- backslashes are paired from behind the first quote
  | string => ThroughFirst (fun i => 1 ≤ i ∧ QuoteAt '"' (s.drop 1) (i - 1)) 1 s.length n
  | character => ThroughFirst (fun i => 1 ≤ i ∧ QuoteAt '\x27' (s.drop 1) (i - 1)) 1 s.length n
  | word | number => LongestRun isWordChar s n
  | mark | other => n = 1
  | operator => ∃ op ∈ operators, op <+: s ∧ n = op.length ∧
      ∀ other ∈ operators, other <+: s → other.length ≤ op.length

/-- The kind of a token with the text `x` by the rule. -/
def kindOf (dialect : Dialect) (r : Rule) (x : Text) : Kind :=
  match r with
  | blanks => .whitespace
  | lineEnd => .newline
  | lineComment => .lineComment
  | blockComment => .blockComment
  | string => .string
  | character => .character
  | word => if x ∈ dialect.keywords then .keyword else .identifier
  | number => .number
  | mark => (x.head?.bind punctuation?).getD .other
  | operator => .operator
  | other => .other

end Rule

/-- The first rule that fits where a text begins. -/
def ruleAt (s : Text) : Option Rule := Rule.priority.find? fun r => r.opens s

/-- **The token that the grammar assigns to the start of a text**: by the first rule that fits, as far
    as it reaches. -/
def Assigned (dialect : Dialect) (s : Text) (t : Token) : Prop :=
  ∃ r, ruleAt s = some r ∧ t.text <+: s ∧ r.Reaches s t.text.length ∧
    t.kind = r.kindOf dialect t.text

theorem Rule.Reaches.unique {r : Rule} (hn : r.Reaches s n) (hm : r.Reaches s m) : n = m := by
  cases r with
  | blanks | lineComment | word | number => exact LongestRun.unique hn hm
  | blockComment | string | character => exact ThroughFirst.unique hn hm
  | lineEnd | mark | other => exact Eq.trans hn (Eq.symm hm)
  | operator =>
    obtain ⟨op, hop, hpre, rfl, hmax⟩ := hn
    obtain ⟨op', hop', hpre', rfl, hmax'⟩ := hm
    exact Nat.le_antisymm (hmax' op hop hpre) (hmax op' hop' hpre')

/-- **The grammar assigns at most one token.** -/
theorem Assigned.unique (ht : Assigned d s t) (hu : Assigned d s u) : t = u := by
  obtain ⟨r, hr, htext, hreaches, hkind⟩ := ht
  obtain ⟨r', hr', htext', hreaches', hkind'⟩ := hu
  obtain rfl : r = r' := Option.some.inj (hr.symm.trans hr')
  have hlength := hreaches.unique hreaches'
  have heq : t.text = u.text := by
    rw [List.prefix_iff_eq_take.mp htext, List.prefix_iff_eq_take.mp htext', hlength]
  obtain ⟨kind, text⟩ := t
  obtain ⟨kind', text'⟩ := u
  dsimp only at heq hkind hkind'
  subst heq
  rw [hkind, hkind']

/-! ## 3. The first rule that fits -/

theorem pair_isPrefixOf {a b : Char} :
    [a, b].isPrefixOf (c :: y) = true ↔ c = a ∧ y.head? = some b := by
  rw [List.isPrefixOf_iff_prefix]
  constructor
  · intro ⟨more, e⟩
    obtain ⟨rfl, rfl⟩ := List.cons.inj e
    exact ⟨rfl, rfl⟩
  · intro ⟨hc, hy⟩
    obtain ⟨more, rfl⟩ := List.head?_eq_some_iff.mp hy
    exact ⟨more, by rw [hc]; rfl⟩

theorem operators_isPrefixOf :
    (operators.any fun op => op.isPrefixOf (c :: y)) = true ↔ [c] ∈ operators := by
  simp only [List.any_eq_true, List.isPrefixOf_iff_prefix]
  constructor
  · intro ⟨op, hop, hpre⟩
    obtain ⟨b, z, rfl⟩ := List.exists_cons_of_ne_nil (operator_ne_nil hop)
    obtain ⟨rfl, -⟩ := List.cons_prefix_cons.mp hpre
    exact operator_head _ hop
  · intro hc
    exact ⟨[c], hc, ⟨y, rfl⟩⟩

/-- Where neither layout nor a literal nor a comment begins, five rules are left. -/
theorem ruleAt_plain (hl : Text.isLayoutChar c = false) (hq : literalKind? c = none)
    (hs : c = '/' → y.head? ≠ some '/' ∧ y.head? ≠ some '*') : ruleAt (c :: y) =
      [Rule.word, .number, .mark, .operator, .other].find? fun r => r.opens (c :: y) := by
  obtain ⟨hb, hn, hr⟩ := not_layoutChar_iff.mp hl
  obtain ⟨hd, ha⟩ := literalKind?_eq_none hq
  have hterm : Text.isTerminator c = false := by simp [Text.isTerminator, hn, hr]
  have hline : ['/', '/'].isPrefixOf (c :: y) = false :=
    Bool.eq_false_iff.mpr fun h => (hs (pair_isPrefixOf.mp h).1).1 (pair_isPrefixOf.mp h).2
  have hblock : ['/', '*'].isPrefixOf (c :: y) = false :=
    Bool.eq_false_iff.mpr fun h => (hs (pair_isPrefixOf.mp h).1).2 (pair_isPrefixOf.mp h).2
  have hdouble : (some c == some '"') = false := by simpa using hd
  have hsingle : (some c == some '\x27') = false := by simpa using ha
  simp only [ruleAt, Rule.priority, Rule.opens, List.find?, List.head?_cons, Option.any_some, hb,
    hterm, hline, hblock, hdouble, hsingle]

theorem literalKind?_of_wordChar (h : isWordChar c = true) : literalKind? c = none := by
  cases hq : literalKind? c with
  | none => rfl
  | some kind =>
    rw [not_wordChar_of_literal hq] at h
    cases h

/-- A literal and what follows it, from its first quote. -/
theorem literal_reaches (hq : quote ≠ '\\') (reach : throughQuote quote (x ++ rest) = x) :
    ThroughFirst (fun i => 1 ≤ i ∧ QuoteAt quote ((quote :: (x ++ rest)).drop 1) (i - 1)) 1
      (quote :: (x ++ rest)).length (quote :: x).length := by
  have hfirst := throughQuote_first hq (x ++ rest)
  rw [reach] at hfirst
  refine hfirst.shift 1 (fun i hi hf => by omega) fun i => ?_
  rw [Nat.add_sub_cancel, List.drop_one, List.tail_cons]
  exact and_iff_right (Nat.le_add_left 1 i)

/-- **What the rules of reading say is what the grammar assigns.** -/
theorem Reads.assigned (h : Reads d t rest) : Assigned d (t.text ++ rest) t := by
  cases h with
  | @blanks x _ ne all stop =>
    refine ⟨.blanks, ?_, List.prefix_append _ _, longestRun_append all stop, rfl⟩
    cases x with
    | nil => exact absurd rfl ne
    | cons b x => simp [ruleAt, Rule.priority, Rule.opens, all b]
  | lineEnd terminator whole =>
    refine ⟨.lineEnd, ?_, List.prefix_append _ _, ?_, rfl⟩
    · cases terminator <;> rfl
    · cases terminator with
      | feed => rfl
      | returnFeed => rfl
      | carriageReturn =>
        have hpair : ['\r', '\n'].isPrefixOf ('\r' :: rest) = false :=
          Bool.eq_false_iff.mpr fun h => whole rfl (pair_isPrefixOf.mp h).2
        simp [Rule.Reaches, hpair]
  | @lineComment x _ oneLine stop =>
    have hslashes : ∀ y ∈ '/' :: '/' :: x, (!Text.isTerminator y) = true :=
      List.forall_mem_cons.mpr ⟨rfl, List.forall_mem_cons.mpr
        ⟨rfl, fun y hy => by simp [oneLine y hy]⟩⟩
    exact ⟨.lineComment, rfl, List.prefix_append _ _,
      longestRun_append hslashes (by simpa using stop), rfl⟩
  | @blockComment x _ reach =>
    have hfirst := throughClose_first (x ++ rest)
    rw [reach] at hfirst
    refine ⟨.blockComment, rfl, List.prefix_append _ _, ?_, rfl⟩
    exact hfirst.shift 2 (fun i hi hf => by omega) fun i => and_iff_right (Nat.le_add_left 2 i)
  | @literal quote kind x _ opens reach =>
    rcases literalKind?_cases opens with ⟨rfl, rfl⟩ | ⟨rfl, rfl⟩
    · exact ⟨.string, rfl, List.prefix_append _ _, literal_reaches (by decide) reach, rfl⟩
    · exact ⟨.character, rfl, List.prefix_append _ _, literal_reaches (by decide) reach, rfl⟩
  | @word b x _ start all stop =>
    have hslash : b ≠ '/' := by rintro rfl; cases start
    have hrule : ruleAt (b :: (x ++ rest)) = some .word := by
      rw [ruleAt_plain (not_layoutChar_of_start start) (literalKind?_of_start start)
        (fun e => absurd e hslash)]
      simp [Rule.opens, start]
    refine ⟨.word, hrule, List.prefix_append _ _, ?_, by simp [wordKind, Rule.kindOf]⟩
    exact longestRun_append (List.forall_mem_cons.mpr ⟨isWordChar_of_start start, all⟩) stop
  | @number b x _ start all stop =>
    have hslash : b ≠ '/' := by rintro rfl; cases start
    have hchar := isWordChar_of_digit start
    have hrule : ruleAt (b :: (x ++ rest)) = some .number := by
      rw [ruleAt_plain (not_layoutChar_of_wordChar hchar) (literalKind?_of_wordChar hchar)
        (fun e => absurd e hslash)]
      simp [Rule.opens, start, not_start_of_digit start]
    refine ⟨.number, hrule, List.prefix_append _ _, ?_, rfl⟩
    exact longestRun_append (List.forall_mem_cons.mpr ⟨hchar, all⟩) stop
  | @mark b kind _ isMark =>
    obtain ⟨hl, hq, hslash, -, hw, hd, -⟩ := punctuation_start isMark
    have hrule : ruleAt (b :: rest) = some .mark := by
      rw [ruleAt_plain hl hq (fun e => absurd e hslash)]
      simp [Rule.opens, hw, hd, isMark]
    exact ⟨.mark, hrule, List.prefix_append _ _, rfl, by simp [Rule.kindOf, isMark]⟩
  | @operator op _ longest noComment =>
    obtain ⟨hop, hpre, hmax⟩ := operatorAt?_spec longest
    obtain ⟨b, x, rfl⟩ := List.exists_cons_of_ne_nil (operator_ne_nil hop)
    obtain ⟨hl, hq, hw, hd, hp⟩ := operator_start hop
    have hslash : b = '/' → (x ++ rest).head? ≠ some '/' ∧ (x ++ rest).head? ≠ some '*' := by
      rintro rfl
      rcases slash_operator x hop with rfl | rfl
      · exact ⟨fun e => (noComment rfl _ e).1 rfl, fun e => (noComment rfl _ e).2 rfl⟩
      · exact ⟨by simp, by simp⟩
    have hopens := (operators_isPrefixOf (y := x ++ rest)).mpr (operator_head _ hop)
    have hrule : ruleAt (b :: (x ++ rest)) = some .operator := by
      rw [ruleAt_plain hl hq hslash]
      simp only [List.find?, Rule.opens, List.head?_cons, Option.any_some, hw, hd, hp, hopens,
        Option.isSome_none]
    exact ⟨.operator, hrule, hpre, ⟨_, hop, hpre, rfl, hmax⟩, rfl⟩
  | @stray b _ hstray =>
    simp only [isStray, Bool.and_eq_true, Bool.not_eq_true', Option.isNone_iff_eq_none] at hstray
    obtain ⟨⟨⟨⟨⟨hl, hq⟩, hw⟩, hd⟩, hp⟩, ho⟩ := hstray
    have hslash : b ≠ '/' := by rintro rfl; cases ho
    have hnone : (operators.any fun op => op.isPrefixOf (b :: rest)) = false := by
      refine Bool.eq_false_iff.mpr fun h => ?_
      rw [List.contains_iff_mem.mpr (operators_isPrefixOf.mp h)] at ho
      cases ho
    have hrule : ruleAt (b :: rest) = some .other := by
      rw [ruleAt_plain hl hq (fun e => absurd e hslash)]
      simp only [List.find?, Rule.opens, List.head?_cons, Option.any_some, hw, hd, hp, hnone,
        Option.isSome_none, List.isEmpty_cons, Bool.not_false]
    exact ⟨.other, hrule, List.prefix_append _ _, rfl, rfl⟩

/-- **The grammar assigns the token that a text begins with.** -/
theorem assigned_iff : Assigned d s t ↔ ∃ rest, s = t.text ++ rest ∧ Reads d t rest := by
  constructor
  · intro h
    cases s with
    | nil =>
      obtain ⟨r, hr, -⟩ := h
      cases hr
    | cons c y =>
      obtain ⟨rest, e, hreads⟩ := exists_reads d c y
      have hassigned := hreads.assigned
      rw [e] at hassigned
      obtain rfl := h.unique hassigned
      exact ⟨rest, e.symm, hreads⟩
  · intro ⟨rest, e, hreads⟩
    rw [e]
    exact hreads.assigned

/-! ## 4. Whole texts -/

/-- **Tokens that the grammar assigns one behind the other**, from the place `p` to the end. -/
inductive Lexed (dialect : Dialect) (x : Text) : Nat → List Placed → Prop
  | done : Lexed dialect x x.length []
  | token {t : Token} {p : Nat} {ts : List Placed} (assigned : Assigned dialect (x.drop p) t)
      (further : Lexed dialect x (p + t.text.length) ts) :
      Lexed dialect x p ({ t with offset := p } :: ts)

theorem Lexed.eq_place {ts : List Placed} (h : Lexed d x p ts) :
    ts = Token.place p (tokenize d (x.drop p)) := by
  induction h with
  | done => rw [List.drop_length]; rfl
  | @token t p ts assigned _ ih =>
    obtain ⟨rest, e, hreads⟩ := assigned_iff.mp assigned
    have hrest : x.drop (p + t.text.length) = rest := by
      rw [← List.drop_drop, e, List.drop_left]
    rw [hrest] at ih
    rw [e, tokenize_append hreads, Token.place, ← ih]

theorem lexed_place (d : Dialect) (x : Text) : ∀ front : Text,
    Lexed d (front ++ x) front.length (Token.place front.length (tokenize d x)) := by
  induction x using text_induction d with
  | nil =>
    intro front
    have hdone : Lexed d front front.length [] := .done
    rwa [List.append_nil]
  | step t rest h ih =>
    intro front
    have hnext := ih (front ++ t.text)
    have hlength : (front ++ t.text).length = front.length + t.text.length := List.length_append
    rw [List.append_assoc, hlength] at hnext
    rw [tokenize_append h, Token.place]
    refine .token ?_ hnext
    rw [List.drop_left]
    exact h.assigned

theorem assigned_of_placed {t : Placed} (h : t ∈ Token.place 0 (tokenize d x)) :
    Assigned d (x.drop t.offset) t.toToken := by
  obtain ⟨a, b, e, hoffset⟩ := exists_of_placed h
  have htext : x = Token.joined a ++ Token.joined (t.toToken :: b) := by
    rw [← joined_append, ← e, joined_tokenize]
  have hdrop : x.drop t.offset = Token.joined (t.toToken :: b) := by
    rw [hoffset, Nat.zero_add, htext, List.drop_left]
  obtain ⟨-, hbehind, -⟩ := tokenize_joined e
  obtain ⟨rest, hrest, hreads, -⟩ := exists_reads_of_tokenize hbehind
  rw [hdrop, hrest]
  exact hreads.assigned

/-- **The tokens of a text are those that the grammar assigns**: wherever a token of a text begins,
    the grammar assigns that token and no other; and tokens are assigned one behind the other, from
    the start of the text to its end, exactly if they are its tokens. -/
theorem tokenize_grammar (d : Dialect) (x : Text) :
    (∀ t ∈ Token.place 0 (tokenize d x), ∀ u, Assigned d (x.drop t.offset) u ↔ u = t.toToken) ∧
      ∀ ts, Lexed d x 0 ts ↔ ts = Token.place 0 (tokenize d x) := by
  refine ⟨fun t ht u => ?_, fun ts => ⟨fun h => h.eq_place, fun h => h ▸ lexed_place d x []⟩⟩
  have hassigned := assigned_of_placed ht
  exact ⟨fun h => h.unique hassigned, fun h => h ▸ hassigned⟩

/-- A literal that holds its own quote, a comment that looks closed too early, the longest of three
    operators, and a number with a letter in it. -/
theorem tokenize_grammar_early_close :
    (⟨⟨.blockComment, "/*/x*/".toList⟩, 4⟩ : Placed) ∈
      Token.place 0 (tokenize .rebeca "'\\''/*/x*/<<=5a".toList) ∧
    Assigned .rebeca ("'\\''/*/x*/<<=5a".toList.drop 4) ⟨.blockComment, "/*/x*/".toList⟩ ∧
    ¬ Assigned .rebeca ("'\\''/*/x*/<<=5a".toList.drop 4) ⟨.blockComment, "/*/".toList⟩ ∧
    Lexed .rebeca "'\\''/*/x*/<<=5a".toList 0
      [⟨⟨.character, "'\\''".toList⟩, 0⟩, ⟨⟨.blockComment, "/*/x*/".toList⟩, 4⟩,
        ⟨⟨.operator, "<<=".toList⟩, 10⟩, ⟨⟨.number, "5a".toList⟩, 13⟩] := by
  obtain ⟨hassigned, hlexed⟩ := tokenize_grammar .rebeca "'\\''/*/x*/<<=5a".toList
  have ht : (⟨⟨.blockComment, "/*/x*/".toList⟩, 4⟩ : Placed) ∈
      Token.place 0 (tokenize .rebeca "'\\''/*/x*/<<=5a".toList) := by
    decide +kernel
  refine ⟨ht, (hassigned _ ht _).mpr rfl, fun h => ?_, (hlexed _).mpr (by decide +kernel)⟩
  exact absurd ((hassigned _ ht _).mp h) (by decide)

end RebecaLayout
