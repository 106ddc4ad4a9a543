import Mathlib.Data.List.Infix
import RebecaLayout.Layout.Engine

/-!
How far the longer tokens reach.

* `throughClose_cases` -- a comment ends **with its first `*/`, or with the text**;
* `throughQuote_cases` -- a literal ends with the first quote that no backslash takes, or with the
  text; `closes` says which;
* `operatorAt?_eq_some_iff` -- **the longest operator wins**;
* `operatorAt?_append` -- an operator ends before every character that does not bind to its last
  one; `operatorPairs` lists the pairs that bind.
-/

namespace RebecaLayout

/-! ## 1. Comments -/

/-- A text that ends with the first `*/` in it. -/
def Closed (x : Text) : Prop := ∃ y, x = y ++ ['*', '/'] ∧ ¬ ['*', '/'] <:+: y ++ ['*']

theorem throughClose_cons {c : Char} {t : Text} (h : c = '*' → t.head? ≠ some '/') :
    throughClose (c :: t) = c :: throughClose t := by
  rw [throughClose]
  intro rest hc e
  exact h hc (by rw [e]; rfl)

theorem prefix_throughClose (t : Text) : throughClose t <+: t := by
  fun_induction throughClose t with
  | case1 => exact List.nil_prefix
  | case2 rest => exact ⟨rest, rfl⟩
  | case3 c rest _ ih => exact List.cons_prefix_cons.mpr ⟨rfl, ih⟩

theorem throughClose_of_open {t : Text} (h : ¬ ['*', '/'] <:+: t) : throughClose t = t := by
  fun_induction throughClose t with
  | case1 => rfl
  | case2 rest => exact absurd ⟨[], rest, rfl⟩ h
  | case3 c rest _ ih => rw [ih fun hi => h (List.infix_cons hi)]

theorem throughClose_of_closed {x : Text} (h : Closed x) (rest : Text) :
    throughClose (x ++ rest) = x := by
  obtain ⟨y, rfl, hy⟩ := h
  induction y with
  | nil => rfl
  | cons c y ih =>
    have hnext : c = '*' → (y ++ ['*', '/'] ++ rest).head? ≠ some '/' := by
      rintro rfl
      cases y with
      | nil => simp
      | cons d y =>
        intro e
        cases e
        exact hy ⟨[], y ++ ['*'], rfl⟩
    rw [List.cons_append, List.cons_append, throughClose_cons hnext,
      ih fun hi => hy (List.infix_cons hi)]

/-- **A comment ends with its first `*/`, or with the text.** -/
theorem throughClose_cases {x rest : Text} (h : throughClose (x ++ rest) = x) :
    Closed x ∨ (rest = [] ∧ ¬ ['*', '/'] <:+: x) := by
  generalize hz : x ++ rest = z at h
  fun_induction throughClose z generalizing x with
  | case1 =>
    subst h
    exact Or.inr ⟨by simpa using hz, by simp⟩
  | case2 tail =>
    subst h
    exact Or.inl ⟨[], rfl, by decide⟩
  | case3 c tail hc ih =>
    subst h
    rw [List.cons_append, List.cons.injEq] at hz
    -- the first two characters are no `*/`, so what holds of the tail holds of the whole
    have hstart : ∀ u, u <+: tail → ¬ ['*', '/'] <+: c :: u := by
      rintro u ⟨v, rfl⟩ ⟨w, e⟩
      rw [List.cons_append, List.cons.injEq] at e
      obtain ⟨rfl, e⟩ := e
      exact hc (w ++ v) rfl (by rw [← e]; rfl)
    rcases ih hz.2 rfl with ⟨y, ey, hy⟩ | ⟨hrest, hopen⟩
    · refine Or.inl ⟨c :: y, by rw [ey]; rfl, ?_⟩
      intro hi
      rcases List.infix_cons_iff.mp hi with hp | hi
      · refine hstart _ ?_ hp
        have hpre := prefix_throughClose tail
        rw [ey] at hpre
        have hshort : y ++ ['*'] <+: y ++ ['*', '/'] := ⟨['/'], by simp⟩
        exact hshort.trans hpre
      · exact hy hi
    · refine Or.inr ⟨hrest, ?_⟩
      intro hi
      rcases List.infix_cons_iff.mp hi with hp | hi
      · exact hstart _ (prefix_throughClose tail) hp
      · exact hopen hi

/-! ## 2. Literals -/

/-- Whether a literal ends within the text behind its first quote. -/
def closes (quote : Char) : Text → Bool
  | [] => false
  | ['\\'] => false
  | '\\' :: _ :: rest => closes quote rest
  | c :: rest => c == quote || closes quote rest

/-- Where no backslash begins a pair and none stands alone, none stands at all. -/
theorem ne_backslash {c : Char} {t : Text} (hlone : c = '\\' → t = [] → False)
    (hpair : ∀ d rest, c = '\\' → t = d :: rest → False) : c ≠ '\\' := by
  rintro rfl
  cases t with
  | nil => exact hlone rfl rfl
  | cons d rest => exact hpair d rest rfl rfl

theorem prefix_throughQuote (quote : Char) (t : Text) : throughQuote quote t <+: t := by
  fun_induction throughQuote quote t with
  | case1 => exact List.nil_prefix
  | case2 => exact List.prefix_rfl
  | case3 c rest ih =>
    exact List.cons_prefix_cons.mpr ⟨rfl, List.cons_prefix_cons.mpr ⟨rfl, ih⟩⟩
  | case4 c rest _ _ hc => exact ⟨rest, rfl⟩
  | case5 c rest _ _ hc ih => exact List.cons_prefix_cons.mpr ⟨rfl, ih⟩

theorem closes_cons {quote c : Char} (h : c ≠ '\\') (t : Text) :
    closes quote (c :: t) = (c == quote || closes quote t) := by
  rw [closes]
  · exact fun e => absurd e h
  · exact fun _ _ e => absurd e h

theorem throughQuote_cons {quote c : Char} (h : c ≠ '\\') (t : Text) :
    throughQuote quote (c :: t) = if c == quote then [c] else c :: throughQuote quote t := by
  rw [throughQuote]
  · exact fun e => absurd e h
  · exact fun _ _ e => absurd e h

theorem throughQuote_of_open {quote : Char} {t : Text} (h : closes quote t = false) :
    throughQuote quote t = t := by
  fun_induction closes quote t with
  | case1 => rfl
  | case2 => rfl
  | case3 c rest ih => rw [throughQuote, ih h]
  | case4 c rest h1 h2 ih =>
    have hc := ne_backslash h1 h2
    rw [Bool.or_eq_false_iff] at h
    rw [throughQuote_cons hc, if_neg (by simp [h.1]), ih h.2]

/-- What has not ended in a text has not ended before. -/
theorem closes_of_append {quote : Char} {a b : Text} (h : closes quote (a ++ b) = false) :
    closes quote a = false := by
  fun_induction closes quote a with
  | case1 => rfl
  | case2 => rfl
  | case3 c rest ih => exact ih h
  | case4 c rest h1 h2 ih =>
    have hc := ne_backslash h1 h2
    rw [List.cons_append, closes_cons hc, Bool.or_eq_false_iff] at h
    rw [h.1, ih h.2]
    rfl

/-- Characters that are neither quotes nor backslashes end no literal. -/
theorem closes_append {quote : Char} {a b : Text} (ha : closes quote a = false)
    (hb : ∀ c ∈ b, c ≠ quote ∧ c ≠ '\\') : closes quote (a ++ b) = false := by
  have hclean : ∀ u : Text, (∀ c ∈ u, c ≠ quote ∧ c ≠ '\\') → closes quote u = false := by
    intro u hu
    induction u with
    | nil => rfl
    | cons c u ih =>
      obtain ⟨hq, hs⟩ := hu c List.mem_cons_self
      rw [closes_cons hs, ih fun x hx => hu x (List.mem_cons_of_mem c hx)]
      simp [hq]
  fun_induction closes quote a with
  | case1 => exact hclean b hb
  | case2 =>
    cases b with
    | nil => rfl
    | cons c b => exact hclean b fun x hx => hb x (List.mem_cons_of_mem c hx)
  | case3 c rest ih => exact ih ha
  | case4 c rest h1 h2 ih =>
    have hc := ne_backslash h1 h2
    rw [Bool.or_eq_false_iff] at ha
    rw [List.cons_append, closes_cons hc, ha.1, ih ha.2]
    rfl

/-- **A literal ends with a quote, whatever follows, or with the text.** -/
theorem throughQuote_cases {quote : Char} {x rest : Text}
    (h : throughQuote quote (x ++ rest) = x) :
    ((∀ more, throughQuote quote (x ++ more) = x) ∧ x.getLast? = some quote) ∨
      (rest = [] ∧ closes quote x = false) := by
  generalize hz : x ++ rest = z at h
  fun_induction throughQuote quote z generalizing x with
  | case1 =>
    subst h
    exact Or.inr ⟨by simpa using hz, rfl⟩
  | case2 =>
    subst h
    exact Or.inr ⟨by simpa using hz, rfl⟩
  | case3 c tail ih =>
    subst h
    simp only [List.cons_append, List.cons.injEq, true_and] at hz
    rcases ih hz rfl with ⟨hall, hlast⟩ | ⟨hrest, hopen⟩
    · refine Or.inl ⟨fun more => ?_, ?_⟩
      · rw [List.cons_append, List.cons_append, throughQuote, hall]
      · rw [List.getLast?_cons_of_ne_nil (by simp), List.getLast?_cons_of_ne_nil, hlast]
        rintro e
        simp [e] at hlast
    · exact Or.inr ⟨hrest, hopen⟩
  | case4 c tail h1 h2 hc =>
    subst h
    have hs := ne_backslash h1 h2
    refine Or.inl ⟨fun more => ?_, ?_⟩
    · rw [List.cons_append, throughQuote_cons hs, if_pos hc]
    · simpa using hc
  | case5 c tail h1 h2 hc ih =>
    subst h
    have hs := ne_backslash h1 h2
    simp only [List.cons_append, List.cons.injEq, true_and] at hz
    rcases ih hz rfl with ⟨hall, hlast⟩ | ⟨hrest, hopen⟩
    · refine Or.inl ⟨fun more => ?_, ?_⟩
      · rw [List.cons_append, throughQuote_cons hs, if_neg hc, hall]
      · rw [List.getLast?_cons_of_ne_nil, hlast]
        rintro e
        simp [e] at hlast
    · refine Or.inr ⟨hrest, ?_⟩
      rw [closes_cons hs, hopen]
      simpa using hc

/-! ## 3. Operators -/

theorem operator_length : ∀ op ∈ operators, op.length = 1 ∨ op.length = 2 ∨ op.length = 3 := by
  decide

theorem operator_ne_nil {op : Text} (h : op ∈ operators) : op ≠ [] := by
  rintro rfl
  revert h
  decide

theorem operatorAt?_unfold (t : Text) : operatorAt? t =
    if t.take 3 ∈ operators then some (t.take 3)
    else if t.take 2 ∈ operators then some (t.take 2)
    else if t.take 1 ∈ operators then some (t.take 1)
    else none := by
  simp only [operatorAt?, List.findSome?, List.contains_iff_mem]
  split_ifs <;> rfl

theorem take_eq_of_begins {op t : Text} {n : Nat} (h : op <+: t) (hn : op.length = n) :
    t.take n = op := by
  subst hn
  exact (List.prefix_iff_eq_take.mp h).symm

/-- An operator in front of a text is one of the three candidates. -/
theorem operator_candidates {op t : Text} (hop : op ∈ operators) (h : op <+: t) :
    t.take 1 = op ∨ t.take 2 = op ∨ t.take 3 = op := by
  rcases operator_length op hop with hn | hn | hn
  · exact Or.inl (take_eq_of_begins h hn)
  · exact Or.inr (Or.inl (take_eq_of_begins h hn))
  · exact Or.inr (Or.inr (take_eq_of_begins h hn))

/-- What `operatorAt?` finds is an operator, and no operator in front of the text is longer. -/
theorem operatorAt?_spec {t op : Text} (h : operatorAt? t = some op) :
    op ∈ operators ∧ op <+: t ∧ ∀ other ∈ operators, other <+: t → other.length ≤ op.length := by
  rw [operatorAt?_unfold] at h
  split_ifs at h with h3 h2 h1 <;> cases h
  · refine ⟨h3, List.take_prefix _ _, fun other ho hp => ?_⟩
    have := operator_length other ho
    have := hp.length_le
    rw [List.length_take]
    omega
  · refine ⟨h2, List.take_prefix _ _, fun other ho hp => ?_⟩
    have hlen := operator_length other ho
    have hne : other.length ≠ 3 := fun e => h3 (take_eq_of_begins hp e ▸ ho)
    have := hp.length_le
    rw [List.length_take]
    omega
  · refine ⟨h1, List.take_prefix _ _, fun other ho hp => ?_⟩
    have hlen := operator_length other ho
    have hne3 : other.length ≠ 3 := fun e => h3 (take_eq_of_begins hp e ▸ ho)
    have hne2 : other.length ≠ 2 := fun e => h2 (take_eq_of_begins hp e ▸ ho)
    have := hp.length_le
    rw [List.length_take]
    omega

/-- **The longest operator wins.** -/
theorem operatorAt?_eq_some_iff {t op : Text} : operatorAt? t = some op ↔
    op ∈ operators ∧ op <+: t ∧ ∀ other ∈ operators, other <+: t → other.length ≤ op.length := by
  refine ⟨operatorAt?_spec, fun ⟨hop, hpre, hmax⟩ => ?_⟩
  cases h : operatorAt? t with
  | none =>
    rw [operatorAt?_unfold] at h
    split_ifs at h with h3 h2 h1
    rcases operator_candidates hop hpre with e | e | e
    · exact absurd (e ▸ hop) h1
    · exact absurd (e ▸ hop) h2
    · exact absurd (e ▸ hop) h3
  | some found =>
    obtain ⟨hf, hfpre, hfmax⟩ := operatorAt?_spec h
    have hlen : found.length = op.length :=
      Nat.le_antisymm (hmax found hf hfpre) (hfmax op hop hpre)
    rw [← take_eq_of_begins hfpre hlen, take_eq_of_begins hpre rfl]

/-- An operator begins with a character that is one. -/
theorem operator_head : ∀ op ∈ operators, op.take 1 ∈ operators := by
  decide

theorem operatorAt?_eq_none_iff {c : Char} {t : Text} :
    operatorAt? (c :: t) = none ↔ [c] ∉ operators := by
  constructor
  · intro h hc
    rw [operatorAt?_unfold] at h
    split_ifs at h with h3 h2 h1
    exact h1 hc
  · intro hc
    cases h : operatorAt? (c :: t) with
    | none => rfl
    | some op =>
      obtain ⟨hop, hpre, -⟩ := operatorAt?_spec h
      cases op with
      | nil => exact absurd rfl (operator_ne_nil hop)
      | cons d op =>
        obtain ⟨rfl, -⟩ := List.cons_prefix_cons.mp hpre
        exact absurd (operator_head _ hop) hc

/-- Whether a character behind an operator could be read as part of a longer one. -/
def binds (op : Text) (c : Char) : Bool := op.getLast?.any fun x => operatorPairs.contains [x, c]

/-- Wherever an operator is cut in two, the characters at the cut bind. -/
theorem binds_of_operator : ∀ whole ∈ operators, ∀ n < whole.length, 0 < n →
    (whole[n]?).all (binds (whole.take n)) = true := by
  decide

/-- Only characters that are operators bind to one before them. -/
theorem operatorPairs_second : ∀ pair ∈ operatorPairs, pair.tail ∈ operators := by
  decide

theorem not_binds {c : Char} (h : [c] ∉ operators) (op : Text) : binds op c = false := by
  unfold binds
  cases op.getLast? with
  | none => rfl
  | some x =>
    rw [Option.any_some, List.contains_eq_mem, decide_eq_false_iff_not]
    exact fun hm => h (operatorPairs_second _ hm)

/-- **An operator ends before a character that does not bind to it.** -/
theorem operatorAt?_append {op rest : Text} (hop : op ∈ operators)
    (h : ∀ c ∈ rest.head?, binds op c = false) : operatorAt? (op ++ rest) = some op := by
  refine operatorAt?_eq_some_iff.mpr ⟨hop, List.prefix_append op rest, fun other ho hp => ?_⟩
  refine Nat.le_of_not_lt fun hlt => ?_
  have hshort : op <+: other := by
    refine List.prefix_of_prefix_length_le (List.prefix_append op rest) hp (Nat.le_of_lt hlt)
  obtain ⟨tail, rfl⟩ := hshort
  cases tail with
  | nil => simp at hlt
  | cons c tail =>
    have hc : c ∈ rest.head? := by
      rw [List.prefix_append_right_inj] at hp
      obtain ⟨more, rfl⟩ := hp
      rfl
    have hpos : 0 < op.length := List.length_pos_iff.mpr (operator_ne_nil hop)
    have hb := binds_of_operator _ ho op.length hlt hpos
    rw [List.getElem?_append_right (Nat.le_refl _), Nat.sub_self, List.take_left] at hb
    have hb' : binds op c = true := hb
    rw [h c hc] at hb'
    cases hb'

end RebecaLayout
