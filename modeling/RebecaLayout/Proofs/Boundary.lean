import RebecaLayout.Proofs.Stream

/-!
Where a text can be cut, and what may be put behind the cut.

* `boundaries` -- where the tokens of a text begin, and its end;
* `Shaped` -- what the kind of a token tells about it;
* `Reads.follow` -- a token is read before any text that begins like the one behind it;
* `tokenize_take_drop` -- **a text that is cut at a boundary is read as its two parts are**;
* `tokenize_resume` -- **what is put behind a token can change that token only**: all tokens in front
  of it are read as before. No operator but `<->` is read two characters ahead;
* `significant_layout_append` -- layout in front of a text changes none of its tokens.
-/

namespace RebecaLayout

variable {d : Dialect} {t l : Token} {a b ts : List Token} {x y rest : Text}

/-! ## 1. Tokens and what follows them -/

theorem Apart.of_spansLines (h : t.kind.spansLines = true) (rest : Text) : Apart t rest := by
  rcases spansLines_cases h with hk | hk | hk <;>
    exact ⟨by simp [hk, Kind.isUnquoted], by simp [hk], by simp [hk]⟩

/-- **A token is read before any text that begins like the one behind it**, or before no text. An
    open token takes what is there, and an operator may look further. -/
theorem Reads.follow (h : Reads d t rest) (hhead : ∀ c ∈ y.head?, c ∈ rest.head?)
    (hopen : t.kind.spansLines = true → rest ≠ [] ∨ y = [])
    (hop : t.kind = .operator → operatorAt? (t.text ++ y) = some t.text) : Reads d t y := by
  cases hs : t.kind.spansLines with
  | true =>
    have hv : t.kind.isLayout = false := by
      rcases spansLines_cases hs with hk | hk | hk <;> rw [hk] <;> rfl
    by_cases hrest : rest = []
    · obtain rfl : y = [] := (hopen hs).resolve_left fun hne => hne hrest
      exact hrest ▸ h
    · exact h.of_apart hv (fun _ => hrest) (.of_spansLines hs y)
  | false =>
    cases h with
    | blanks ne all stop => exact .blanks ne all fun c hc => stop c (hhead c hc)
    | lineEnd terminator whole => exact .lineEnd terminator fun e hc => whole e (hhead _ hc)
    | lineComment oneLine stop => exact .lineComment oneLine fun c hc => stop c (hhead c hc)
    | blockComment => cases hs
    | literal opens _ => rcases literalKind?_cases opens with ⟨-, rfl⟩ | ⟨-, rfl⟩ <;> cases hs
    | word start all stop => exact .word start all fun c hc => stop c (hhead c hc)
    | number start all stop => exact .number start all fun c hc => stop c (hhead c hc)
    | mark isMark => exact .mark isMark
    | operator _ noComment => exact .operator (hop rfl) fun e c hc => noComment e c (hhead c hc)
    | stray hstray => exact .stray hstray

/-- What the kind of a token tells about its text and what may follow it. -/
structure Shaped (t : Token) (rest : Text) : Prop where
  word : t.kind.isUnquoted = true →
    (∃ c x, t.text = c :: x ∧ (isWordStart c = true ∨ c.isDigit = true)) ∧
      ∀ c ∈ rest.head?, isWordChar c = false
  operator : t.kind = .operator → operatorAt? (t.text ++ rest) = some t.text
  other : t.kind = .other → ∃ c, t.text = [c] ∧ isStray c = true

theorem Reads.shaped (h : Reads d t rest) : Shaped t rest := by
  cases h with
  | @word c x _ start _ stop =>
    refine ⟨fun _ => ⟨⟨c, x, rfl, Or.inl start⟩, stop⟩, fun hk => ?_, fun hk => ?_⟩ <;>
      rcases wordKind_cases d (c :: x) with e | e <;> rw [e] at hk <;> cases hk
  | number start _ stop => exact ⟨fun _ => ⟨⟨_, _, rfl, Or.inr start⟩, stop⟩, nofun, nofun⟩
  | operator longest _ => exact ⟨nofun, fun _ => longest, nofun⟩
  | stray hstray => exact ⟨nofun, nofun, fun _ => ⟨_, rfl, hstray⟩⟩
  | literal opens _ =>
    rcases literalKind?_cases opens with ⟨-, rfl⟩ | ⟨-, rfl⟩ <;> exact ⟨nofun, nofun, nofun⟩
  | mark isMark =>
    unfold punctuation? at isMark
    split at isMark <;> cases isMark <;> exact ⟨nofun, nofun, nofun⟩
  | _ => exact ⟨nofun, nofun, nofun⟩

/-- Three characters are an operator only if two of them are, but for one operator. -/
theorem operator_pair :
    ∀ op ∈ operators, op.length = 3 → op.take 2 ∈ operators ∨ op = "<->".toList := by
  decide

/-- **An operator is read again** if the text behind it begins with what it began with, unless that
    is the middle of `<->`. -/
theorem operatorAt?_resume {op m r : Text} (h : operatorAt? (op ++ (m ++ r)) = some op) (hm : m ≠ [])
    (hy : m = ['-'] → y.head? ≠ some '>') : operatorAt? (op ++ (m ++ y)) = some op := by
  obtain ⟨hop, -, hmax⟩ := operatorAt?_spec h
  have hwithin : ∀ other ∈ operators, other <+: op ++ m → other.length ≤ op.length := by
    intro other ho hp
    rw [← List.append_assoc] at hmax
    exact hmax other ho (hp.trans (List.prefix_append _ r))
  refine operatorAt?_eq_some_iff.mpr ⟨hop, List.prefix_append op _, fun other ho hp => ?_⟩
  rw [← List.append_assoc] at hp
  by_cases hshort : other.length ≤ (op ++ m).length
  · exact hwithin other ho (List.prefix_of_prefix_length_le hp (List.prefix_append _ y) hshort)
  · -- only a third character could be new
    have hoppos := List.length_pos_iff.mpr (operator_ne_nil hop)
    have hmpos := List.length_pos_iff.mpr hm
    have hthree := operator_length other ho
    rw [List.length_append] at hshort
    have hpair : other.take 2 = op ++ m := by
      have hlen : (op ++ m).length = 2 := by rw [List.length_append]; omega
      have hpre : op ++ m <+: other := by
        refine List.prefix_of_prefix_length_le (List.prefix_append _ y) hp ?_
        rw [List.length_append]
        omega
      exact take_eq_of_begins hpre hlen
    rcases operator_pair other ho (by omega) with htwo | rfl
    · have hle := hwithin _ htwo (hpair ▸ List.prefix_refl _)
      rw [hpair, List.length_append] at hle
      omega
    · have hop1 : op.length = 1 := by omega
      obtain ⟨o, rfl⟩ := List.length_eq_one_iff.mp hop1
      obtain ⟨rfl, rfl⟩ : '<' = o ∧ ['-'] = m := by simpa using hpair
      obtain ⟨z, hz⟩ := hp
      exact absurd (by simpa using congrArg (fun u => (u.drop 2).head?) hz.symm) (hy rfl)

/-! ## 2. Cutting -/

/-- Where the tokens of a text begin, and its end. -/
def boundaries (d : Dialect) (x : Text) : List Nat :=
  (Token.place 0 (tokenize d x)).map (fun t => t.offset) ++ [x.length]

theorem joined_cons (t : Token) (ts : List Token) :
    Token.joined (t :: ts) = t.text ++ Token.joined ts := rfl

theorem joined_append (a b : List Token) :
    Token.joined (a ++ b) = Token.joined a ++ Token.joined b :=
  List.flatMap_append ..

/-- Tokens are placed as far in as the tokens in front of them reach. -/
theorem exists_of_mem_place {k n : Nat} (h : k ∈ (Token.place n ts).map (fun t => t.offset)) :
    ∃ a b, ts = a ++ b ∧ k = n + (Token.joined a).length := by
  induction ts generalizing n with
  | nil => cases h
  | cons t ts ih =>
    rcases List.mem_cons.mp h with rfl | h
    · exact ⟨[], t :: ts, rfl, rfl⟩
    · obtain ⟨a, b, rfl, hk⟩ := ih h
      refine ⟨t :: a, b, rfl, ?_⟩
      rw [hk, joined_cons, List.length_append]
      omega

theorem exists_of_mem_boundaries {k : Nat} (h : k ∈ boundaries d x) :
    ∃ a b, tokenize d x = a ++ b ∧ k = (Token.joined a).length := by
  rcases List.mem_append.mp h with h | h
  · obtain ⟨a, b, e, hk⟩ := exists_of_mem_place h
    exact ⟨a, b, e, by omega⟩
  · refine ⟨tokenize d x, [], (List.append_nil _).symm, ?_⟩
    rw [joined_tokenize, List.mem_singleton.mp h]

/-- A text up to its last token, and that token. -/
theorem eq_of_tokenize_concat (h : tokenize d x = a ++ [l]) : x = Token.joined a ++ l.text := by
  have hlast : Token.joined [l] = l.text := List.append_nil _
  rw [← joined_tokenize d x, h, joined_append, hlast]

/-- The first token of a text, and the text behind it. -/
theorem exists_reads_of_tokenize (h : tokenize d x = t :: ts) :
    ∃ rest, x = t.text ++ rest ∧ Reads d t rest ∧ tokenize d rest = ts := by
  cases x with
  | nil => cases h
  | cons c r =>
    obtain ⟨rest, e, hreads⟩ := exists_reads d c r
    rw [← e, tokenize_append hreads] at h
    obtain ⟨rfl, rfl⟩ := List.cons.inj h
    exact ⟨rest, e.symm, hreads, rfl⟩

theorem exists_reads_of_mem (h : t ∈ tokenize d x) : ∃ rest, Reads d t rest := by
  induction x using text_induction d with
  | nil => cases h
  | step u rest hreads ih =>
    rw [tokenize_append hreads] at h
    rcases List.mem_cons.mp h with rfl | h
    · exact ⟨rest, hreads⟩
    · exact ih h

theorem exists_reads_of_append (h : tokenize d x = a ++ l :: b) : ∃ rest, Reads d l rest :=
  exists_reads_of_mem (h ▸ List.mem_append_right a List.mem_cons_self)

/-- A text without visible tokens is layout. -/
theorem layout_of_significant {s : Text} (h : Token.significant (tokenize d s) = []) :
    ∀ c ∈ s, Text.isLayoutChar c = true := by
  intro c hc
  rw [← joined_tokenize d s] at hc
  obtain ⟨t, ht, hct⟩ := List.mem_flatMap.mp hc
  obtain ⟨rest, hreads⟩ := exists_reads_of_mem ht
  have hlayout : t.kind.isLayout = true := by
    simpa using List.filter_eq_nil_iff.mp h t ht
  exact hreads.layout hlayout c hct

/-- Tokens in front of others are read without them, and none of them is open. -/
theorem tokenize_joined (h : tokenize d x = a ++ b) :
    tokenize d (Token.joined a) = a ∧ tokenize d (Token.joined b) = b ∧
      (b ≠ [] → ∀ t ∈ a, Complete d t) := by
  induction a generalizing x with
  | nil =>
    refine ⟨rfl, ?_, fun _ t ht => by cases ht⟩
    rw [List.nil_append] at h
    rw [← h, joined_tokenize]
  | cons t a ih =>
    rw [List.cons_append] at h
    obtain ⟨rest, rfl, hreads, hrest⟩ := exists_reads_of_tokenize h
    obtain ⟨ha, hb, hcomplete⟩ := ih hrest
    have htext : rest = Token.joined a ++ Token.joined b := by
      rw [← joined_append, ← hrest, joined_tokenize]
    have hfollow : Reads d t (Token.joined a) := by
      refine hreads.follow (fun c hc => ?_) (fun _ => ?_) fun hk => ?_
      · rw [htext, List.head?_append, hc]
        rfl
      · by_cases hnil : rest = []
        · exact Or.inr (List.append_eq_nil_iff.mp (htext.symm.trans hnil)).1
        · exact Or.inl hnil
      · obtain ⟨hop, -, hmax⟩ := operatorAt?_spec (hreads.shaped.operator hk)
        refine operatorAt?_eq_some_iff.mpr ⟨hop, List.prefix_append _ _, fun other ho hp => ?_⟩
        rw [htext, ← List.append_assoc] at hmax
        exact hmax other ho (hp.trans (List.prefix_append _ _))
    refine ⟨?_, hb, fun hne u hu => ?_⟩
    · rw [joined_cons, tokenize_append hfollow, ha]
    · rcases List.mem_cons.mp hu with rfl | hu
      · refine ⟨rest, ?_, hreads⟩
        rintro rfl
        exact hne (List.append_eq_nil_iff.mp hrest.symm).2
      · exact hcomplete hne u hu

/-- **A text that is cut at a boundary is read as its two parts are**, and if it is cut before its
    end, no token in front of the cut is open. -/
theorem tokenize_take_drop {k : Nat} (h : k ∈ boundaries d x) :
    tokenize d x = tokenize d (x.take k) ++ tokenize d (x.drop k) ∧
      (x.drop k ≠ [] → ∀ t ∈ tokenize d (x.take k), Complete d t) := by
  obtain ⟨a, b, e, rfl⟩ := exists_of_mem_boundaries h
  obtain ⟨ha, hb, hcomplete⟩ := tokenize_joined e
  have htext : x = Token.joined a ++ Token.joined b := by
    rw [← joined_append, ← e, joined_tokenize]
  have htake : x.take (Token.joined a).length = Token.joined a := by
    rw [htext, List.take_left]
  have hdrop : x.drop (Token.joined a).length = Token.joined b := by
    rw [htext, List.drop_left]
  rw [htake, hdrop, ha, hb]
  refine ⟨e, fun hne => hcomplete ?_⟩
  rintro rfl
  exact hne rfl

/-- The characters of a region. -/
def spanOf (x : Text) (offset length : Nat) : Text := (x.drop offset).take length

theorem spanOf_append (x : Text) (offset length : Nat) :
    spanOf x offset length ++ x.drop (offset + length) = x.drop offset := by
  rw [spanOf, ← List.drop_drop, List.take_append_drop]

/-- **A region between two boundaries is read by itself**, and so are the texts around it. -/
theorem tokenize_region {offset length : Nat} (hstart : offset ∈ boundaries d x)
    (hend : offset + length ∈ boundaries d x) :
    tokenize d (x.drop offset) =
        tokenize d (spanOf x offset length) ++ tokenize d (x.drop (offset + length)) ∧
      (x.drop (offset + length) ≠ [] →
        ∀ t ∈ tokenize d (spanOf x offset length), Complete d t) := by
  obtain ⟨a, b, e, ha⟩ := exists_of_mem_boundaries hstart
  obtain ⟨a', b', e', ha'⟩ := exists_of_mem_boundaries hend
  -- the tokens up to the end of the region begin with those up to its start
  obtain ⟨s, rfl, rfl⟩ : ∃ s, a' = a ++ s ∧ b = s ++ b' := by
    rcases List.append_eq_append_iff.mp (e.symm.trans e') with ⟨s, hs⟩ | ⟨s, rfl, rfl⟩
    · exact ⟨s, hs⟩
    · have hnil : Token.joined s = [] := by
        rw [joined_append, List.length_append] at ha
        exact List.length_eq_zero_iff.mp (by omega)
      cases s with
      | nil => exact ⟨[], by simp⟩
      | cons t s =>
        rw [List.append_assoc] at e
        obtain ⟨rest, hreads⟩ := exists_reads_of_append e
        exact absurd (List.append_eq_nil_iff.mp hnil).1 hreads.text_ne_nil
  obtain ⟨-, hrest, -⟩ := tokenize_joined e
  obtain ⟨-, hfollowing, hcomplete⟩ := tokenize_joined e'
  obtain ⟨hspan, -, -⟩ := tokenize_joined hrest
  have htext : x = Token.joined a ++ (Token.joined s ++ Token.joined b') := by
    rw [← joined_append, ← joined_append, ← e, joined_tokenize]
  have hdrop : x.drop offset = Token.joined s ++ Token.joined b' := by
    rw [htext, ha, List.drop_left]
  have hlength : length = (Token.joined s).length := by
    rw [joined_append, List.length_append] at ha'
    omega
  have hspanOf : spanOf x offset length = Token.joined s := by
    rw [spanOf, hdrop, hlength, List.take_left]
  have hbehind : x.drop (offset + length) = Token.joined b' := by
    rw [← List.drop_drop, hdrop, hlength, List.drop_left]
  rw [hspanOf, hbehind, hdrop, hspan, hfollowing, ← joined_append, hrest]
  refine ⟨rfl, fun hne t ht => hcomplete ?_ t (List.mem_append_right _ ht)⟩
  rintro rfl
  exact hne rfl

theorem le_of_mem_boundaries {k : Nat} (h : k ∈ boundaries d x) : k ≤ x.length := by
  obtain ⟨a, b, e, rfl⟩ := exists_of_mem_boundaries h
  rw [← joined_tokenize d x, e, joined_append, List.length_append]
  omega

/-! ## 3. Going on with another text -/

/-- **What is put behind a token can change that token only**: the tokens in front of it are read as
    before. -/
theorem tokenize_resume (h : tokenize d x = a ++ l :: b)
    (hy : l.text = ['-'] → y.head? ≠ some '>') :
    tokenize d (Token.joined a ++ (l.text ++ y)) = a ++ tokenize d (l.text ++ y) := by
  induction a generalizing x with
  | nil => rfl
  | cons t a ih =>
    rw [List.cons_append] at h
    obtain ⟨rest, -, hreads, hrest⟩ := exists_reads_of_tokenize h
    obtain ⟨r, hlast⟩ := exists_reads_of_append hrest
    have hl := hlast.text_ne_nil
    obtain ⟨m, hm⟩ : ∃ m, m = Token.joined a ++ l.text := ⟨_, rfl⟩
    have hne : m ≠ [] := fun hnil => hl (List.append_eq_nil_iff.mp (hm.symm.trans hnil)).2
    have htext : rest = m ++ Token.joined b := by
      rw [← joined_tokenize d rest, hrest, joined_append, joined_cons, hm, List.append_assoc]
    have hfollow : Reads d t (m ++ y) := by
      refine hreads.follow (fun c hc => ?_) (fun _ => Or.inl ?_) fun hk => ?_
      · rw [htext, List.head?_append_of_ne_nil _ hne]
        rwa [List.head?_append_of_ne_nil _ hne] at hc
      · rw [htext]
        exact fun hnil => hne (List.append_eq_nil_iff.mp hnil).1
      · have hlongest := hreads.shaped.operator hk
        rw [htext] at hlongest
        refine operatorAt?_resume hlongest hne fun e => hy ?_
        -- the token in front of the new text is all that stands between
        rcases List.append_eq_singleton_iff.mp (hm.symm.trans e) with ⟨-, e⟩ | ⟨-, hnil⟩
        · exact e
        · exact absurd hnil hl
    rw [joined_cons, List.append_assoc, ← List.append_assoc (Token.joined a), ← hm,
      tokenize_append hfollow, hm, List.append_assoc, ih hrest]
    rfl

/-- Layout in front of a text changes none of its tokens. -/
theorem significant_layout_append {g : Text} (hg : ∀ c ∈ g, Text.isLayoutChar c = true) (x : Text) :
    Token.significant (tokenize d (g ++ x)) = Token.significant (tokenize d x) := by
  obtain ⟨solid, e, hstop⟩ := takeWhile_rest Text.isLayoutChar x
  have hlayout : ∀ c ∈ x.takeWhile Text.isLayoutChar, Text.isLayoutChar c = true :=
    fun c hc => List.mem_takeWhile_imp hc
  have hdrop : ∀ g' : Text, (∀ c ∈ g', Text.isLayoutChar c = true) →
      Token.significant (tokenize d (g' ++ solid)) = Token.significant (tokenize d solid) := by
    intro g' hg'
    rw [tokenize_layout_append hg' hstop, significant_append, significant_layout hg',
      List.nil_append]
  rw [← e, ← List.append_assoc, hdrop _ fun c hc => ?_, hdrop _ hlayout]
  exact (List.mem_append.mp hc).elim (hg c) (hlayout c)

end RebecaLayout
