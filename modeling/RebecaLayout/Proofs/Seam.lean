import RebecaLayout.Proofs.Neighbours
import RebecaLayout.Proofs.Region

/-!
Regions that begin within a line. Their layout does not look at the token in front of them, so that
token may run into the first one of the region.

* `Token.runsInto` -- whether a token runs into the first one of a region behind it;
* `Opens` -- how the layout of a region begins within a line: with a new line, a space, or at once;
* `Opens.reads`, `Opens.not_reads`, `Opens.swallowed` -- **the token in front of a region is read as
  before exactly if it does not run into it**;
* `code` -- the words, operators and marks of a text; `Collides` -- tokens meet that run into each
  other;
* `formatRegion_within_line` -- **within a line a region keeps the program exactly if nothing
  collides**.
-/

namespace RebecaLayout

variable {style : Style} {d : Dialect} {l t u : Token} {a b ts us : List Token} {x y rest : Text}
  {offset length : Nat} {unit? terminator? : Option Text}

/-! ## 1. Tokens that run into each other -/

/-- **Whether a token runs into the first token of a region that begins behind it within a line.** A
    comment up to the end of its line runs into all but a closing brace, which goes to a new line; an
    operator into a sign or another operator of one operand that makes it a longer operator; and a
    word into a word or a character that continues words. -/
def Token.runsInto (l u : Token) : Bool :=
  match l.kind with
  | .lineComment => u.kind != .rightBrace
  | .operator =>
    u.kind == .operator && isUnary u.text none && operators.contains (l.text ++ u.text.take 1)
  | _ => l.kind.isUnquoted && (u.kind.isUnquoted || u.extendsWord)

theorem runsInto_iff : l.runsInto u = true ↔
    (l.kind = .lineComment ∧ u.kind ≠ .rightBrace) ∨
    (l.kind = .operator ∧ u.kind = .operator ∧ isUnary u.text none = true ∧
      l.text ++ u.text.take 1 ∈ operators) ∨
    (l.kind.isUnquoted = true ∧ (u.kind.isUnquoted = true ∨ u.extendsWord = true)) := by
  cases hk : l.kind <;> simp [Token.runsInto, hk, Kind.isUnquoted, and_assoc]

/-- How a text begins that begins with the layout of `u` within a line. -/
inductive Opens (u : Token) : Text → Prop
  | line {y : Text} (brace : u.kind = .rightBrace) (ends : AtLineEnd y) : Opens u y
  | space {c : Char} {z : Text} (plain : u.kind ≠ .rightBrace) (inFront : SpaceInFront [] u)
      (head : u.text.head? = some c) : Opens u (' ' :: c :: z)
  | atOnce {c : Char} {z : Text} (plain : u.kind ≠ .rightBrace) (close : ¬ SpaceInFront [] u)
      (head : u.text.head? = some c) : Opens u (c :: z)

/-- An operator that nothing in front of it separates belongs to the operand behind it. -/
theorem isUnary_of_close (hk : u.kind = .operator) (h : ¬ SpaceInFront [] u) :
    isUnary u.text none = true := by
  refine ((recalls_start 0 true).unary_iff hk).mpr (Classical.byContradiction fun hn => ?_)
  exact h (Or.inr (Or.inr ⟨hk, hn⟩))

theorem not_spaceInFront_of_isUnary (hk : u.kind = .operator) (h : isUnary u.text none = true) :
    ¬ SpaceInFront [] u := by
  have hbefore : BeforeOperand [] u := ((recalls_start 0 true).unary_iff hk).mp h
  rintro (hc | hb | hbetween)
  · rw [hk] at hc
    cases hc
  · rw [hk] at hb
    cases hb
  · exact hbetween.2 hbefore

/-- The operators of one operand where nothing stands in front of them. -/
theorem mem_of_isUnary {op : Text} (h : isUnary op none = true) :
    op ∈ unaryOperators ++ signs := by
  rcases Bool.or_eq_true_iff.mp h with h | h
  · exact List.mem_append_left _ (List.contains_iff_mem.mp h)
  · exact List.mem_append_right _ (List.contains_iff_mem.mp (Bool.and_eq_true_iff.mp h).1)

/-- They begin with none of the characters that make comments, arrows or assignments. -/
theorem unary_head : ∀ op ∈ unaryOperators ++ signs, op.head? ≠ some '/' ∧ op.head? ≠ some '*' ∧
    op.head? ≠ some '>' ∧ op.head? ≠ some '=' ∧ ¬ ['-', '>'] <+: op := by
  decide

/-- An operator is read before one of one operand unless the next character makes it longer. -/
theorem operatorAt?_unary {op v r : Text} (hop : op ∈ operators) (hv : v ∈ unaryOperators ++ signs)
    (h : operatorAt? (v ++ r) = some v) (hnot : op ++ v.take 1 ∉ operators) :
    operatorAt? (op ++ (v ++ r)) = some op := by
  obtain ⟨hvop, -, hmax⟩ := operatorAt?_spec h
  have hvpos := List.length_pos_iff.mpr (operator_ne_nil hvop)
  refine operatorAt?_eq_some_iff.mpr ⟨hop, List.prefix_append _ _, fun other ho hp => ?_⟩
  refine Nat.le_of_not_lt fun hlt => ?_
  obtain ⟨tail, rfl⟩ : op <+: other :=
    List.prefix_of_prefix_length_le (List.prefix_append _ _) hp (Nat.le_of_lt hlt)
  have htail : tail <+: v ++ r := (List.prefix_append_right_inj op).mp hp
  have hone : tail.take 1 = v.take 1 := by
    have hlen : (tail.take 1).length = 1 := by
      rw [List.length_append] at hlt
      rw [List.length_take]
      omega
    rw [← take_eq_of_begins ((List.take_prefix 1 tail).trans htail) hlen,
      List.take_append_of_le_length hvpos]
  have hoppos := List.length_pos_iff.mpr (operator_ne_nil hop)
  have hlength := operator_length _ ho
  rw [List.length_append] at hlt hlength
  by_cases hsingle : tail.length = 1
  · rw [List.take_of_length_le (Nat.le_of_eq hsingle)] at hone
    exact hnot (hone ▸ ho)
  · -- two characters more: one of them is enough, or the operator is `<->`
    have hop1 : op.length = 1 := by omega
    rcases operator_pair _ ho (by rw [List.length_append]; omega) with htwo | e
    · rw [List.take_append, List.take_of_length_le (by omega), hop1, hone] at htwo
      exact hnot htwo
    · obtain ⟨o, rfl⟩ := List.length_eq_one_iff.mp hop1
      obtain ⟨-, rfl⟩ : o = '<' ∧ tail = ['-', '>'] := by simpa using e
      have hlong : 2 ≤ v.length := hmax ['-', '>'] (by decide) htail
      have hpre : ['-', '>'] <+: v :=
        List.prefix_of_prefix_length_le htail (List.prefix_append _ _) hlong
      exact (unary_head v hv).2.2.2.2 hpre

/-! ## 2. The token in front of a region -/

/-- A text that does not begin with layout begins with the first token of its stream. -/
theorem reads_of_stream {c : Char} {more : List (Kind × List Text)} {z : Text}
    (h : stream d (c :: z) = u.core :: more) (hc : Text.isLayoutChar c = false)
    (hcomment : u.kind.isComment = false) (hspans : u.kind.spansLines = false) :
    ∃ r, c :: z = u.text ++ r ∧ Reads d u r := by
  obtain ⟨r, e, hreads⟩ := exists_reads d c z
  have hvisible : (lead d c z).kind.isLayout = false := by
    cases hl : (lead d c z).kind.isLayout with
    | false => rfl
    | true =>
      obtain ⟨c', w, etext⟩ := List.exists_cons_of_ne_nil hreads.text_ne_nil
      have hlayout := hreads.layout hl c' (etext ▸ List.mem_cons_self)
      rw [etext] at e
      rw [(List.cons.inj e).1, hc] at hlayout
      cases hlayout
  rw [stream, ← e, significant_tokenize_append hreads, hvisible, if_neg Bool.false_ne_true,
    List.map_cons] at h
  have hsame := Token.eq_of_core (List.cons.inj h).1.symm hcomment hspans
  rw [← hsame] at e hreads
  exact ⟨r, e.symm, hreads⟩

namespace Opens

/-- No arrow is completed. -/
theorem head_ne (h : Opens u y) (hu : Reads d u rest) : y.head? ≠ some '>' := by
  intro hhead
  cases h with
  | line _ ends =>
    have := ends '>' hhead
    cases this
  | space => cases hhead
  | atOnce _ close head =>
    obtain rfl := Option.some.inj hhead
    rcases hu.head_operator head (by decide) with hk | hc
    · exact (unary_head _ (mem_of_isUnary (isUnary_of_close hk close))).2.2.1 head
    · exact close (Or.inl hc)

/-- An operator is read before another that does not make it longer, although nothing separates
    them. -/
theorem operator_reads {c : Char} {z : Text} {more : List (Kind × List Text)}
    (hu : Reads d u rest) (hv : u.kind.isLayout = false) (huk : u.kind = .operator)
    (close : ¬ SpaceInFront [] u) (head : u.text.head? = some c)
    (hy : stream d (c :: z) = u.core :: more) {r : Text} (hl : Reads d l r)
    (hk : l.kind = .operator) (hnot : l.text ++ u.text.take 1 ∉ operators) : Reads d l (c :: z) := by
  have hmem := mem_of_isUnary (isUnary_of_close huk close)
  obtain ⟨hslash, hstar, -⟩ := unary_head _ hmem
  obtain ⟨c', w, e, hsolid⟩ := hu.head_solid hv
  obtain rfl : c' = c := by
    rw [e] at head
    exact Option.some.inj head
  obtain ⟨r', ey, hfirst⟩ := reads_of_stream hy hsolid (by rw [huk]; rfl) (by rw [huk]; rfl)
  have hop := (operatorAt?_spec (hl.shaped.operator hk)).1
  have hlongest := operatorAt?_unary hop hmem (hfirst.shaped.operator huk) hnot
  rw [← ey] at hlongest
  obtain ⟨kind, text⟩ := l
  obtain rfl : kind = .operator := hk
  refine .operator hlongest fun _ c'' hc'' => ?_
  obtain rfl : c' = c'' := Option.some.inj hc''
  exact ⟨fun e => hslash (e ▸ head), fun e => hstar (e ▸ head)⟩

/-- **A token that does not run into the region is read as before.** -/
theorem reads (h : Opens u y) (hu : Reads d u rest) {more : List (Kind × List Text)}
    (hy : stream d y = u.core :: more) (hv : u.kind.isLayout = false) (hl : Complete d l)
    (hlv : l.kind.isLayout = false) (hnot : l.runsInto u = false) : Reads d l y := by
  obtain ⟨r, hr, hreads⟩ := hl
  have hnone : ¬ l.runsInto u = true := by simp [hnot]
  rw [runsInto_iff, not_or, not_or] at hnone
  obtain ⟨hcomment, hoperator, hword⟩ := hnone
  cases h with
  | line _ ends => exact hreads.of_apart hlv (fun _ => hr) (ends.apart l)
  | space plain _ _ =>
    refine hreads.of_apart hlv (fun _ => hr) (.of_layout (fun c hc => ?_) fun hk => ?_)
    · rw [← Option.some.inj hc]
      rfl
    · exact absurd ⟨hk, plain⟩ hcomment
  | @atOnce c z plain close head =>
    by_cases hops : l.kind = .operator ∧ u.kind = .operator
    · obtain ⟨hk, huk⟩ := hops
      refine operator_reads hu hv huk close head hy hreads hk fun hop => hoperator ?_
      exact ⟨hk, huk, isUnary_of_close huk close, hop⟩
    · have hc : ∀ c' ∈ (c :: z).head?, c' = c := fun c' hc' => (Option.some.inj hc').symm
      refine hreads.of_apart hlv (fun _ => hr)
        ⟨fun hk c' hc' => ?_, fun hk c' hc' => ?_, fun hk => ?_⟩
      · rw [hc c' hc']
        cases hw : isWordChar c with
        | false => rfl
        | true => exact absurd ⟨hk, hu.head_wordChar head hw⟩ hword
      · have hop : [c] ∉ operators := by
          intro hop
          rcases hu.head_operator head hop with huk | hcomment
          · exact hops ⟨hk, huk⟩
          · exact close (Or.inl hcomment)
        rw [hc c' hc']
        refine ⟨not_binds hop _, fun _ => ⟨?_, ?_⟩⟩ <;> rintro rfl <;> exact hop (by decide)
      · exact absurd ⟨hk, plain⟩ hcomment

/-- Where neither a new line nor a space comes first, the token does. -/
theorem exists_head (h : Opens u y) (hplain : u.kind ≠ .rightBrace) (hclose : ¬ SpaceInFront [] u) :
    ∃ c z, y = c :: z ∧ u.text.head? = some c := by
  cases h with
  | line brace _ => exact absurd brace hplain
  | space _ inFront _ => exact absurd inFront hclose
  | atOnce _ _ head => exact ⟨_, _, rfl, head⟩

/-- **A token that runs into the region is not read as before**, unless it is a comment. -/
theorem not_reads (h : Opens u y) (hu : Reads d u rest) (hruns : l.runsInto u = true)
    (hk : l.kind ≠ .lineComment) : ¬ Reads d l y := by
  intro hreads
  rcases runsInto_iff.mp hruns with ⟨hcomment, -⟩ | ⟨hlk, huk, hunary, hop⟩ | ⟨hlk, huk⟩
  · exact hk hcomment
  · obtain ⟨c, z, rfl, head⟩ :=
      h.exists_head (by simp [huk]) (not_spaceInFront_of_isUnary huk hunary)
    obtain ⟨-, -, hmax⟩ := operatorAt?_spec (hreads.shaped.operator hlk)
    obtain ⟨w, e⟩ := List.head?_eq_some_iff.mp head
    have hone : u.text.take 1 = [c] := by
      rw [e]
      rfl
    rw [hone] at hop
    have hle := hmax _ hop ⟨z, by simp⟩
    rw [List.length_append, List.length_singleton] at hle
    omega
  · have hplain : u.kind ≠ .rightBrace ∧ ¬ SpaceInFront [] u := by
      have hkind : u.kind = .other ∨ u.kind = .identifier ∨ u.kind = .keyword ∨ u.kind = .number :=
        huk.elim (fun hq => Or.inr (isUnquoted_cases hq)) fun he => Or.inl (extendsWord_kind he)
      rcases hkind with hk | hk | hk | hk <;>
        simp [SpaceInFront, BetweenOperands, hk, Kind.isComment]
    obtain ⟨c, z, rfl, head⟩ := h.exists_head hplain.1 hplain.2
    have hword := hu.wordChars huk.symm c (List.mem_of_mem_head? head)
    rw [(hreads.shaped.word hlk).2 c rfl] at hword
    cases hword

end Opens

/-! ## 3. Words, operators and marks -/

/-- Words that are no literals, operators and marks. -/
def Kind.isCode : Kind → Bool
  | .whitespace | .newline | .string | .character | .lineComment | .blockComment | .other => false
  | _ => true

/-- **The words, operators and marks of a text**, in their order. -/
def code (d : Dialect) (x : Text) : List Token := (tokenize d x).filter fun t => t.kind.isCode

theorem isCode_kind {kind : Kind} (h : kind.isCode = true) :
    kind.isLayout = false ∧ kind.isComment = false ∧ kind.spansLines = false := by
  cases kind <;> simp [Kind.isCode, Kind.isLayout, Kind.isComment, Kind.spansLines] at h ⊢

theorem filter_code_congr (h : ts.map Token.core = us.map Token.core) :
    (ts.filter fun t => t.kind.isCode) = us.filter fun t => t.kind.isCode := by
  induction ts generalizing us with
  | nil =>
    cases us with
    | nil => rfl
    | cons u us => cases h
  | cons t ts ih =>
    cases us with
    | nil => cases h
    | cons u us =>
      obtain ⟨hcore, htail⟩ := List.cons.inj h
      have hkind := Token.kind_eq_of_core hcore
      rw [List.filter_cons, List.filter_cons, ih htail, ← hkind]
      cases hcode : t.kind.isCode with
      | false => rfl
      | true =>
        obtain ⟨-, hcomment, hspans⟩ := isCode_kind hcode
        rw [Token.eq_of_core hcore hcomment hspans]

/-- The stream of a text decides its code. -/
theorem code_of_stream (h : stream d x = stream d y) : code d x = code d y := by
  have hvisible : ∀ ts : List Token,
      (ts.filter fun t => t.kind.isCode) = (Token.significant ts).filter fun t => t.kind.isCode := by
    intro ts
    rw [Token.significant, List.filter_filter]
    refine List.filter_congr fun t _ => ?_
    cases hcode : t.kind.isCode with
    | false => rfl
    | true => simp [(isCode_kind hcode).1]
  rw [code, code, hvisible, hvisible (tokenize d y)]
  exact filter_code_congr h

/-- What begins like a word is one. -/
theorem Reads.unquoted_of_head {r : Text} (hl : Reads d l rest) (hk : l.kind.isUnquoted = true)
    (ht : Reads d t r) {c : Char} (hlc : l.text.head? = some c) (htc : t.text.head? = some c) :
    t.kind.isUnquoted = true := by
  have hword := hl.wordChars (Or.inr hk) c (List.mem_of_mem_head? hlc)
  rcases ht.head_wordChar htc hword with hunquoted | hextends
  · exact hunquoted
  · -- the first character of a word is no token of its own
    obtain ⟨⟨c', w, e, hstart⟩, -⟩ := hl.shaped.word hk
    rw [e] at hlc
    obtain rfl := Option.some.inj hlc
    obtain ⟨c', e, hstray⟩ := ht.shaped.other (extendsWord_kind hextends)
    rw [e] at htc
    obtain rfl := Option.some.inj htc
    rcases hstart with h | h <;> simp [isStray, h] at hstray

/-- An operator that a sign makes longer does not begin with a slash. -/
theorem grown_head {op v : Text} (hv : v ∈ unaryOperators ++ signs)
    (h : op ++ v.take 1 ∈ operators) : op.head? ≠ some '/' := by
  intro hhead
  obtain ⟨w, rfl⟩ := List.head?_eq_some_iff.mp hhead
  cases v with
  | nil => exact absurd hv (by decide)
  | cons c v =>
    rcases slash_operator _ h with hnil | e
    · simp at hnil
    · rcases List.append_eq_singleton_iff.mp e with ⟨-, e⟩ | ⟨-, e⟩
      · exact (unary_head _ hv).2.2.2.1 (congrArg List.head? e)
      · cases e

/-- What begins like a token that runs into another is code. -/
theorem isCode_of_runsInto {r : Text} (hruns : l.runsInto u = true) (hk : l.kind ≠ .lineComment)
    (hl : Reads d l rest) (ht : Reads d t r) {c : Char} (hlc : l.text.head? = some c)
    (htc : t.text.head? = some c) : t.kind.isCode = true := by
  rcases runsInto_iff.mp hruns with ⟨hcomment, -⟩ | ⟨hlk, -, hunary, hop⟩ | ⟨hlk, -⟩
  · exact absurd hcomment hk
  · have hlop := (operatorAt?_spec (hl.shaped.operator hlk)).1
    have hslash := grown_head (mem_of_isUnary hunary) hop
    obtain ⟨w, e⟩ := List.head?_eq_some_iff.mp hlc
    have hsingle : [c] ∈ operators := by
      have hfirst := operator_head _ hlop
      rwa [e] at hfirst
    rcases ht.head_operator htc hsingle with htk | hcomment
    · rw [htk]
      rfl
    · have hhead : t.text.head? = some '/' := by
        rcases isComment_cases hcomment with hc | hc
        · obtain ⟨y, ey⟩ := ht.proper.lineComment hc
          rw [ey]
          rfl
        · obtain ⟨y, ey⟩ := ht.proper.blockComment hc
          rw [ey]
          rfl
      exact absurd (hlc.trans (htc.symm.trans hhead)) hslash
  · rcases isUnquoted_cases (hl.unquoted_of_head hlk ht hlc htc) with e | e | e <;> rw [e] <;> rfl

/-- **What runs into the region changes the code**, unless it is a comment. -/
theorem code_ne_of_runsInto (h : tokenize d x = a ++ l :: b) (ho : Opens u y) (hu : Reads d u rest)
    (hruns : l.runsInto u = true) (hk : l.kind ≠ .lineComment) :
    code d (Token.joined a ++ (l.text ++ y)) ≠ code d x := by
  intro e
  obtain ⟨r, hl⟩ := exists_reads_of_append h
  rw [code, code, tokenize_resume h (fun _ => ho.head_ne hu), h, List.filter_append,
    List.filter_append] at e
  obtain ⟨c, w, etext⟩ := List.exists_cons_of_ne_nil hl.text_ne_nil
  obtain ⟨r', e', ht⟩ := exists_reads d c (w ++ y)
  have hlc : l.text.head? = some c := by
    rw [etext]
    rfl
  have htc : (lead d c (w ++ y)).text.head? = some c := by
    obtain ⟨c', w', et⟩ := List.exists_cons_of_ne_nil ht.text_ne_nil
    rw [et] at e' ⊢
    exact congrArg some (List.cons.inj e').1
  have hcode := isCode_of_runsInto hruns hk hl ht hlc htc
  have hlcode := isCode_of_runsInto hruns hk hl hl hlc hlc
  have hwhole : l.text ++ y = (lead d c (w ++ y)).text ++ r' := by
    rw [e', etext]
    rfl
  rw [hwhole, tokenize_append ht, List.filter_cons, hcode, if_pos rfl, List.filter_cons, hlcode,
    if_pos rfl] at e
  have hfirst := (List.cons.inj (List.append_cancel_left e)).1
  rw [hfirst] at ht hwhole
  rw [← List.append_cancel_left hwhole] at ht
  exact ho.not_reads hu hruns hk ht

/-! ## 4. Comments that take in what follows -/

/-- White space continues no word. -/
theorem not_wordChar_of_isSpace {c : Char} (h : Text.isSpace c = true) : isWordChar c = false := by
  have hall : ∀ r ∈ Text.spaceRanges, ∀ n ∈ List.range' r.1 (r.2 - r.1 + 1),
      isWordChar (Char.ofNat n) = false := by
    decide +kernel
  obtain ⟨r, hr, hin⟩ := List.any_eq_true.mp h
  have hrange : r.1 ≤ c.toNat ∧ c.toNat ≤ r.2 := by simpa using hin
  have hmem : c.toNat ∈ List.range' r.1 (r.2 - r.1 + 1) := by
    rw [List.mem_range'_1]
    omega
  have hchar := hall r hr c.toNat hmem
  rwa [Char.ofNat_toNat] at hchar

/-- A token of white space within a line is read before the end of the line. -/
theorem Reads.follow_space (h : Reads d t rest) (hs : ∀ c ∈ t.text, Text.isSpace c = true)
    (hone : Text.OneLine t.text) (hy : AtLineEnd y) : Reads d t (rest ++ y) := by
  have hfirst : ∀ {c : Char} {z : Text}, t.text = c :: z → isWordChar c = false := by
    intro c z e
    exact not_wordChar_of_isSpace (hs c (e ▸ List.mem_cons_self))
  -- only blanks and characters that nothing claims are white space
  cases h with
  | blanks ne all stop =>
    refine .blanks ne all fun c hc => ?_
    cases rest with
    | nil => exact (Text.isTerminator_iff.mp (hy c hc)).elim (fun e => e ▸ rfl) fun e => e ▸ rfl
    | cons c' rest => exact stop c hc
  | stray hstray => exact .stray hstray
  | lineEnd terminator _ =>
    obtain ⟨c, z, rfl, hc⟩ := terminator.exists_head
    rw [hone c List.mem_cons_self] at hc
    cases hc
  | lineComment => exact absurd (hs '/' List.mem_cons_self) (by decide)
  | blockComment => exact absurd (hs '/' List.mem_cons_self) (by decide)
  | literal opens _ =>
    have hquote := hs _ List.mem_cons_self
    rcases literalKind?_cases opens with ⟨rfl, -⟩ | ⟨rfl, -⟩ <;> exact absurd hquote (by decide)
  | word start _ _ =>
    have hword := hfirst rfl
    rw [isWordChar_of_start start] at hword
    cases hword
  | number start _ _ =>
    have hword := hfirst rfl
    rw [isWordChar_of_digit start] at hword
    cases hword
  | mark isMark =>
    have hspace := hs _ List.mem_cons_self
    unfold punctuation? at isMark
    split at isMark <;> cases isMark <;> exact absurd hspace (by decide)
  | operator longest _ =>
    have hall : ∀ op ∈ operators, op.all (fun c => Text.isSpace c) = false := by decide
    have hop := hall _ (operatorAt?_spec longest).1
    rw [List.all_eq_true.mpr hs] at hop
    cases hop

/-- White space at the end of a line is read by itself. -/
theorem tokenize_space_append {s : Text} (hs : ∀ c ∈ s, Text.isSpace c = true)
    (hone : Text.OneLine s) (hy : AtLineEnd y) :
    tokenize d (s ++ y) = tokenize d s ++ tokenize d y := by
  induction s using text_induction d with
  | nil => rfl
  | step t rest h ih =>
    have ht : Reads d t (rest ++ y) :=
      h.follow_space (fun c hc => hs c (List.mem_append_left _ hc))
        (fun c hc => hone c (List.mem_append_left _ hc)) hy
    have hrest := ih (fun c hc => hs c (List.mem_append_right _ hc))
      fun c hc => hone c (List.mem_append_right _ hc)
    rw [List.append_assoc, tokenize_append ht, tokenize_append h, hrest]
    rfl

theorem atLineEnd_dropWhile (y : Text) : AtLineEnd (y.dropWhile fun c => !Text.isTerminator c) := by
  intro c hc
  have hhead := List.head?_dropWhile_not (fun c => !Text.isTerminator c) y
  rw [Option.mem_def.mp hc] at hhead
  simpa using hhead

/-- A comment that takes in more than white space has another core. -/
theorem isSpace_of_core {z s : Text}
    (h : Token.core ⟨.lineComment, z ++ s⟩ = Token.core ⟨.lineComment, z⟩) :
    ∀ c ∈ s, Text.isSpace c = true := by
  have htrim : Text.trimEnd Text.isSpace (z ++ s) = Text.trimEnd Text.isSpace z := by
    simpa [Token.core] using h
  intro c hc
  cases hspace : Text.isSpace c with
  | true => rfl
  | false =>
    rw [Text.trimEnd_append_of_last hc hspace] at htrim
    have hlength := congrArg List.length htrim
    have hle := (Text.prefix_trimEnd Text.isSpace z).length_le
    rw [List.length_append] at hlength
    have hnil : Text.trimEnd Text.isSpace s = [] := List.length_eq_zero_iff.mp (by omega)
    exact hspace.symm.trans (List.rdropWhile_eq_nil_iff.mp hnil c hc)

/-- **A comment up to the end of its line takes in the first line of what follows it.** -/
theorem tokenize_lineComment {r : Text} (hl : Reads d l r) (hk : l.kind = .lineComment) (y : Text) :
    tokenize d (l.text ++ y) =
      ⟨.lineComment, l.text ++ y.takeWhile fun c => !Text.isTerminator c⟩ ::
        tokenize d (y.dropWhile fun c => !Text.isTerminator c) := by
  have hone : Text.OneLine (y.takeWhile fun c => !Text.isTerminator c) := fun c hc => by
    simpa using List.mem_takeWhile_imp hc
  have hlone := hl.oneLine (by rw [hk]; rfl) (by rw [hk]; rfl)
  obtain ⟨z, hz⟩ := hl.proper.lineComment hk
  have hreads : Reads d ⟨.lineComment, '/' :: '/' :: (z ++ y.takeWhile fun c => !Text.isTerminator c)⟩
      (y.dropWhile fun c => !Text.isTerminator c) := by
    refine .lineComment (Text.OneLine.append (fun c hc => hlone c ?_) hone) (atLineEnd_dropWhile y)
    rw [hz]
    exact List.mem_cons_of_mem _ (List.mem_cons_of_mem _ hc)
  have hsplit : l.text ++ y = '/' :: '/' :: (z ++ y.takeWhile fun c => !Text.isTerminator c) ++
      y.dropWhile fun c => !Text.isTerminator c := by
    rw [hz, List.cons_append, List.cons_append, List.cons_append, List.cons_append,
      List.append_assoc, List.takeWhile_append_dropWhile]
  rw [hsplit, tokenize_append hreads, hz]
  rfl

namespace Opens

/-- The region begins within the line. -/
theorem exists_solid (h : Opens u y) (hu : Reads d u rest) (hv : u.kind.isLayout = false)
    (hplain : u.kind ≠ .rightBrace) :
    ∃ c ∈ y.takeWhile (fun c => !Text.isTerminator c), Text.isLayoutChar c = false := by
  obtain ⟨c, w, e, hc⟩ := hu.head_solid hv
  have hline : Text.isTerminator c = false := (Bool.or_eq_false_iff.mp hc).2
  have hfirst : ∀ {c' : Char}, u.text.head? = some c' → c' = c := by
    intro c' head
    rw [e] at head
    exact (Option.some.inj head).symm
  cases h with
  | line brace _ => exact absurd brace hplain
  | space _ _ head =>
    obtain rfl := hfirst head
    have hspace : Text.isTerminator ' ' = false := rfl
    exact ⟨_, by simp [hspace, hline], hc⟩
  | atOnce _ _ head =>
    obtain rfl := hfirst head
    exact ⟨_, by simp [hline], hc⟩

/-- **A comment up to the end of its line takes in the region that begins behind it**, and with it
    what the program shows: the comment shows more, or a token is gone. -/
theorem swallowed (h : Opens u y) (hu : Reads d u rest) (hv : u.kind.isLayout = false) {r : Text}
    (hl : Reads d l r) (hk : l.kind = .lineComment) (hplain : u.kind ≠ .rightBrace) :
    stream d (l.text ++ y) ≠ l.core :: stream d y := by
  intro e
  obtain ⟨c, hc, hsolid⟩ := h.exists_solid hu hv hplain
  have hone : Text.OneLine (y.takeWhile fun c => !Text.isTerminator c) := fun c' hc' => by
    simpa using List.mem_takeWhile_imp hc'
  rw [stream, tokenize_lineComment hl hk] at e
  obtain ⟨hcore, htail⟩ := List.cons.inj e
  have hrest : (Token.significant (tokenize d (y.dropWhile fun c => !Text.isTerminator c))).map
      Token.core = stream d y := htail
  obtain ⟨kind, text⟩ := l
  obtain rfl : kind = .lineComment := hk
  have hcut := tokenize_space_append (d := d) (isSpace_of_core hcore) hone (atLineEnd_dropWhile y)
  rw [List.takeWhile_append_dropWhile] at hcut
  rw [stream, hcut, significant_append, List.map_append] at hrest
  have hnil := List.map_eq_nil_iff.mp (List.self_eq_append_left.mp hrest)
  rw [layout_of_significant hnil c hc] at hsolid
  cases hsolid

end Opens

/-! ## 5. Regions that begin within a line -/

/-- **The token in front of a region runs into its first one.** A region of white space stays as it
    is, and nothing runs into it. -/
def Collides (d : Dialect) (x : Text) (offset length : Nat) : Prop :=
  Text.isVoid (spanOf x offset length) = false ∧
    ∃ l ∈ (tokenize d (x.take offset)).getLast?,
      ∃ u ∈ (Token.significant (tokenize d (spanOf x offset length))).head?, l.runsInto u = true

instance : Decidable (Collides d x offset length) := inferInstanceAs (Decidable (_ ∧ _))

/-- Within a line the replacement of a region begins with its first token. -/
theorem opens_replacement (ho : style.Orderly) {rest : Text}
    (hline : ∃ c ∈ (x.take offset).getLast?, Text.isTerminator c = false)
    (hs : Token.significant (tokenize style.dialect (spanOf x offset length)) = u :: us)
    (hu : Reads style.dialect u rest) (hv : u.kind.isLayout = false) (depth : Nat)
    (following : Text) : Opens u (replacement style depth x offset length ++ following) := by
  obtain ⟨c, hc, hnot⟩ := hline
  have hwithin : (x.take offset).getLast?.all Text.isTerminator = false := by
    rw [hc]
    exact hnot
  obtain ⟨c', w, e, hhead, -⟩ := hu.written_head hv style
    ((Spot.start depth false).depthAt u.kind)
  rw [replacement, hwithin, hs, pieces_cons, spread_cons, gap_start, opening,
    if_neg Bool.false_ne_true]
  dsimp only
  rw [e]
  by_cases hbrace : u.kind = .rightBrace
  · rw [if_pos hbrace]
    simp only [List.append_assoc]
    exact .line hbrace (ho.terminator.atLineEnd _)
  · rw [if_neg hbrace]
    by_cases hspace : SpaceInFront [] u
    · rw [if_pos hspace]
      exact .space hbrace hspace hhead
    · rw [if_neg hspace]
      exact .atOnce hbrace hspace hhead

/-- In ASCII what continues words begins one or is a digit, and so is no token of its own. -/
theorem not_extendsWord_of_ascii (h : Reads d u rest) (hascii : ∀ c ∈ u.text, c.toNat < 128) :
    u.extendsWord = false := by
  cases hext : u.extendsWord with
  | false => rfl
  | true =>
    obtain ⟨c, e, hstray⟩ := h.shaped.other (extendsWord_kind hext)
    have hword := h.wordChars (Or.inl hext) c (e ▸ List.mem_cons_self)
    have hnumeric : Text.isNumeric c = c.isDigit := if_pos (hascii c (e ▸ List.mem_cons_self))
    simp only [isStray, isWordStart, Bool.and_eq_true, Bool.not_eq_true',
      Bool.or_eq_false_iff] at hstray
    simp [isWordChar, hnumeric, hstray] at hword

/-- Nothing in an ASCII text welds. -/
theorem weldFree_of_ascii (hascii : ∀ c ∈ x, c.toNat < 128) :
    WeldFree (Token.significant (tokenize d x)) := by
  have hnone : ∀ u ∈ Token.significant (tokenize d x), u.extendsWord = false := by
    intro u hu
    have hmem := (List.mem_filter.mp hu).1
    obtain ⟨rest, hreads⟩ := exists_reads_of_mem hmem
    refine not_extendsWord_of_ascii hreads fun c hc => hascii c ?_
    rw [← joined_tokenize d x]
    exact List.mem_flatMap.mpr ⟨u, hmem, hc⟩
  unfold WeldFree
  refine (List.pairwise_of_forall_mem_list fun t _ u hu => ?_).isChain
  rw [Token.welds, hnone u hu, Bool.and_false]

/-- A token that does not run into the region leaves the program as it is. -/
theorem stream_spliced_of_not_runsInto {out : Text} {more : List (Kind × List Text)}
    (hstart : offset ∈ boundaries d x) (hvoid : Text.isVoid (spanOf x offset length) = false)
    (e : tokenize d (x.take offset) = a ++ [l]) (hu : Reads d u rest)
    (hv : u.kind.isLayout = false) (ho : Opens u (out ++ x.drop (offset + length)))
    (hy : stream d (out ++ x.drop (offset + length)) = stream d (x.drop offset))
    (hmore : stream d (x.drop offset) = u.core :: more) (hnot : l.runsInto u = false) :
    stream d (spliced x offset length out) = stream d x := by
  refine stream_spliced hstart hy fun a' l' e' => ⟨fun _ => ho.head_ne hu, ?_⟩
  obtain ⟨-, rfl⟩ := List.append_singleton_inj.mp (e'.symm.trans e)
  cases hlayout : l'.kind.isLayout with
  | true => exact Or.inl rfl
  | false =>
    have hcomplete := complete_of_region hstart hvoid e
    exact Or.inr (ho.reads hu (hy.trans hmore) hv hcomplete hlayout hnot)

/-- One that does changes it, and the code as well unless it is a comment. -/
theorem stream_spliced_of_runsInto {out : Text} (hstart : offset ∈ boundaries d x)
    (e : tokenize d (x.take offset) = a ++ [l]) (hu : Reads d u rest)
    (hv : u.kind.isLayout = false) (ho : Opens u (out ++ x.drop (offset + length)))
    (hy : stream d (out ++ x.drop (offset + length)) = stream d (x.drop offset))
    (hruns : l.runsInto u = true) :
    stream d (spliced x offset length out) ≠ stream d x ∧
      (l.kind ≠ .lineComment → code d (spliced x offset length out) ≠ code d x) := by
  have hcut := (tokenize_take_drop hstart).1
  rw [e, List.append_assoc] at hcut
  rw [spliced_eq e]
  have hcode : l.kind ≠ .lineComment →
      code d (Token.joined a ++ (l.text ++ (out ++ x.drop (offset + length)))) ≠ code d x :=
    code_ne_of_runsInto hcut ho hu hruns
  refine ⟨fun hsame => ?_, hcode⟩
  by_cases hk : l.kind = .lineComment
  · obtain ⟨r, hl⟩ := exists_reads_of_append hcut
    have hplain : u.kind ≠ .rightBrace := by
      simpa [Token.runsInto, hk] using hruns
    have hvisible : l.kind.isLayout = false := by
      rw [hk]
      rfl
    refine ho.swallowed hu hv hl hk hplain ?_
    rw [stream, stream, tokenize_resume hcut fun _ => ho.head_ne hu, hcut, significant_append,
      significant_append, List.map_append, List.map_append] at hsame
    have hrest := List.append_cancel_left hsame
    rw [List.singleton_append, significant_cons l, hvisible, if_neg Bool.false_ne_true,
      List.map_cons] at hrest
    exact hrest.trans (congrArg (l.core :: ·) hy.symm)
  · exact hcode hk (code_of_stream hsame)

/-- **Behind a comment the code is kept exactly if it is all behind the first line.** -/
theorem code_spliced_lineComment {out : Text} (hstart : offset ∈ boundaries d x)
    (e : tokenize d (x.take offset) = a ++ [l]) (hk : l.kind = .lineComment) :
    code d (spliced x offset length out) = code d x ↔
      code d ((out ++ x.drop (offset + length)).dropWhile fun c => !Text.isTerminator c) =
        code d (x.drop offset) := by
  have hcut := (tokenize_take_drop hstart).1
  rw [e, List.append_assoc] at hcut
  obtain ⟨r, hl⟩ := exists_reads_of_append hcut
  have hslash : l.text ≠ ['-'] := by
    obtain ⟨z, hz⟩ := hl.proper.lineComment hk
    rw [hz]
    exact fun h => by cases h
  have hcomment : l.kind.isCode = false := by
    rw [hk]
    rfl
  have hbefore : code d x = a.filter (fun t => t.kind.isCode) ++ code d (x.drop offset) := by
    rw [code, hcut, List.filter_append, List.singleton_append,
      List.filter_cons_of_neg (by simp [hcomment])]
    rfl
  have hafter : code d (spliced x offset length out) = a.filter (fun t => t.kind.isCode) ++
      code d ((out ++ x.drop (offset + length)).dropWhile fun c => !Text.isTerminator c) := by
    rw [spliced_eq e, code, tokenize_resume hcut fun h => absurd h hslash,
      tokenize_lineComment hl hk,
      List.filter_append, List.filter_cons_of_neg Bool.false_ne_true]
    rfl
  rw [hbefore, hafter, List.append_cancel_left_eq]

/-- **Within a line a region keeps the program exactly if nothing collides.** In an ASCII text, for a
    region between two boundaries that begins within a line, in any dialect and with any unit of
    blanks and any terminator, given or taken from the text, the region is laid out; with the layout
    in its place the text has the same stream if and only if the token in front of the region does not
    run into its first one. If so, the code is the same; if not, it is another one, unless that token
    is a comment. A comment takes in the first line of what is put behind it: then the code is the
    same if and only if all code that was behind the comment is found behind that line. -/
theorem formatRegion_within_line (d : Dialect) (unit? terminator? : Option Text) (x : Text)
    (offset length : Nat) (hascii : ∀ c ∈ x, c.toNat < 128)
    (hu : ∀ u ∈ unit?, u ≠ [] ∧ ∀ c ∈ u, Text.isBlank c = true)
    (hn : ∀ nl ∈ terminator?, LineEnd nl) (hstart : offset ∈ boundaries d x)
    (hend : offset + length ∈ boundaries d x)
    (hline : ∃ c ∈ (x.take offset).getLast?, Text.isTerminator c = false) :
    ∃ out, formatRegion d unit? terminator? x offset length = .ok out ∧
      (stream d (spliced x offset length out) = stream d x ↔ ¬ Collides d x offset length) ∧
      (¬ Collides d x offset length → code d (spliced x offset length out) = code d x) ∧
      (Collides d x offset length →
        (∀ l ∈ (tokenize d (x.take offset)).getLast?, l.kind ≠ .lineComment) →
        code d (spliced x offset length out) ≠ code d x) ∧
      ∀ l ∈ (tokenize d (x.take offset)).getLast?, l.kind = .lineComment →
        (code d (spliced x offset length out) = code d x ↔
          code d ((out ++ x.drop (offset + length)).dropWhile fun c => !Text.isTerminator c) =
            code d (x.drop offset)) := by
  obtain ⟨depth, hout⟩ := formatRegion_eq hu hn d (le_of_mem_boundaries hend)
  have hcomment : ∀ out, ∀ l ∈ (tokenize d (x.take offset)).getLast?, l.kind = .lineComment →
      (code d (spliced x offset length out) = code d x ↔
        code d ((out ++ x.drop (offset + length)).dropWhile fun c => !Text.isTerminator c) =
          code d (x.drop offset)) := by
    intro out l hl hk
    obtain ⟨a, e⟩ := List.getLast?_eq_some_iff.mp hl
    exact code_spliced_lineComment hstart e hk
  refine ⟨_, hout, and_assoc.mp (and_assoc.mp ⟨and_assoc.mpr ?_, hcomment _⟩)⟩
  cases hvoid : Text.isVoid (spanOf x offset length) with
  | true =>
    have hnot : ¬ Collides d x offset length := by
      rintro ⟨hshown, -⟩
      rw [hvoid] at hshown
      cases hshown
    rw [if_pos rfl, spliced_span]
    exact ⟨⟨fun _ => hnot, fun _ => rfl⟩, fun _ => rfl, fun hcollides => absurd hcollides hnot⟩
  | false =>
    rw [if_neg Bool.false_ne_true]
    have ho := resolve_orderly (fun u h => (hu u h).2) hn d x
    have hfree : WeldFree (Token.significant (tokenize d (spanOf x offset length))) :=
      weldFree_of_ascii fun c hc => hascii c (List.mem_of_mem_drop (List.mem_of_mem_take hc))
    have hy := stream_replacement ho hstart hend hvoid hfree depth
    -- the tokens that meet
    obtain ⟨u, us, hs⟩ := List.exists_cons_of_ne_nil (significant_ne_nil d hvoid)
    obtain ⟨hv, rest, hreads⟩ := (hs ▸ legible_significant d (spanOf x offset length)).head
    obtain ⟨a, l, e⟩ : ∃ a l, tokenize d (x.take offset) = a ++ [l] := by
      rcases List.eq_nil_or_concat' (tokenize d (x.take offset)) with hnil | hlast
      · obtain ⟨c, hc, -⟩ := hline
        rw [← joined_tokenize d (x.take offset), hnil] at hc
        cases hc
      · exact hlast
    have hopens := opens_replacement ho hline hs hreads hv depth (x.drop (offset + length))
    have hmore : ∃ more, stream d (x.drop offset) = u.core :: more := by
      rw [stream, (tokenize_region hstart hend).1, significant_append, hs]
      exact ⟨_, rfl⟩
    obtain ⟨more, hmore⟩ := hmore
    have hiff : Collides d x offset length ↔ l.runsInto u = true := by
      simp [Collides, hvoid, e, hs]
    rw [hiff]
    cases hruns : l.runsInto u with
    | false =>
      have hsame := stream_spliced_of_not_runsInto hstart hvoid e hreads hv hopens hy hmore hruns
      exact ⟨by simp [hsame], fun _ => code_of_stream hsame, fun h => by cases h⟩
    | true =>
      obtain ⟨hstream, hcode⟩ := stream_spliced_of_runsInto hstart e hreads hv hopens hy hruns
      refine ⟨by simp [hstream], fun h => absurd rfl h, fun _ hl => hcode (hl l ?_)⟩
      rw [e]
      simp

/-- A minus and a sign behind it become one operator: `j - -k` is `j --k` once the region behind the
    first minus is laid out. -/
theorem formatRegion_within_line_minus :
    (∀ c ∈ "i = j - -k;\n".toList, c.toNat < 128) ∧ (∀ c ∈ "  ".toList, Text.isBlank c = true) ∧
    LineEnd ['\r'] ∧ 7 ∈ boundaries .rebeca "i = j - -k;\n".toList ∧
    7 + 5 ∈ boundaries .rebeca "i = j - -k;\n".toList ∧
    (∃ c ∈ ("i = j - -k;\n".toList.take 7).getLast?, Text.isTerminator c = false) ∧
    ∃ out, formatRegion .rebeca (some "  ".toList) (some ['\r']) "i = j - -k;\n".toList 7 5 =
        .ok out ∧
      stream .rebeca (spliced "i = j - -k;\n".toList 7 5 out) ≠
        stream .rebeca "i = j - -k;\n".toList ∧
      code .rebeca (spliced "i = j - -k;\n".toList 7 5 out) ≠
        code .rebeca "i = j - -k;\n".toList := by
  have hsmall : "i = j - -k;\n".toList.all (fun c => decide (c.toNat < 128)) = true := by decide
  have hascii : ∀ c ∈ "i = j - -k;\n".toList, c.toNat < 128 := by
    simpa only [decide_eq_true_eq] using List.all_eq_true.mp hsmall
  have hblank : "  ".toList.all Text.isBlank = true := by decide
  have hu : ∀ c ∈ "  ".toList, Text.isBlank c = true := List.all_eq_true.mp hblank
  have hstart : 7 ∈ boundaries .rebeca "i = j - -k;\n".toList := by decide +kernel
  have hend : 7 + 5 ∈ boundaries .rebeca "i = j - -k;\n".toList := by decide +kernel
  have hline : ∃ c ∈ ("i = j - -k;\n".toList.take 7).getLast?, Text.isTerminator c = false :=
    ⟨'-', rfl, rfl⟩
  have hcollides : Collides .rebeca "i = j - -k;\n".toList 7 5 := by decide +kernel
  have hlast : (tokenize .rebeca ("i = j - -k;\n".toList.take 7)).getLast? =
      some ⟨.operator, ['-']⟩ := by decide +kernel
  obtain ⟨out, hout, hstream, -, hcode, -⟩ := formatRegion_within_line .rebeca (some "  ".toList)
    (some ['\r']) _ 7 5 hascii (fun u hu' => Option.some.inj hu' ▸ ⟨by decide, hu⟩)
    (fun nl hnl => Option.some.inj hnl ▸ .carriageReturn) hstart hend hline
  refine ⟨hascii, hu, .carriageReturn, hstart, hend, hline, out, hout, ?_, ?_⟩
  · exact fun h => hstream.mp h hcollides
  · refine hcode hcollides fun l hl => ?_
    rw [hlast] at hl
    rw [← Option.some.inj hl]
    exact Kind.noConfusion

/-- Two words become one, and a comment takes in the line behind it. -/
theorem formatRegion_within_line_fuses :
    (1 ∈ boundaries .rebeca "x y".toList ∧ 1 + 2 ∈ boundaries .rebeca "x y".toList ∧
      formatRegion .rebeca none none "x y".toList 1 2 = .ok ['y'] ∧
      code .rebeca (spliced "x y".toList 1 2 ['y']) ≠ code .rebeca "x y".toList) ∧
    (6 ∈ boundaries .rebeca "x // c\ny\n".toList ∧ 6 + 3 ∈ boundaries .rebeca "x // c\ny\n".toList ∧
      formatRegion .rebeca none none "x // c\ny\n".toList 6 3 = .ok "y\n".toList ∧
      code .rebeca (spliced "x // c\ny\n".toList 6 3 "y\n".toList) ≠
        code .rebeca "x // c\ny\n".toList) := by
  decide +kernel

end RebecaLayout
