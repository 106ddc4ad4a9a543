import RebecaLayout.Proofs.Lines
import RebecaLayout.Proofs.Scanning

/-!
What a text begins with, said without the order in which `lead` tries the kinds.

* `Reads d t rest` -- **the text `t.text ++ rest` begins with the token `t`**: one rule for each
  kind, saying what the token looks like and what may not follow it;
* `Reads.lead_eq`, `exists_reads` -- these rules are what `lead` computes;
* `tokenize_append` -- a text that begins with a token is that token and the tokens of the rest;
* `text_induction` -- every text is built token by token;
* `joined_tokenize` -- the tokens of a text are the text.
-/

namespace RebecaLayout

variable {d : Dialect} {t : Token} {ts : List Token} {c : Char} {rest : Text}

/-! ## 1. Characters by what they begin -/

/-- The kind of literal that a quote begins. -/
def literalKind? : Char → Option Kind
  | '"' => some .string
  | '\x27' => some .character
  | _ => none

/-- The kind of a word. -/
def wordKind (dialect : Dialect) (word : Text) : Kind :=
  if dialect.keywords.contains word then .keyword else .identifier

/-- A character that begins no token but itself. -/
def isStray (c : Char) : Bool :=
  !Text.isLayoutChar c && (literalKind? c).isNone && !isWordStart c && !c.isDigit &&
    (punctuation? c).isNone && !operators.contains [c]

theorem literalKind?_cases {kind : Kind} (h : literalKind? c = some kind) :
    (c = '"' ∧ kind = .string) ∨ (c = '\x27' ∧ kind = .character) := by
  unfold literalKind? at h
  split at h
  · exact Or.inl ⟨rfl, by simpa using h.symm⟩
  · exact Or.inr ⟨rfl, by simpa using h.symm⟩
  · cases h

theorem literalKind?_eq_none (h : literalKind? c = none) : c ≠ '"' ∧ c ≠ '\x27' := by
  constructor <;> rintro rfl <;> cases h

theorem not_layoutChar_iff : Text.isLayoutChar c = false ↔
    Text.isBlank c = false ∧ c ≠ '\n' ∧ c ≠ '\r' := by
  simp [Text.isLayoutChar, Text.isTerminator]

theorem isWordChar_of_start (h : isWordStart c = true) : isWordChar c = true := by
  unfold isWordStart at h
  unfold isWordChar
  cases hl : Text.isLetter c
  · simpa [hl, or_assoc] using Or.inr (by simpa [hl] using h)
  · simp

/-- Neither layout nor quotes nor punctuation nor operators are characters of words. -/
theorem not_wordChar_of_layoutChar (h : Text.isLayoutChar c = true) : isWordChar c = false := by
  rcases Text.isLayoutChar_iff.mp h with rfl | rfl | rfl | rfl <;> decide

theorem not_wordChar_of_literal {kind : Kind} (h : literalKind? c = some kind) :
    isWordChar c = false := by
  rcases literalKind?_cases h with ⟨rfl, -⟩ | ⟨rfl, -⟩ <;> decide

theorem not_wordChar_of_operator :
    ∀ op ∈ operators, op.head?.all (fun c => !isWordChar c) = true := by
  decide

/-- The first character of an operator begins nothing else, but for the slash of comments. -/
theorem operator_start {x : Text} (h : c :: x ∈ operators) : Text.isLayoutChar c = false ∧
    literalKind? c = none ∧ isWordStart c = false ∧ c.isDigit = false ∧ punctuation? c = none := by
  have hall : ∀ op ∈ operators, op.head?.all (fun c => decide (Text.isLayoutChar c = false ∧
      literalKind? c = none ∧ isWordStart c = false ∧ c.isDigit = false ∧
      punctuation? c = none)) = true := by
    decide
  simpa using hall _ h

/-- Two operators begin with a slash. -/
theorem slash_operator (x : Text) (h : '/' :: x ∈ operators) : x = [] ∨ x = ['='] := by
  have hall : ∀ op ∈ operators, op.head? = some '/' → op.tail = [] ∨ op.tail = ['='] := by
    decide
  exact hall _ h rfl

/-- The text of the tokens of a kind that all look alike. -/
def Kind.mark : Kind → Text
  | .leftBrace => ['\x7b']
  | .rightBrace => ['\x7d']
  | .leftParen => ['(']
  | .rightParen => [')']
  | .leftBracket => ['[']
  | .rightBracket => [']']
  | .semicolon => [';']
  | .comma => [',']
  | .dot => ['.']
  | .colon => [':']
  | _ => []

theorem mark_of_punctuation {kind : Kind} (h : punctuation? c = some kind) :
    kind.mark = [c] := by
  unfold punctuation? at h
  split at h <;> cases h <;> rfl

/-- Punctuation is no word, no layout and no comment. -/
theorem punctuation_kind {kind : Kind} (h : punctuation? c = some kind) : kind.isName = false ∧
    kind.isLayout = false ∧ kind.isComment = false ∧ kind.spansLines = false := by
  unfold punctuation? at h
  split at h <;> cases h <;> exact ⟨rfl, rfl, rfl, rfl⟩

/-- A character of punctuation begins nothing else. -/
theorem punctuation_start {kind : Kind} (h : punctuation? c = some kind) :
    Text.isLayoutChar c = false ∧ literalKind? c = none ∧ c ≠ '/' ∧ isWordChar c = false ∧
      isWordStart c = false ∧ c.isDigit = false ∧ [c] ∉ operators := by
  unfold punctuation? at h
  split at h <;> cases h <;> decide

theorem literalKind?_not_name {kind : Kind} (h : literalKind? c = some kind) :
    kind.isName = false := by
  rcases literalKind?_cases h with ⟨-, rfl⟩ | ⟨-, rfl⟩ <;> rfl

theorem not_layoutChar_of_start (h : isWordStart c = true) : Text.isLayoutChar c = false := by
  cases hl : Text.isLayoutChar c with
  | false => rfl
  | true =>
    have := not_wordChar_of_layoutChar hl
    rw [isWordChar_of_start h] at this
    cases this

theorem literalKind?_of_start (h : isWordStart c = true) : literalKind? c = none := by
  cases hl : literalKind? c with
  | none => rfl
  | some kind =>
    have := not_wordChar_of_literal hl
    rw [isWordChar_of_start h] at this
    cases this

/-- Digits lie between the code points 48 and 57. -/
theorem digit_range (h : c.isDigit = true) : 48 ≤ c.toNat ∧ c.toNat ≤ 57 := by
  simp only [Char.isDigit, Bool.and_eq_true, decide_eq_true_eq, ge_iff_le,
    UInt32.le_iff_toNat_le] at h
  exact h

theorem not_start_of_digit (h : c.isDigit = true) : isWordStart c = false := by
  have hrange := digit_range h
  have hletter : Text.isLetter c = false := by
    unfold Text.isLetter
    rw [if_pos (by omega)]
    have hupper : ¬ ('A'.val ≤ c.val ∧ c.val ≤ 'Z'.val) := by
      simp only [UInt32.le_iff_toNat_le]
      change ¬ (65 ≤ c.toNat ∧ c.toNat ≤ 90)
      omega
    have hlower : ¬ ('a'.val ≤ c.val ∧ c.val ≤ 'z'.val) := by
      simp only [UInt32.le_iff_toNat_le]
      change ¬ (97 ≤ c.toNat ∧ c.toNat ≤ 122)
      omega
    refine Bool.or_eq_false_iff.mpr ⟨decide_eq_false hupper, Bool.eq_false_iff.mpr fun hl => ?_⟩
    obtain ⟨hge, hle⟩ := Bool.and_eq_true_iff.mp hl
    exact hlower ⟨of_decide_eq_true hge, of_decide_eq_true hle⟩
  have h1 : c ≠ '_' := by rintro rfl; cases h
  have h2 : c ≠ '$' := by rintro rfl; cases h
  simp [isWordStart, hletter, h1, h2]

theorem isWordChar_of_digit (h : c.isDigit = true) : isWordChar c = true := by
  have hnum : Text.isNumeric c = true := by
    unfold Text.isNumeric
    rw [if_pos (by have := digit_range h; omega)]
    exact h
  simp [isWordChar, hnum]

theorem not_layoutChar_of_wordChar (h : isWordChar c = true) : Text.isLayoutChar c = false := by
  cases hl : Text.isLayoutChar c with
  | false => rfl
  | true =>
    rw [not_wordChar_of_layoutChar hl] at h
    cases h

/-! ## 2. The rules -/

/-- **The text `t.text ++ rest` begins with the token `t`.** Each rule says what a token of its kind
    looks like and what may not follow it. -/
inductive Reads (dialect : Dialect) : Token → Text → Prop
  /-- All the blanks there are. -/
  | blanks {x rest : Text} (ne : x ≠ []) (all : ∀ c ∈ x, Text.isBlank c = true)
      (stop : ∀ c ∈ rest.head?, Text.isBlank c = false) : Reads dialect ⟨.whitespace, x⟩ rest
  /-- One terminator, and a pair is not cut. -/
  | lineEnd {nl rest : Text} (terminator : LineEnd nl)
      (whole : nl = ['\r'] → rest.head? ≠ some '\n') : Reads dialect ⟨.newline, nl⟩ rest
  | lineComment {x rest : Text} (oneLine : Text.OneLine x)
      (stop : ∀ c ∈ rest.head?, Text.isTerminator c = true) :
      Reads dialect ⟨.lineComment, '/' :: '/' :: x⟩ rest
  | blockComment {x rest : Text} (reach : throughClose (x ++ rest) = x) :
      Reads dialect ⟨.blockComment, '/' :: '*' :: x⟩ rest
  | literal {quote : Char} {kind : Kind} {x rest : Text} (opens : literalKind? quote = some kind)
      (reach : throughQuote quote (x ++ rest) = x) : Reads dialect ⟨kind, quote :: x⟩ rest
  | word {c : Char} {x rest : Text} (start : isWordStart c = true)
      (all : ∀ y ∈ x, isWordChar y = true) (stop : ∀ y ∈ rest.head?, isWordChar y = false) :
      Reads dialect ⟨wordKind dialect (c :: x), c :: x⟩ rest
  | number {c : Char} {x rest : Text} (start : c.isDigit = true)
      (all : ∀ y ∈ x, isWordChar y = true) (stop : ∀ y ∈ rest.head?, isWordChar y = false) :
      Reads dialect ⟨.number, c :: x⟩ rest
  | mark {c : Char} {kind : Kind} {rest : Text} (isMark : punctuation? c = some kind) :
      Reads dialect ⟨kind, [c]⟩ rest
  /-- The longest operator, and no slash that opens a comment. -/
  | operator {op rest : Text} (longest : operatorAt? (op ++ rest) = some op)
      (noComment : op = ['/'] → ∀ c ∈ rest.head?, c ≠ '/' ∧ c ≠ '*') :
      Reads dialect ⟨.operator, op⟩ rest
  | stray {c : Char} {rest : Text} (isStray : isStray c = true) : Reads dialect ⟨.other, [c]⟩ rest

/-! ## 3. The rules are what `lead` computes -/

/-- Where neither layout nor a literal nor a comment begins. -/
theorem lead_plain (hl : Text.isLayoutChar c = false) (hq : literalKind? c = none)
    (hs : c = '/' → rest.head? ≠ some '/' ∧ rest.head? ≠ some '*') :
    lead d c rest =
      if isWordStart c then
        ⟨wordKind d (c :: rest.takeWhile isWordChar), c :: rest.takeWhile isWordChar⟩
      else if c.isDigit then ⟨.number, c :: rest.takeWhile isWordChar⟩
      else match punctuation? c with
        | some kind => ⟨kind, [c]⟩
        | none => match operatorAt? (c :: rest) with
          | some op => ⟨.operator, op⟩
          | none => ⟨.other, [c]⟩ := by
  obtain ⟨hb, hn, hr⟩ := not_layoutChar_iff.mp hl
  obtain ⟨hd, ha⟩ := literalKind?_eq_none hq
  have hline : ¬ ((c == '/' && rest.head? == some '/') = true) := by
    simpa using fun e => (hs e).1
  have hblock : ¬ ((c == '/' && rest.head? == some '*') = true) := by
    simpa using fun e => (hs e).2
  unfold lead
  rw [if_neg (by simp [hb]), if_neg (by simpa using hn), if_neg (by simpa using hr), if_neg hline,
    if_neg hblock, if_neg (by simpa using hd), if_neg (by simpa using ha)]
  rfl

theorem takeWhile_append_stop {α : Type} {p : α → Bool} {x rest : List α} (hx : ∀ y ∈ x, p y = true)
    (hrest : ∀ y ∈ rest.head?, p y = false) : (x ++ rest).takeWhile p = x := by
  rw [List.takeWhile_append_of_pos hx]
  cases rest with
  | nil => simp
  | cons y rest =>
    rw [List.takeWhile_cons_of_neg (by simp [hrest y rfl]), List.append_nil]

/-- **What the rules say is what `lead` finds.** -/
theorem Reads.lead_eq (h : Reads d t rest) {r : Text} (e : t.text ++ rest = c :: r) :
    lead d c r = t := by
  cases h with
  | @blanks x _ ne all stop =>
    cases x with
    | nil => exact absurd rfl ne
    | cons b x =>
      obtain ⟨rfl, rfl⟩ := List.cons.inj e
      have htake := takeWhile_append_stop (fun y hy => all y (List.mem_cons_of_mem _ hy)) stop
      unfold lead
      rw [if_pos (all b List.mem_cons_self)]
      exact congrArg (fun u => (⟨.whitespace, b :: u⟩ : Token)) htake
  | lineEnd terminator whole =>
    cases terminator with
    | feed => cases e; rfl
    | returnFeed => cases e; rfl
    | carriageReturn =>
      obtain ⟨rfl, rfl⟩ := List.cons.inj e
      have hhead : (rest.head? == some '\n') = false := by simpa using whole rfl
      simp [lead, Text.isBlank, hhead]
  | @lineComment x _ oneLine stop =>
    obtain ⟨rfl, rfl⟩ := List.cons.inj e
    have hx : ∀ y ∈ '/' :: x, (!Text.isTerminator y) = true := by
      intro y hy
      rcases List.mem_cons.mp hy with rfl | hy
      · rfl
      · simp [oneLine y hy]
    have htake := takeWhile_append_stop hx (by simpa using stop)
    unfold lead
    rw [if_neg (by decide), if_neg (by decide), if_neg (by decide), if_pos (by simp)]
    exact congrArg (fun u => (⟨.lineComment, '/' :: u⟩ : Token)) htake
  | blockComment reach =>
    obtain ⟨rfl, rfl⟩ := List.cons.inj e
    unfold lead
    rw [if_neg (by decide), if_neg (by decide), if_neg (by decide), if_neg (by simp),
      if_pos (by simp)]
    exact congrArg (fun u => (⟨.blockComment, '/' :: '*' :: u⟩ : Token)) reach
  | literal opens reach =>
    obtain ⟨rfl, rfl⟩ := List.cons.inj e
    rcases literalKind?_cases opens with ⟨rfl, rfl⟩ | ⟨rfl, rfl⟩
    · exact congrArg (fun u => (⟨.string, '"' :: u⟩ : Token)) reach
    · exact congrArg (fun u => (⟨.character, '\x27' :: u⟩ : Token)) reach
  | @word b x _ start all stop =>
    obtain ⟨rfl, rfl⟩ := List.cons.inj e
    have hslash : b ≠ '/' := by rintro rfl; cases start
    have htake := takeWhile_append_stop all stop
    rw [lead_plain (not_layoutChar_of_start start) (literalKind?_of_start start)
      (fun e => absurd e hslash), if_pos start]
    exact congrArg (fun u => (⟨wordKind d (b :: u), b :: u⟩ : Token)) htake
  | @number b x _ start all stop =>
    obtain ⟨rfl, rfl⟩ := List.cons.inj e
    have hlayout := not_layoutChar_of_wordChar (isWordChar_of_digit start)
    have hslash : b ≠ '/' := by rintro rfl; cases start
    have hquote : literalKind? b = none := by
      cases hq : literalKind? b with
      | none => rfl
      | some kind =>
        rcases literalKind?_cases hq with ⟨rfl, -⟩ | ⟨rfl, -⟩ <;> cases start
    have htake := takeWhile_append_stop all stop
    rw [lead_plain hlayout hquote (fun e => absurd e hslash),
      if_neg (by simp [not_start_of_digit start]), if_pos start]
    exact congrArg (fun u => (⟨.number, b :: u⟩ : Token)) htake
  | mark isMark =>
    obtain ⟨rfl, rfl⟩ := List.cons.inj e
    obtain ⟨hl, hq, hslash, -, hw, hd, -⟩ := punctuation_start isMark
    change lead d _ rest = _
    rw [lead_plain hl hq (fun e => absurd e hslash), if_neg (by simp [hw]), if_neg (by simp [hd]),
      isMark]
  | @operator op _ longest noComment =>
    obtain ⟨hop, -, -⟩ := operatorAt?_spec longest
    obtain ⟨b, x, rfl⟩ := List.exists_cons_of_ne_nil (operator_ne_nil hop)
    obtain ⟨rfl, rfl⟩ := List.cons.inj e
    obtain ⟨hl, hq, hw, hd, hp⟩ := operator_start hop
    have hslash : b = '/' → (x ++ rest).head? ≠ some '/' ∧ (x ++ rest).head? ≠ some '*' := by
      rintro rfl
      rcases slash_operator x hop with rfl | rfl
      · exact ⟨fun e => (noComment rfl _ e).1 rfl, fun e => (noComment rfl _ e).2 rfl⟩
      · exact ⟨by simp, by simp⟩
    have hat : operatorAt? (b :: (x ++ rest)) = some (b :: x) := longest
    change lead d b (x ++ rest) = _
    rw [lead_plain hl hq hslash, if_neg (by simp [hw]), if_neg (by simp [hd]), hp]
    simp [hat]
  | stray hstray =>
    obtain ⟨rfl, rfl⟩ := List.cons.inj e
    simp only [isStray, Bool.and_eq_true, Bool.not_eq_true', Option.isNone_iff_eq_none] at hstray
    obtain ⟨⟨⟨⟨⟨hl, hq⟩, hw⟩, hd⟩, hp⟩, ho⟩ := hstray
    rename_i b
    have hslash : b ≠ '/' := by rintro rfl; cases ho
    rw [lead_plain hl hq (fun e => absurd e hslash), if_neg (by simp [hw]), if_neg (by simp [hd]), hp]
    simp [operatorAt?_eq_none_iff.mpr (by simpa using ho)]

/-- A text that a scan stops in goes on with what stopped it. -/
theorem takeWhile_rest (p : Char → Bool) (x : Text) :
    ∃ rest, x.takeWhile p ++ rest = x ∧ ∀ y ∈ rest.head?, p y = false := by
  refine ⟨x.dropWhile p, List.takeWhile_append_dropWhile, fun y hy => ?_⟩
  have := List.head?_dropWhile_not p x
  rw [Option.mem_def.mp hy] at this
  simpa using this

/-- Where layout begins. -/
theorem exists_reads_layout (d : Dialect) (hl : Text.isLayoutChar c = true) (r : Text) :
    ∃ rest, (lead d c r).text ++ rest = c :: r ∧ Reads d (lead d c r) rest := by
  unfold lead
  by_cases hb : Text.isBlank c = true
  · rw [if_pos hb]
    obtain ⟨rest, e, stop⟩ := takeWhile_rest Text.isBlank r
    refine ⟨rest, congrArg (c :: ·) e, .blanks (by simp) (fun y hy => ?_) stop⟩
    rcases List.mem_cons.mp hy with rfl | hy
    · exact hb
    · exact List.mem_takeWhile_imp hy
  rw [if_neg hb]
  have hterm : Text.isTerminator c = true := (Bool.or_eq_true_iff.mp hl).resolve_left hb
  rcases Text.isTerminator_iff.mp hterm with rfl | rfl
  · exact ⟨r, rfl, .lineEnd .feed (fun e => absurd e (by decide))⟩
  · rw [if_neg (by decide), if_pos (by rfl)]
    by_cases hrf : (r.head? == some '\n') = true
    · rw [if_pos hrf]
      obtain ⟨x, rfl⟩ := List.head?_eq_some_iff.mp (beq_iff_eq.mp hrf)
      exact ⟨x, rfl, .lineEnd .returnFeed (fun e => absurd e (by decide))⟩
    · rw [if_neg hrf]
      exact ⟨r, rfl, .lineEnd .carriageReturn (fun _ e => hrf (beq_iff_eq.mpr e))⟩

/-- Where a comment begins. -/
theorem exists_reads_comment (d : Dialect) {r : Text}
    (h : r.head? = some '/' ∨ r.head? = some '*') :
    ∃ rest, (lead d '/' r).text ++ rest = '/' :: r ∧ Reads d (lead d '/' r) rest := by
  unfold lead
  rw [if_neg (by decide), if_neg (by decide), if_neg (by decide)]
  rcases h with h | h
  · obtain ⟨x, rfl⟩ := List.head?_eq_some_iff.mp h
    obtain ⟨rest, e, stop⟩ := takeWhile_rest (fun x => !Text.isTerminator x) x
    rw [if_pos (by simp), List.takeWhile_cons_of_pos (by decide)]
    refine ⟨rest, congrArg (fun u => '/' :: '/' :: u) e, .lineComment (fun y hy => ?_) ?_⟩
    · simpa using List.mem_takeWhile_imp hy
    · simpa using stop
  · obtain ⟨x, rfl⟩ := List.head?_eq_some_iff.mp h
    obtain ⟨rest, e⟩ := prefix_throughClose x
    rw [if_neg (by simp), if_pos (by simp)]
    exact ⟨rest, congrArg (fun u => '/' :: '*' :: u) e, .blockComment (by rw [List.tail_cons, e])⟩

/-- Where a literal begins. -/
theorem exists_reads_literal (d : Dialect) {kind : Kind} (h : literalKind? c = some kind)
    (r : Text) :
    ∃ rest, (lead d c r).text ++ rest = c :: r ∧ Reads d (lead d c r) rest := by
  obtain ⟨rest, e⟩ := prefix_throughQuote c r
  rcases literalKind?_cases h with ⟨rfl, rfl⟩ | ⟨rfl, rfl⟩
  · exact ⟨rest, congrArg ('"' :: ·) e, .literal rfl (by rw [e])⟩
  · exact ⟨rest, congrArg ('\x27' :: ·) e, .literal rfl (by rw [e])⟩

/-- Where neither layout nor a literal nor a comment begins. -/
theorem exists_reads_plain (d : Dialect) {r : Text} (hl : Text.isLayoutChar c = false)
    (hq : literalKind? c = none) (hs : c = '/' → r.head? ≠ some '/' ∧ r.head? ≠ some '*') :
    ∃ rest, (lead d c r).text ++ rest = c :: r ∧ Reads d (lead d c r) rest := by
  rw [lead_plain hl hq hs]
  by_cases hw : isWordStart c = true
  · rw [if_pos hw]
    obtain ⟨rest, e, stop⟩ := takeWhile_rest isWordChar r
    exact ⟨rest, congrArg (c :: ·) e, .word hw (fun y hy => List.mem_takeWhile_imp hy) stop⟩
  rw [if_neg hw]
  by_cases hg : c.isDigit = true
  · rw [if_pos hg]
    obtain ⟨rest, e, stop⟩ := takeWhile_rest isWordChar r
    exact ⟨rest, congrArg (c :: ·) e, .number hg (fun y hy => List.mem_takeWhile_imp hy) stop⟩
  rw [if_neg hg]
  cases hp : punctuation? c with
  | some kind => exact ⟨r, rfl, .mark hp⟩
  | none =>
    cases ho : operatorAt? (c :: r) with
    | some op =>
      obtain ⟨-, ⟨rest, e⟩, -⟩ := operatorAt?_spec ho
      refine ⟨rest, e, .operator (by rw [e]; exact ho) ?_⟩
      rintro rfl y hy
      obtain ⟨rfl, rfl⟩ := List.cons.inj e
      obtain ⟨hline, hblock⟩ := hs rfl
      exact ⟨fun ey => hline (ey ▸ hy), fun ey => hblock (ey ▸ hy)⟩
    | none =>
      have hop := operatorAt?_eq_none_iff.mp ho
      refine ⟨r, rfl, .stray ?_⟩
      simp [isStray, hl, hq, hw, hg, hp, hop]

/-- **What `lead` finds is what the rules say.** -/
theorem exists_reads (d : Dialect) (c : Char) (r : Text) :
    ∃ rest, (lead d c r).text ++ rest = c :: r ∧ Reads d (lead d c r) rest := by
  cases hl : Text.isLayoutChar c with
  | true => exact exists_reads_layout d hl r
  | false =>
    cases hq : literalKind? c with
    | some kind => exact exists_reads_literal d hq r
    | none =>
      by_cases hcomment : c = '/' ∧ (r.head? = some '/' ∨ r.head? = some '*')
      · obtain ⟨rfl, hhead⟩ := hcomment
        exact exists_reads_comment d hhead
      · exact exists_reads_plain d hl hq fun e => not_or.mp fun hhead => hcomment ⟨e, hhead⟩

/-! ## 4. Tokens of a text -/

theorem Reads.text_ne_nil (h : Reads d t rest) : t.text ≠ [] := by
  cases h with
  | blanks ne _ _ => exact ne
  | lineEnd terminator _ => exact terminator.ne_nil
  | operator longest _ => exact operator_ne_nil (operatorAt?_spec longest).1
  | _ => simp

theorem wordKind_cases (d : Dialect) (x : Text) :
    wordKind d x = .keyword ∨ wordKind d x = .identifier := by
  unfold wordKind
  split
  · exact Or.inl rfl
  · exact Or.inr rfl

/-- A token that is layout is a run of blanks or a terminator. -/
theorem Reads.layout_cases (h : Reads d t rest) (hl : t.kind.isLayout = true) :
    (t.kind = .whitespace ∧ t.text ≠ [] ∧ (∀ c ∈ t.text, Text.isBlank c = true) ∧
      ∀ c ∈ rest.head?, Text.isBlank c = false) ∨
    (t.kind = .newline ∧ LineEnd t.text ∧ (t.text = ['\r'] → rest.head? ≠ some '\n')) := by
  cases h with
  | blanks ne all stop => exact Or.inl ⟨rfl, ne, all, stop⟩
  | lineEnd terminator whole => exact Or.inr ⟨rfl, terminator, whole⟩
  | literal opens _ => rcases literalKind?_cases opens with ⟨-, rfl⟩ | ⟨-, rfl⟩ <;> cases hl
  | @word c x _ _ _ _ => rcases wordKind_cases d (c :: x) with e | e <;> rw [e] at hl <;> cases hl
  | mark isMark =>
    rw [(punctuation_kind isMark).2.1] at hl
    cases hl
  | _ => cases hl

/-- A token that may span lines is a comment or a literal. -/
theorem Reads.comment_or_literal (h : Reads d t rest) (hs : t.kind.spansLines = true) :
    (∃ x, t = ⟨.blockComment, '/' :: '*' :: x⟩ ∧ throughClose (x ++ rest) = x) ∨
    ∃ quote kind x, literalKind? quote = some kind ∧ t = ⟨kind, quote :: x⟩ ∧
      throughQuote quote (x ++ rest) = x := by
  cases h with
  | blockComment reach => exact Or.inl ⟨_, rfl, reach⟩
  | literal opens reach => exact Or.inr ⟨_, _, _, opens, rfl, reach⟩
  | @word c x _ _ _ _ => rcases wordKind_cases d (c :: x) with e | e <;> rw [e] at hs <;> cases hs
  | mark isMark =>
    rw [(punctuation_kind isMark).2.2.2] at hs
    cases hs
  | _ => cases hs

/-- Tokens that are layout hold nothing else. -/
theorem Reads.layout (h : Reads d t rest) (hl : t.kind.isLayout = true) :
    ∀ c ∈ t.text, Text.isLayoutChar c = true := by
  rcases h.layout_cases hl with ⟨-, -, all, -⟩ | ⟨-, terminator, -⟩
  · exact fun c hc => Text.isLayoutChar_of_isBlank (all c hc)
  · exact terminator.layout

theorem tokenizeFrom_eq (d : Dialect) : ∀ (skip : Nat) (x : Text),
    tokenizeFrom d skip x = tokenize d (x.drop skip)
  | 0, _ => rfl
  | _ + 1, [] => rfl
  | skip + 1, _ :: x => tokenizeFrom_eq d skip x

@[simp] theorem tokenize_nil (d : Dialect) : tokenize d [] = [] := rfl

/-- **A text that begins with a token is that token and the tokens of the rest.** -/
theorem tokenize_append (h : Reads d t rest) :
    tokenize d (t.text ++ rest) = t :: tokenize d rest := by
  obtain ⟨c, x, e⟩ := List.exists_cons_of_ne_nil h.text_ne_nil
  have hlead : lead d c (x ++ rest) = t := h.lead_eq (by rw [e]; rfl)
  have hstep : tokenize d (c :: (x ++ rest)) =
      t :: tokenizeFrom d (t.text.length - 1) (x ++ rest) := by
    unfold tokenize
    rw [tokenizeFrom, hlead]
  rw [e, List.cons_append, hstep, tokenizeFrom_eq, e]
  simp

/-- **Every text is built token by token.** -/
theorem text_induction (d : Dialect) {P : Text → Prop} (nil : P [])
    (step : ∀ t rest, Reads d t rest → P rest → P (t.text ++ rest)) : ∀ x, P x := by
  intro x
  -- the length decreases because no token is empty
  induction hn : x.length using Nat.strong_induction_on generalizing x with
  | _ n ih =>
    cases x with
    | nil => exact nil
    | cons c r =>
      obtain ⟨rest, e, h⟩ := exists_reads d c r
      rw [← e]
      refine step _ rest h (ih rest.length ?_ rest rfl)
      have hpos := List.length_pos_iff.mpr h.text_ne_nil
      rw [← hn, ← e, List.length_append]
      omega

/-- The tokens of a text are the text. -/
theorem joined_tokenize (d : Dialect) (x : Text) : Token.joined (tokenize d x) = x := by
  induction x using text_induction d with
  | nil => rfl
  | step t rest h ih =>
    rw [tokenize_append h]
    exact congrArg (t.text ++ ·) ih

theorem significant_cons (t : Token) (ts : List Token) : Token.significant (t :: ts) =
    if t.kind.isLayout then Token.significant ts else t :: Token.significant ts := by
  unfold Token.significant
  cases h : t.kind.isLayout <;> simp [h]

theorem significant_tokenize_append (h : Reads d t rest) :
    Token.significant (tokenize d (t.text ++ rest)) =
      if t.kind.isLayout then Token.significant (tokenize d rest)
      else t :: Token.significant (tokenize d rest) := by
  rw [tokenize_append h, significant_cons]

/-! ## 5. Tokens in a row -/

/-- A token that some text begins with and goes on behind. Nothing behind it can change it. -/
def Complete (d : Dialect) (t : Token) : Prop := ∃ rest, rest ≠ [] ∧ Reads d t rest

/-- **Tokens as a text has them**: none is layout, each begins some text, and behind all but the
    last of them the text goes on. -/
inductive Legible (d : Dialect) : List Token → Prop
  | nil : Legible d []
  | last {t : Token} {rest : Text} (visible : t.kind.isLayout = false) (reads : Reads d t rest) :
      Legible d [t]
  | cons {t u : Token} {ts : List Token} (visible : t.kind.isLayout = false)
      (complete : Complete d t) (tail : Legible d (u :: ts)) : Legible d (t :: u :: ts)

theorem legible_significant (d : Dialect) (x : Text) :
    Legible d (Token.significant (tokenize d x)) := by
  induction x using text_induction d with
  | nil => exact .nil
  | step t rest h ih =>
    rw [significant_tokenize_append h]
    cases hl : t.kind.isLayout with
    | true => exact ih
    | false =>
      cases hs : Token.significant (tokenize d rest) with
      | nil => exact .last hl h
      | cons u ts =>
        refine .cons hl ⟨rest, ?_, h⟩ (hs ▸ ih)
        rintro rfl
        cases hs

theorem Legible.head (h : Legible d (t :: ts)) :
    t.kind.isLayout = false ∧ ∃ rest, Reads d t rest := by
  cases h with
  | last visible reads => exact ⟨visible, _, reads⟩
  | cons visible complete _ =>
    obtain ⟨rest, -, reads⟩ := complete
    exact ⟨visible, rest, reads⟩

theorem Legible.tail (h : Legible d (t :: ts)) : Legible d ts := by
  cases h with
  | last => exact .nil
  | cons _ _ tail => exact tail

/-! ## 6. Another dialect -/

/-- The token as another dialect has it: keywords and identifiers may change places. -/
def Token.inDialect (d : Dialect) (t : Token) : Token :=
  if t.kind.isName then ⟨wordKind d t.text, t.text⟩ else t

theorem wordKind_isName (d : Dialect) (x : Text) : (wordKind d x).isName = true := by
  rcases wordKind_cases d x with e | e <;> rw [e] <;> rfl

theorem Reads.inDialect (h : Reads d t rest) (d' : Dialect) : Reads d' (t.inDialect d') rest := by
  cases h with
  | word start all stop =>
    unfold Token.inDialect
    rw [if_pos (wordKind_isName d _)]
    exact .word start all stop
  | blanks ne all stop => exact .blanks ne all stop
  | lineEnd terminator whole => exact .lineEnd terminator whole
  | lineComment oneLine stop => exact .lineComment oneLine stop
  | blockComment reach => exact .blockComment reach
  | literal opens reach =>
    unfold Token.inDialect
    rw [if_neg (by simp [literalKind?_not_name opens])]
    exact .literal opens reach
  | number start all stop => exact .number start all stop
  | mark isMark =>
    unfold Token.inDialect
    rw [if_neg (by simp [(punctuation_kind isMark).1])]
    exact .mark isMark
  | operator longest noComment => exact .operator longest noComment
  | stray hstray => exact .stray hstray

theorem inDialect_text (d : Dialect) (t : Token) : (t.inDialect d).text = t.text := by
  unfold Token.inDialect
  split <;> rfl

theorem inDialect_isLayout (d : Dialect) (t : Token) :
    (t.inDialect d).kind.isLayout = t.kind.isLayout := by
  unfold Token.inDialect
  split
  · rename_i hname
    have hk : t.kind = .identifier ∨ t.kind = .keyword := by
      cases hk : t.kind <;> rw [hk] at hname <;> simp [Kind.isName] at hname ⊢
    rcases wordKind_cases d t.text with e | e <;> rcases hk with hk | hk <;> rw [e, hk] <;> rfl
  · rfl

/-- **Where tokens begin and end does not depend on the dialect.** -/
theorem tokenize_inDialect (d d' : Dialect) (x : Text) :
    tokenize d' x = (tokenize d x).map (Token.inDialect d') := by
  induction x using text_induction d with
  | nil => rfl
  | step t rest h ih =>
    rw [tokenize_append h, List.map_cons, ← ih, ← tokenize_append (h.inDialect d'), inDialect_text]

end RebecaLayout
