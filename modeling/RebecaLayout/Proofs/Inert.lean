import RebecaLayout.Proofs.Evidence

/-!
Characters that the layout copies and never asks about.

* `isInert` -- a character that begins no token and continues no word, and that neither lines nor
  literals look for;
* `mask k` -- the character `k` in place of an inert one;
* `Reads.masked`, `tokenize_mask` -- the tokens of a masked text are its tokens, masked;
* `rendered_mask`, `formatSource_mask`, `formatRegion_mask` -- **the layout of a masked text is its
  layout, masked**: texts that differ in inert characters alone are laid out alike.
-/

namespace RebecaLayout

variable {c k : Char} {x rest : Text} {d : Dialect} {t : Token}

/-! ## 1. Characters -/

/-- A character that the layout only copies: it begins no token but itself, continues no word, and is
    neither white space nor the backslash of literals. -/
def isInert (c : Char) : Bool := isStray c && !isWordChar c && !Text.isSpace c && c != '\\'

/-- The character `k` in place of one that is inert. -/
def mask (k c : Char) : Char := if isInert c then k else c

theorem isInert_iff : isInert c = true ↔
    isStray c = true ∧ isWordChar c = false ∧ Text.isSpace c = false ∧ c ≠ '\\' := by
  simp [isInert, and_assoc]

theorem not_inert_of_not_stray (h : isStray c = false) : isInert c = false := by
  simp [isInert, h]

theorem not_inert_of_isSpace (h : Text.isSpace c = true) : isInert c = false := by
  simp [isInert, h]

theorem not_inert_of_layoutChar (h : Text.isLayoutChar c = true) : isInert c = false :=
  not_inert_of_isSpace (Text.isSpace_of_isLayoutChar h)

theorem not_inert_of_wordChar (h : isWordChar c = true) : isInert c = false := by
  simp [isInert, h]

theorem not_inert_of_literal {kind : Kind} (h : literalKind? c = some kind) : isInert c = false :=
  not_inert_of_not_stray (by simp [isStray, h])

theorem not_inert_of_operator {op : Text} (hop : op ∈ operators) (hc : c ∈ op) :
    isInert c = false := by
  have hall : ∀ op ∈ operators, op.all (fun c => operators.contains [c]) = true := by decide
  have hone : [c] ∈ operators := List.contains_iff_mem.mp (List.all_eq_true.mp (hall op hop) c hc)
  exact not_inert_of_not_stray (by simp [isStray, hone])

theorem not_inert_slash : isInert '/' = false :=
  not_inert_of_operator (List.mem_of_elem_eq_true (by decide) : ['/'] ∈ operators) (by simp)

theorem not_inert_star : isInert '*' = false :=
  not_inert_of_operator (List.mem_of_elem_eq_true (by decide) : ['*'] ∈ operators) (by simp)

theorem mask_eq_self (h : isInert c = false) : mask k c = c := by
  unfold mask
  rw [h, if_neg Bool.false_ne_true]

theorem isInert_mask (hk : isInert k = true) (c : Char) : isInert (mask k c) = isInert c := by
  unfold mask
  cases h : isInert c with
  | true => rw [if_pos rfl, hk]
  | false => rw [if_neg Bool.false_ne_true, h]

/-- **A set without inert characters does not see a mask.** -/
theorem apply_mask (hk : isInert k = true) {p : Char → Bool}
    (hp : ∀ c, p c = true → isInert c = false) (c : Char) : p (mask k c) = p c := by
  have hnot : ∀ c, isInert c = true → p c = false := by
    intro c hc
    cases h : p c with
    | true => rw [hp c h] at hc; cases hc
    | false => rfl
  cases h : isInert c with
  | true => rw [hnot c h, hnot _ ((isInert_mask hk c).trans h)]
  | false => rw [mask_eq_self h]

theorem mask_eq_iff (hk : isInert k = true) {a : Char} (ha : isInert a = false) :
    mask k c = a ↔ c = a := by
  have hsame := apply_mask hk (p := (· == a)) (fun c hc => by rw [beq_iff_eq.mp hc, ha]) c
  rw [← beq_iff_eq, hsame, beq_iff_eq]

theorem isSpace_mask (hk : isInert k = true) (c : Char) :
    Text.isSpace (mask k c) = Text.isSpace c :=
  apply_mask hk (fun _ => not_inert_of_isSpace) c

theorem isLayoutChar_mask (hk : isInert k = true) (c : Char) :
    Text.isLayoutChar (mask k c) = Text.isLayoutChar c :=
  apply_mask hk (fun _ => not_inert_of_layoutChar) c

theorem isBlank_mask (hk : isInert k = true) (c : Char) :
    Text.isBlank (mask k c) = Text.isBlank c :=
  apply_mask hk (fun _ h => not_inert_of_layoutChar (Text.isLayoutChar_of_isBlank h)) c

theorem isTerminator_mask (hk : isInert k = true) (c : Char) :
    Text.isTerminator (mask k c) = Text.isTerminator c :=
  apply_mask hk (fun _ h => not_inert_of_layoutChar (Text.isLayoutChar_of_isTerminator h)) c

theorem isWordChar_mask (hk : isInert k = true) (c : Char) :
    isWordChar (mask k c) = isWordChar c :=
  apply_mask hk (fun _ => not_inert_of_wordChar) c

/-! ## 2. Texts -/

theorem map_mask_eq_self (h : ∀ c ∈ x, isInert c = false) : x.map (mask k) = x := by
  rw [List.map_congr_left fun c hc => mask_eq_self (h c hc), List.map_id']

theorem map_mask_of_layout (h : ∀ c ∈ x, Text.isLayoutChar c = true) : x.map (mask k) = x :=
  map_mask_eq_self fun c hc => not_inert_of_layoutChar (h c hc)

/-- What the next character is, unless it is inert, a mask does not hide. -/
theorem head?_mask_iff (hk : isInert k = true) {a : Char} (ha : isInert a = false) :
    (x.map (mask k)).head? = some a ↔ x.head? = some a := by
  cases x with
  | nil => rfl
  | cons c x => simp [mask_eq_iff hk ha]

theorem forall_head?_mask {p : Char → Bool} (hp : ∀ c, p (mask k c) = p c) {b : Bool}
    (h : ∀ c ∈ x.head?, p c = b) : ∀ c ∈ (x.map (mask k)).head?, p c = b := by
  intro c hc
  rw [List.head?_map] at hc
  obtain ⟨a, ha, rfl⟩ := Option.map_eq_some_iff.mp hc
  exact (hp a).trans (h a ha)

theorem dropWhile_mask {p : Char → Bool} (hp : ∀ c, p (mask k c) = p c) (x : Text) :
    (x.map (mask k)).dropWhile p = (x.dropWhile p).map (mask k) := by
  have hcomp : p ∘ mask k = p := funext hp
  rw [List.dropWhile_map, hcomp]

theorem trimEnd_mask {p : Char → Bool} (hp : ∀ c, p (mask k c) = p c) (x : Text) :
    Text.trimEnd p (x.map (mask k)) = (Text.trimEnd p x).map (mask k) := by
  unfold Text.trimEnd
  rw [← List.map_reverse, dropWhile_mask hp, List.map_reverse]

theorem trim_mask {p : Char → Bool} (hp : ∀ c, p (mask k c) = p c) (x : Text) :
    Text.trim p (x.map (mask k)) = (Text.trim p x).map (mask k) := by
  unfold Text.trim Text.trimStart
  rw [dropWhile_mask hp, trimEnd_mask hp]

/-- The lines of a masked text. -/
theorem splitLines_mask (hk : isInert k = true) (x : Text) :
    Text.splitLines (x.map (mask k)) = (Text.splitLines x).map (List.map (mask k)) := by
  fun_induction Text.splitLines x with
  | case1 => rfl
  | case2 rest ih =>
    rw [List.map_cons, List.map_cons, mask_eq_self (by decide), mask_eq_self (by decide),
      Text.splitLines_returnFeed, ih]
    rfl
  | case3 c rest hpair hc ih =>
    have hc' : mask k c = c :=
      mask_eq_self (not_inert_of_layoutChar (Text.isLayoutChar_of_isTerminator hc))
    -- the mask makes no pair of a return: a feed behind it was one before
    have hnext : c = '\r' → (rest.map (mask k)).head? ≠ some '\n' := by
      intro e h
      obtain ⟨y, rfl⟩ := List.head?_eq_some_iff.mp ((head?_mask_iff hk (by decide)).mp h)
      exact hpair y e rfl
    rw [List.map_cons, hc', Text.splitLines_terminator hc hnext, ih]
    rfl
  | case4 c rest _ hc ih =>
    have hc' : Text.isTerminator (mask k c) = false := by
      rw [isTerminator_mask hk]
      simpa using hc
    rw [List.map_cons, Text.splitLines_cons hc', ih]
    obtain ⟨first, further, e⟩ := Text.exists_splitLines rest
    rw [e]
    rfl

theorem firstTerminator?_mask (hk : isInert k = true) (x : Text) :
    Text.firstTerminator? (x.map (mask k)) = Text.firstTerminator? x := by
  fun_induction Text.firstTerminator? x with
  | case1 => rfl
  | case2 rest =>
    rw [List.map_cons, List.map_cons, mask_eq_self (by decide), mask_eq_self (by decide)]
    rfl
  | case3 c rest hpair hc =>
    have hc' : mask k c = c :=
      mask_eq_self (not_inert_of_layoutChar (Text.isLayoutChar_of_isTerminator hc))
    rw [List.map_cons, hc', Text.firstTerminator?, if_pos hc]
    intro y e h
    have hhead : (rest.map (mask k)).head? = some '\n' := by rw [h]; rfl
    obtain ⟨z, rfl⟩ := List.head?_eq_some_iff.mp ((head?_mask_iff hk (by decide)).mp hhead)
    exact hpair z e rfl
  | case4 c rest _ hc ih =>
    have hc' : ¬ Text.isTerminator (mask k c) = true := by rwa [isTerminator_mask hk]
    rw [List.map_cons, Text.firstTerminator?, if_neg hc', ih]
    intro y e h
    rw [e] at hc'
    exact hc' rfl

/-! ## 3. Tokens -/

theorem throughClose_mask (hk : isInert k = true) (x : Text) :
    throughClose (x.map (mask k)) = (throughClose x).map (mask k) := by
  have hstar := not_inert_star
  have hslash := not_inert_slash
  fun_induction throughClose x with
  | case1 => rfl
  | case2 rest =>
    rw [List.map_cons, List.map_cons, mask_eq_self hstar, mask_eq_self hslash, throughClose,
      List.map_cons, List.map_cons, mask_eq_self hstar, mask_eq_self hslash]
    rfl
  | case3 c rest hclose ih =>
    have hnext : mask k c = '*' → (rest.map (mask k)).head? ≠ some '/' := by
      intro e h
      obtain ⟨y, rfl⟩ := List.head?_eq_some_iff.mp ((head?_mask_iff hk hslash).mp h)
      exact hclose y ((mask_eq_iff hk hstar).mp e) rfl
    rw [List.map_cons, throughClose_cons hnext, ih]
    rfl

theorem throughQuote_mask (hk : isInert k = true) {quote : Char} (hq : isInert quote = false)
    (x : Text) : throughQuote quote (x.map (mask k)) = (throughQuote quote x).map (mask k) := by
  have hback : isInert '\\' = false := by simp [isInert]
  fun_induction throughQuote quote x with
  | case1 => rfl
  | case2 =>
    rw [List.map_singleton, mask_eq_self hback]
    rfl
  | case3 c rest ih =>
    rw [List.map_cons, List.map_cons, mask_eq_self hback, throughQuote, ih, List.map_cons,
      List.map_cons, mask_eq_self hback]
  | case4 c rest hlone hpair hc =>
    rw [List.map_cons, beq_iff_eq.mp hc, mask_eq_self hq, throughQuote_cons, if_pos (by simp)]
    · rw [List.map_singleton, mask_eq_self hq]
    · rw [← beq_iff_eq.mp hc]
      exact ne_backslash hlone hpair
  | case5 c rest hlone hpair hc ih =>
    have hc' : mask k c ≠ '\\' := fun e =>
      ne_backslash hlone hpair ((mask_eq_iff hk hback).mp e)
    have hq' : ¬ (mask k c == quote) = true := by
      rw [beq_iff_eq, mask_eq_iff hk hq]
      simpa using hc
    rw [List.map_cons, throughQuote_cons hc', if_neg hq', ih]
    rfl

/-- An operator that a masked text begins with, the text begins with. -/
theorem prefix_of_prefix_mask (hk : isInert k = true) {op : Text}
    (hop : ∀ c ∈ op, isInert c = false) (h : op <+: x.map (mask k)) : op <+: x := by
  induction op generalizing x with
  | nil => exact List.nil_prefix
  | cons a op ih =>
    cases x with
    | nil => exact absurd h (by simp)
    | cons c x =>
      obtain ⟨e, hrest⟩ := List.cons_prefix_cons.mp h
      have hc : c = a := (mask_eq_iff hk (hop a List.mem_cons_self)).mp e.symm
      exact List.cons_prefix_cons.mpr
        ⟨hc.symm, ih (fun y hy => hop y (List.mem_cons_of_mem a hy)) hrest⟩

/-- The token with its text masked. -/
def Token.masked (k : Char) (t : Token) : Token := { t with text := t.text.map (mask k) }

/-- The kinds of tokens whose texts are copied: they may hold anything. -/
def Kind.isCopied : Kind → Bool
  | lineComment | blockComment | string | character | other => true
  | _ => false

theorem Kind.not_copied_of_isName {kind : Kind} (h : kind.isName = true) :
    kind.isCopied = false := by
  cases kind with
  | identifier | keyword => rfl
  | _ => cases h

theorem punctuation_not_copied {kind : Kind} (h : punctuation? c = some kind) :
    kind.isCopied = false := by
  unfold punctuation? at h
  split at h <;> cases h <;> rfl

/-- A token that holds no inert character, unless its text is copied. -/
def Token.Bare (t : Token) : Prop := t.kind.isCopied = false → ∀ c ∈ t.text, isInert c = false

theorem Reads.bare (h : Reads d t rest) : t.Bare := by
  intro hkind
  cases h with
  | blanks _ all _ =>
    exact fun c hc => not_inert_of_layoutChar (Text.isLayoutChar_of_isBlank (all c hc))
  | lineEnd terminator _ => exact fun c hc => not_inert_of_layoutChar (terminator.layout c hc)
  | @word c x rest start all _ =>
    have hall : ∀ y ∈ c :: x, isWordChar y = true :=
      List.forall_mem_cons.mpr ⟨isWordChar_of_start start, all⟩
    exact fun y hy => not_inert_of_wordChar (hall y hy)
  | @number c x rest start all _ =>
    have hall : ∀ y ∈ c :: x, isWordChar y = true :=
      List.forall_mem_cons.mpr ⟨isWordChar_of_digit start, all⟩
    exact fun y hy => not_inert_of_wordChar (hall y hy)
  | @mark c kind rest isMark =>
    have hc : isInert c = false := not_inert_of_not_stray (by simp [isStray, isMark])
    simpa using hc
  | operator longest _ => exact fun c hc => not_inert_of_operator (operatorAt?_spec longest).1 hc
  | literal opens _ =>
    rcases literalKind?_cases opens with ⟨-, rfl⟩ | ⟨-, rfl⟩ <;> cases hkind
  | _ => cases hkind

theorem Token.Bare.masked_eq (h : t.Bare) (hkind : t.kind.isCopied = false) :
    t.masked k = t := by
  rw [Token.masked, map_mask_eq_self (h hkind)]

/-- **A masked text begins with the masked token.** -/
theorem Reads.masked (hk : isInert k = true) (h : Reads d t rest) :
    Reads d (t.masked k) (rest.map (mask k)) := by
  have hbare := h.bare
  cases h with
  | blanks ne all stop =>
    rw [hbare.masked_eq rfl]
    exact .blanks ne all (forall_head?_mask (isBlank_mask hk) stop)
  | lineEnd terminator whole =>
    rw [hbare.masked_eq rfl]
    exact .lineEnd terminator fun e he => whole e ((head?_mask_iff hk (by decide)).mp he)
  | @lineComment x rest oneLine stop =>
    have htext : Token.masked k ⟨.lineComment, '/' :: '/' :: x⟩ =
        ⟨.lineComment, '/' :: '/' :: x.map (mask k)⟩ := by
      rw [Token.masked, List.map_cons, List.map_cons, mask_eq_self not_inert_slash]
    rw [htext]
    refine .lineComment (fun c hc => ?_) (forall_head?_mask (isTerminator_mask hk) stop)
    obtain ⟨a, ha, rfl⟩ := List.mem_map.mp hc
    exact (isTerminator_mask hk a).trans (oneLine a ha)
  | @blockComment x rest reach =>
    have htext : Token.masked k ⟨.blockComment, '/' :: '*' :: x⟩ =
        ⟨.blockComment, '/' :: '*' :: x.map (mask k)⟩ := by
      rw [Token.masked, List.map_cons, List.map_cons, mask_eq_self not_inert_slash,
        mask_eq_self not_inert_star]
    rw [htext]
    refine .blockComment ?_
    rw [← List.map_append, throughClose_mask hk, reach]
  | @literal quote kind x rest opens reach =>
    have hq : isInert quote = false := not_inert_of_literal opens
    have htext : Token.masked k ⟨kind, quote :: x⟩ = ⟨kind, quote :: x.map (mask k)⟩ := by
      rw [Token.masked, List.map_cons, mask_eq_self hq]
    rw [htext]
    refine .literal opens ?_
    rw [← List.map_append, throughQuote_mask hk hq, reach]
  | @word c x rest start all stop =>
    have hkind : (wordKind d (c :: x)).isCopied = false := by
      rcases wordKind_cases d (c :: x) with e | e <;> rw [e] <;> rfl
    rw [hbare.masked_eq hkind]
    exact .word start all (forall_head?_mask (isWordChar_mask hk) stop)
  | number start all stop =>
    rw [hbare.masked_eq rfl]
    exact .number start all (forall_head?_mask (isWordChar_mask hk) stop)
  | mark isMark =>
    rw [hbare.masked_eq (punctuation_not_copied isMark)]
    exact .mark isMark
  | @operator op rest longest noComment =>
    obtain ⟨hop, -, hmax⟩ := operatorAt?_spec longest
    rw [hbare.masked_eq rfl]
    refine .operator (operatorAt?_eq_some_iff.mpr ⟨hop, List.prefix_append _ _, ?_⟩) ?_
    · -- a longer operator in the masked text would stand in the text itself
      intro other hother hprefix
      refine hmax other hother (prefix_of_prefix_mask hk
        (fun c hc => not_inert_of_operator hother hc) ?_)
      rw [List.map_append, map_mask_eq_self (hbare rfl)]
      exact hprefix
    · intro e c hc
      rw [List.head?_map] at hc
      obtain ⟨a, ha, rfl⟩ := Option.map_eq_some_iff.mp hc
      obtain ⟨hslash, hstar⟩ := noComment e a ha
      exact ⟨fun e => hslash ((mask_eq_iff hk not_inert_slash).mp e),
        fun e => hstar ((mask_eq_iff hk not_inert_star).mp e)⟩
  | @stray c rest isStray =>
    refine .stray ?_
    unfold mask
    split
    · exact (isInert_iff.mp hk).1
    · exact isStray

/-- **The tokens of a masked text are its tokens, masked.** -/
theorem tokenize_mask (hk : isInert k = true) (d : Dialect) (x : Text) :
    tokenize d (x.map (mask k)) = (tokenize d x).map (Token.masked k) := by
  induction x using text_induction d with
  | nil => rfl
  | step t rest h ih =>
    have hnext := tokenize_append (h.masked hk)
    rw [ih] at hnext
    rw [List.map_append, tokenize_append h, List.map_cons]
    exact hnext

theorem bare_tokenize (d : Dialect) (x : Text) : ∀ t ∈ tokenize d x, t.Bare := by
  induction x using text_induction d with
  | nil => simp
  | step t rest h ih =>
    rw [tokenize_append h]
    exact List.forall_mem_cons.mpr ⟨h.bare, ih⟩

/-! ## 4. What tokens decide -/

/-- The spot with the token before it masked. -/
def Spot.masked (k : Char) (p : Spot) : Spot := { p with prev := p.prev.map (Token.masked k) }

section

variable {p : Spot}

theorem joins_masked (h : t.Bare) : (t.masked k).joins d = t.joins d := by
  cases hname : t.kind.isName with
  | true => rw [h.masked_eq (Kind.not_copied_of_isName hname)]
  | false =>
    have hname' : (t.masked k).kind.isName = false := hname
    rw [Token.joins, Token.joins, hname, hname', Bool.false_and, Bool.false_and]

theorem isUnary_masked (op : Text) (prev : Option Token) :
    isUnary op (prev.map (Token.masked k)) = isUnary op prev := by
  cases prev <;> rfl

theorem parenApart_masked (d : Dialect) {prev : Option Token} (h : ∀ q ∈ prev, q.Bare) :
    parenApart d (prev.map (Token.masked k)) = parenApart d prev := by
  cases prev with
  | none => rfl
  | some q =>
    cases hq : q.kind == .keyword with
    | true =>
      have hkind : q.kind.isCopied = false := by rw [beq_iff_eq.mp hq]; rfl
      rw [Option.map_some, (h q rfl).masked_eq hkind]
    | false =>
      have hq' : ((q.masked k).kind == .keyword) = false := hq
      simp [parenApart, hq, hq']

/-- **A masked token decides about the next one as the token does.** -/
theorem after_masked (h : t.Bare) :
    (p.masked k).after d (t.masked k) = (p.after d t).masked k := by
  obtain ⟨kind, text⟩ := t
  cases kind with
  | operator =>
    have hm : Token.masked k ⟨.operator, text⟩ = ⟨.operator, text⟩ := h.masked_eq rfl
    simp [hm, Spot.after, Spot.masked, Spot.depthAt, Kind.isComment, isUnary_masked]
  | _ => rfl

theorem asksSpace_masked (h : t.Bare) (hprev : ∀ q ∈ p.prev, q.Bare) :
    (p.masked k).asksSpace d (t.masked k) = p.asksSpace d t := by
  obtain ⟨kind, text⟩ := t
  cases kind with
  | leftParen => exact parenApart_masked d hprev
  | identifier | keyword | number | string | character =>
    show needsSpace (p.prev.map _) _ = needsSpace p.prev _
    cases p.prev <;> rfl
  | operator =>
    have hm : Token.masked k ⟨.operator, text⟩ = ⟨.operator, text⟩ := h.masked_eq rfl
    rw [hm]
    simp only [Spot.asksSpace, Spot.masked, isUnary_masked]
    cases hp : p.prev with
    | none => rfl
    | some q =>
      cases hq : q.kind == .operator with
      | true =>
        have hkind : q.kind.isCopied = false := by rw [beq_iff_eq.mp hq]; rfl
        rw [Option.map_some, (hprev q hp).masked_eq hkind]
      | false =>
        have hkind : (q.masked k).kind = q.kind := rfl
        simp [hq, hkind]
  | _ => rfl

theorem gap_masked {style : Style} (h : t.Bare) (hprev : ∀ q ∈ p.prev, q.Bare) :
    gap style (p.masked k) (t.masked k) = gap style p t := by
  have hopens : (p.masked k).opensLine style.dialect (t.masked k) =
      p.opensLine style.dialect t := by
    unfold Spot.opensLine Spot.broken
    rw [joins_masked h]
    rfl
  have hspaced : (p.masked k).spaced style.dialect (t.masked k) = p.spaced style.dialect t := by
    unfold Spot.spaced
    rw [asksSpace_masked h hprev]
    rfl
  unfold gap
  rw [hopens, hspaced]
  rfl

end

/-! ## 5. What tokens become -/

theorem map_intercalate (f : Char → Char) (nl : Text) (lines : List Text) :
    (nl.intercalate lines).map f = (nl.map f).intercalate (lines.map (List.map f)) := by
  induction lines with
  | nil => rfl
  | cons first lines ih =>
    cases lines with
    | nil => simp [List.intercalate]
    | cons second lines =>
      simp only [List.intercalate, List.map_cons, List.intersperse, List.flatten_cons,
        List.map_append] at ih ⊢
      rw [ih]

variable {style : Style}

theorem furtherLine_mask (hk : isInert k = true) (ho : style.Orderly) (depth : Nat) (line : Text) :
    furtherLine style depth (line.map (mask k)) = (furtherLine style depth line).map (mask k) := by
  unfold furtherLine
  rw [trim_mask (isBlank_mask hk)]
  dsimp only
  generalize Text.trim Text.isBlank line = content
  have hstar : ((content.map (mask k)).head? == some '*') = (content.head? == some '*') := by
    rw [Bool.eq_iff_iff, beq_iff_eq, beq_iff_eq, head?_mask_iff hk not_inert_star]
  have hindent : (Text.times style.unit depth).map (mask k) = Text.times style.unit depth :=
    map_mask_of_layout fun c hc => Text.isLayoutChar_of_isBlank (ho.blank_indent depth c hc)
  have hspace : [' '].map (mask k) = [' '] := map_mask_of_layout (by simp [Text.isLayoutChar, Text.isBlank])
  rw [hstar, List.isEmpty_map]
  split
  · rfl
  · rw [List.map_append, List.map_append, hindent]
    split
    · rw [hspace]
    · rfl

/-- The lines of a masked comment. -/
theorem commentLines_mask (hk : isInert k = true) (ho : style.Orderly) (depth : Nat) (x : Text) :
    commentLines style depth (x.map (mask k)) =
      (commentLines style depth x).map (List.map (mask k)) := by
  unfold commentLines
  rw [splitLines_mask hk]
  cases Text.splitLines x with
  | nil => rfl
  | cons first further =>
    have hfurther : furtherLine style depth ∘ List.map (mask k) =
        List.map (mask k) ∘ furtherLine style depth := funext (furtherLine_mask hk ho depth)
    simp only [List.map_cons, trimEnd_mask (isBlank_mask hk), List.map_map, hfurther]

theorem body_masked (hk : isInert k = true) (ho : style.Orderly) (depth : Nat) (t : Token) :
    body style depth (t.masked k) = (body style depth t).map (mask k) := by
  obtain ⟨kind, text⟩ := t
  cases kind with
  | lineComment => exact trimEnd_mask (isSpace_mask hk) text
  | blockComment =>
    show style.terminator.intercalate (commentLines style depth (text.map (mask k))) =
      (style.terminator.intercalate (commentLines style depth text)).map (mask k)
    rw [map_intercalate, map_mask_of_layout ho.terminator.layout, commentLines_mask hk ho]
  | _ => rfl

/-- **Masked tokens become the masked layout.** -/
theorem rendered_mask (hk : isInert k = true) (ho : style.Orderly) {ts : List Token}
    (hts : ∀ t ∈ ts, t.Bare) {p : Spot} (hprev : ∀ q ∈ p.prev, q.Bare) :
    rendered style (p.masked k) (ts.map (Token.masked k)) =
      (rendered style p ts).map (mask k) := by
  induction ts generalizing p with
  | nil => rfl
  | cons t ts ih =>
    obtain ⟨ht, hts⟩ := List.forall_mem_cons.mp hts
    have hnext : ∀ q ∈ (p.after style.dialect t).prev, q.Bare := by
      intro q hq
      unfold Spot.after at hq
      dsimp only at hq
      split at hq
      · exact hprev q hq
      · cases hq
        exact ht
    have hgap : (gap style p t).map (mask k) = gap style p t :=
      map_mask_of_layout (gap_layout ho p t)
    rw [List.map_cons, rendered_cons, rendered_cons, after_masked ht, ih hts hnext,
      gap_masked ht hprev, List.map_append, List.map_append, hgap, ← body_masked hk ho]
    rfl

theorem finished_mask (hk : isInert k = true) (ho : style.Orderly) (x : Text) :
    finished style (x.map (mask k)) = (finished style x).map (mask k) := by
  unfold finished
  rw [trimEnd_mask (isLayoutChar_mask hk)]
  dsimp only
  rw [List.isEmpty_map]
  split
  · rfl
  · rw [List.map_append, map_mask_of_layout ho.terminator.layout]

/-! ## 6. Whole texts -/

theorem leadsFrom_masked {ts : List Token} (hts : ∀ t ∈ ts, t.Bare) (start? : Option Text) :
    leadsFrom start? (ts.map (Token.masked k)) = leadsFrom start? ts := by
  induction ts generalizing start? with
  | nil => rfl
  | cons t ts ih =>
    obtain ⟨ht, hts⟩ := List.forall_mem_cons.mp hts
    have hlead : leadAfter start? (t.masked k) = leadAfter start? t := by
      obtain ⟨kind, text⟩ := t
      cases kind with
      | whitespace => rw [ht.masked_eq rfl]
      | _ => rfl
    rw [List.map_cons, leadsFrom, leadsFrom, hlead, ih hts]
    rfl

/-- A mask does not change what a text is indented with and how its lines end. -/
theorem resolve_mask (hk : isInert k = true) (d : Dialect) (unit? terminator? : Option Text)
    (x : Text) :
    Style.resolve d unit? terminator? (x.map (mask k)) = Style.resolve d unit? terminator? x := by
  have hunit : detectUnit (x.map (mask k)) = detectUnit x := by
    rw [detectUnit_eq d, tokenize_mask hk, leadsFrom_masked (bare_tokenize d x), ← detectUnit_eq]
  unfold Style.resolve detectTerminator
  rw [hunit, firstTerminator?_mask hk]

theorem significant_masked (ts : List Token) :
    Token.significant (ts.map (Token.masked k)) = (Token.significant ts).map (Token.masked k) :=
  List.filter_map

theorem isVoid_mask (hk : isInert k = true) (x : Text) :
    Text.isVoid (x.map (mask k)) = Text.isVoid x := by
  have hcomp : Text.isSpace ∘ mask k = Text.isSpace := funext (isSpace_mask hk)
  rw [Text.isVoid, Text.isVoid, List.all_map, hcomp]

theorem layout_mask (hk : isInert k = true) (ho : style.Orderly) (depth : Nat) (lineStart : Bool)
    (d : Dialect) (x : Text) : layout style depth lineStart (tokenize d (x.map (mask k))) =
      (layout style depth lineStart (tokenize d x)).map (List.map (mask k)) := by
  have hbare : ∀ t ∈ Token.significant (tokenize d x), t.Bare :=
    fun t ht => bare_tokenize d x t (List.mem_of_mem_filter ht)
  have hrendered := rendered_mask (p := .start depth lineStart) hk ho hbare (by simp [Spot.start])
  rw [layout_rendered ho (legible_significant d x),
    layout_rendered ho (legible_significant d (x.map (mask k))), tokenize_mask hk,
    significant_masked]
  show Except.ok _ = Except.ok _
  rw [← finished_mask hk ho, ← hrendered]
  rfl

/-- **The layout of a masked text is its layout, masked.** -/
theorem formatSource_mask (hk : isInert k = true) {unit? terminator? : Option Text}
    (hu : ∀ u ∈ unit?, ∀ c ∈ u, Text.isBlank c = true) (hn : ∀ nl ∈ terminator?, LineEnd nl)
    (d : Dialect) (x : Text) : formatSource d unit? terminator? (x.map (mask k)) =
      (formatSource d unit? terminator? x).map (List.map (mask k)) := by
  unfold formatSource
  rw [isVoid_mask hk, resolve_mask hk, layout_mask hk (resolve_orderly hu hn d x)]
  split <;> rfl

/-! ## 7. Regions -/

theorem lead?_mask (hk : isInert k = true) (line : Text) :
    Text.lead? (line.map (mask k)) = Text.lead? line := by
  have hcomp : Text.isBlank ∘ mask k = Text.isBlank := funext (isBlank_mask hk)
  have hlead : (line.takeWhile Text.isBlank).map (mask k) = line.takeWhile Text.isBlank :=
    map_mask_of_layout fun c hc => Text.isLayoutChar_of_isBlank (List.mem_takeWhile_imp hc)
  rw [Text.lead?, Text.lead?, List.all_map, List.takeWhile_map, hcomp, hlead]

theorem firstLead_mask (hk : isInert k = true) (x : Text) :
    firstLead (x.map (mask k)) = firstLead x := by
  have hcomp : Text.lead? ∘ List.map (mask k) = Text.lead? := funext (lead?_mask hk)
  rw [firstLead, firstLead, splitLines_mask hk, List.findSome?_map, hcomp]

theorem lastLineStart_mask (hk : isInert k = true) (x : Text) :
    Text.lastLineStart (x.map (mask k)) = Text.lastLineStart x := by
  have hcomp : (fun c => !Text.isTerminator c) ∘ mask k = fun c => !Text.isTerminator c :=
    funext fun c => congrArg (!·) (isTerminator_mask hk c)
  unfold Text.lastLineStart
  rw [← List.map_reverse, List.takeWhile_map, hcomp, List.length_map, List.length_map]

theorem lineEndFollows_mask (hk : isInert k = true) (span following : Text) :
    lineEndFollows (span.map (mask k)) (following.map (mask k)) =
      lineEndFollows span following := by
  have hcomp : (fun c => Text.isTerminator (mask k c)) = Text.isTerminator :=
    funext (isTerminator_mask hk)
  rw [lineEndFollows, lineEndFollows, List.getLast?_map, List.head?_map, Option.any_map,
    Option.all_map, hcomp]

theorem withoutEnding_mask (hk : isInert k = true) {ending : Text}
    (hending : ∀ c ∈ ending, Text.isLayoutChar c = true) (x : Text) :
    withoutEnding ending (x.map (mask k)) = (withoutEnding ending x).map (mask k) := by
  have hsuffix : ending.isSuffixOf (x.map (mask k)) = ending.isSuffixOf x := by
    rw [Bool.eq_iff_iff, List.isSuffixOf_iff_suffix, List.isSuffixOf_iff_suffix]
    constructor
    · intro h
      rw [← List.reverse_prefix] at h ⊢
      rw [← List.map_reverse] at h
      refine prefix_of_prefix_mask hk (fun c hc => ?_) h
      exact not_inert_of_layoutChar (hending c (List.mem_reverse.mp hc))
    · intro h
      obtain ⟨front, rfl⟩ := h
      rw [List.map_append, map_mask_of_layout hending]
      exact List.suffix_append _ _
  unfold withoutEnding
  rw [hsuffix, List.length_map]
  split
  · exact List.map_take.symm
  · rfl

/-- **The replacement of a region of a masked text is its replacement, masked.** -/
theorem formatRegion_mask (hk : isInert k = true) {unit? terminator? : Option Text}
    (hu : ∀ u ∈ unit?, ∀ c ∈ u, Text.isBlank c = true) (hn : ∀ nl ∈ terminator?, LineEnd nl)
    (d : Dialect) (x : Text) (offset length : Int) :
    formatRegion d unit? terminator? (x.map (mask k)) offset length =
      (formatRegion d unit? terminator? x offset length).map (List.map (mask k)) := by
  have ho := resolve_orderly hu hn d x
  unfold formatRegion
  rw [List.length_map, resolve_mask hk]
  split
  · rfl
  · simp only [← List.map_take, ← List.map_drop, isVoid_mask hk, lastLineStart_mask hk,
      firstLead_mask hk, List.length_map, layout_mask hk ho, lineEndFollows_mask hk]
    split
    · rfl
    · cases depthIn (firstLead (x.drop (Text.lastLineStart (x.take offset.toNat))))
        (Style.resolve d unit? terminator? x).unit with
      | error cause => rfl
      | ok depth =>
        dsimp only [bind, Except.bind]
        cases layout (Style.resolve d unit? terminator? x) depth
          (Text.lastLineStart (x.take offset.toNat) == (x.take offset.toNat).length)
          (tokenize d ((x.drop offset.toNat).take length.toNat)) with
        | error cause => rfl
        | ok laid =>
          dsimp only [Except.map, pure, Except.pure]
          rw [withoutEnding_mask hk ho.terminator.layout]
          split <;> rfl

end RebecaLayout
