import RebecaLayout.Proofs.Rendering

/-!
The layout as a rule about neighbours: what stands between two tokens is said of the tokens in front
of them, with no engine, no state, and nothing that is written and taken back.

* `nesting`, `openParens`, `lastPlain?` -- what the tokens so far have opened, and the last of them
  that is no comment;
* `EndsLine` -- **whether a line ends between two neighbours**;
* `Spaced` -- whether two neighbours on one line stand a space apart;
* `Recalls` -- the spot knows of the tokens so far what the rules ask for; each token keeps it so;
* `rendered_eq_composed` -- so gap after body after gap is what the rules say;
* `layout_lines`, `layout_neighbours` -- and so is the layout of every text.
-/

namespace RebecaLayout

variable {style : Style} {d : Dialect} {p : Spot} {t u : Token} {before : List Token} {depth : Nat}

/-! ## 1. What the tokens so far have opened -/

/-- The number of open braces behind tokens, with `depth` of them open in front. A closing brace
    that closes nothing does not count. -/
def nesting (depth : Nat) (ts : List Token) : Nat :=
  ts.foldl (fun n t => match t.kind with
    | .leftBrace => n + 1
    | .rightBrace => n - 1
    | _ => n) depth

/-- The number of open parentheses behind tokens, counted in the same way. -/
def openParens (ts : List Token) : Nat :=
  ts.foldl (fun n t => match t.kind with
    | .leftParen => n + 1
    | .rightParen => n - 1
    | _ => n) 0

/-- The last token that is no comment. -/
def lastPlain? (ts : List Token) : Option Token := (ts.filter fun t => !t.kind.isComment).getLast?

/-- How deep a token stands: a closing brace as deep as what is behind it. -/
def levelOf (depth : Nat) (before : List Token) (u : Token) : Nat :=
  if u.kind = .rightBrace then nesting depth before - 1 else nesting depth before

theorem nesting_concat (depth : Nat) (ts : List Token) (t : Token) :
    nesting depth (ts ++ [t]) = match t.kind with
      | .leftBrace => nesting depth ts + 1
      | .rightBrace => nesting depth ts - 1
      | _ => nesting depth ts :=
  List.foldl_concat ..

theorem openParens_concat (ts : List Token) (t : Token) :
    openParens (ts ++ [t]) = match t.kind with
      | .leftParen => openParens ts + 1
      | .rightParen => openParens ts - 1
      | _ => openParens ts :=
  List.foldl_concat ..

theorem lastPlain?_concat (ts : List Token) (t : Token) :
    lastPlain? (ts ++ [t]) = if t.kind.isComment then lastPlain? ts else some t := by
  unfold lastPlain?
  rw [List.filter_append]
  cases hc : t.kind.isComment <;> simp [hc]

/-! ## 2. The rules -/

/-- **A line ends between the neighbours `t` and `u`**, with `before` in front of them. -/
def EndsLine (dialect : Dialect) (before : List Token) (t u : Token) : Prop :=
  t.kind = .leftBrace ∨ t.kind.isComment = true ∨ (t.kind = .semicolon ∧ openParens before = 0) ∨
    u.kind = .rightBrace ∨
    (t.kind = .rightBrace ∧ ¬ (u.kind.isName = true ∧ u.text ∈ dialect.braceJoiners))

instance : Decidable (EndsLine d before t u) := inferInstanceAs (Decidable (_ ∨ _))

/-- An operator that belongs to the operand behind it. -/
def BeforeOperand (before : List Token) (t : Token) : Prop :=
  t.kind = .operator ∧ (t.text ∈ unaryOperators ∨
    (t.text ∈ signs ∧ ∀ q ∈ lastPlain? before, q.kind.beginsOperand = true))

instance : Decidable (BeforeOperand before t) := inferInstanceAs (Decidable (_ ∧ _))

/-- An operator between two operands. -/
def BetweenOperands (before : List Token) (t : Token) : Prop :=
  t.kind = .operator ∧ ¬ BeforeOperand before t

instance : Decidable (BetweenOperands before t) := inferInstanceAs (Decidable (_ ∧ _))

/-- The last character of one text and the first of another begin an operator. -/
def BeginOperator (x y : Text) : Prop :=
  ∃ op ∈ operators, ∃ a ∈ x.getLast?, ∃ b ∈ y.head?, [a, b] <+: op

/-- The pairs that would be read as one operator are those that begin one. -/
theorem mem_operatorPairs (a b : Char) :
    [a, b] ∈ operatorPairs ↔ ∃ op ∈ operators, [a, b] <+: op := by
  unfold operatorPairs
  simp only [List.mem_map, List.mem_filter, decide_eq_true_eq]
  constructor
  · rintro ⟨op, ⟨hop, -⟩, e⟩
    exact ⟨op, hop, e ▸ List.take_prefix 2 op⟩
  · rintro ⟨op, hop, h⟩
    exact ⟨op, ⟨hop, h.length_le⟩, (List.prefix_iff_eq_take.mp h).symm⟩

theorem binds_iff (x y : Text) : y.head?.any (binds x) = true ↔ BeginOperator x y := by
  unfold BeginOperator
  cases hy : y.head? with
  | none => simp
  | some b =>
    cases hx : x.getLast? with
    | none => simp [binds, hx]
    | some a => simp [binds, hx, mem_operatorPairs]

instance (x y : Text) : Decidable (BeginOperator x y) := decidable_of_iff _ (binds_iff x y)

/-- A token with a space behind it. -/
def SpaceBehind (dialect : Dialect) (before : List Token) (t : Token) : Prop :=
  t.kind = .comma ∨ (t.kind = .colon ∧ dialect.spaceAfterColon = true) ∨
    (t.kind = .semicolon ∧ 0 < openParens before) ∨ BetweenOperands before t ∨ t.kind = .rightBrace

instance : Decidable (SpaceBehind d before t) := inferInstanceAs (Decidable (_ ∨ _))

/-- A token with a space in front of it. -/
def SpaceInFront (before : List Token) (u : Token) : Prop :=
  u.kind.isComment = true ∨ u.kind = .leftBrace ∨ BetweenOperands before u

instance : Decidable (SpaceInFront before u) := inferInstanceAs (Decidable (_ ∨ _))

/-- Tokens that stand apart where they meet. -/
def SpaceBetween (dialect : Dialect) (before : List Token) (t u : Token) : Prop :=
  (t.kind.isWord = true ∧ u.kind.isWord = true) ∨ (t.kind.isCloser = true ∧ u.kind.isName = true) ∨
    (u.kind = .leftParen ∧ t.kind = .keyword ∧ t.text ∈ dialect.parenKeywords) ∨
    (BeforeOperand (before ++ [t]) u ∧ t.kind = .keyword) ∨
    (BeforeOperand (before ++ [t]) u ∧ BeforeOperand before t ∧ BeginOperator t.text u.text)

instance : Decidable (SpaceBetween d before t u) := inferInstanceAs (Decidable (_ ∨ _))

/-- **The neighbours `t` and `u` on one line stand a space apart**, with `before` in front of them. -/
def Spaced (dialect : Dialect) (before : List Token) (t u : Token) : Prop :=
  u.kind.hugs = false ∧ (SpaceBehind dialect before t ∨ SpaceInFront (before ++ [t]) u ∨
    SpaceBetween dialect before t u)

instance : Decidable (Spaced d before t u) := inferInstanceAs (Decidable (_ ∧ _))

/-- What stands between neighbours: a new line with its indentation, a space, or nothing. -/
def between (style : Style) (depth : Nat) (before : List Token) (t u : Token) : Text :=
  if EndsLine style.dialect before t u then
    style.terminator ++ Text.times style.unit (levelOf depth (before ++ [t]) u)
  else if Spaced style.dialect before t u then [' ']
  else []

/-- The tokens behind `t`, each behind what stands between it and its neighbour. -/
def composedFrom (style : Style) (depth : Nat) (gapOf : List Token → Token → Token → Text) :
    List Token → Token → List Token → Text
  | _, _, [] => []
  | before, t, u :: us => gapOf before t u ++ (body style (levelOf depth (before ++ [t]) u) u ++
      composedFrom style depth gapOf (before ++ [t]) u us)

/-- What stands in front of the first token: its indentation on a new line. Within a line a closing
    brace goes to a new one, and other tokens have a space in front of them or nothing. -/
def opening (style : Style) (depth : Nat) (lineStart : Bool) (t : Token) : Text :=
  if lineStart then Text.times style.unit (levelOf depth [] t)
  else if t.kind = .rightBrace then
    style.terminator ++ Text.times style.unit (levelOf depth [] t)
  else if SpaceInFront [] t then [' ']
  else []

/-- Tokens in a row: the first behind its opening, the others behind what `gapOf` puts between
    neighbours. -/
def composed (style : Style) (depth : Nat) (lineStart : Bool)
    (gapOf : List Token → Token → Token → Text) : List Token → Text
  | [] => []
  | t :: ts => opening style depth lineStart t ++ (body style (levelOf depth [] t) t ++
      composedFrom style depth gapOf [] t ts)

/-! ## 3. What the spot knows -/

/-- The spot knows of the tokens `before` what the rules ask for. -/
structure Recalls (depth : Nat) (before : List Token) (p : Spot) : Prop where
  depth : p.depth = nesting depth before
  parens : p.parens = openParens before
  prev : p.prev = lastPlain? before

theorem recalls_start (depth : Nat) (lineStart : Bool) :
    Recalls depth [] (.start depth lineStart) := ⟨rfl, rfl, rfl⟩

namespace Recalls

/-- **One token keeps it so.** -/
theorem after (h : Recalls depth before p) (dialect : Dialect) (t : Token) :
    Recalls depth (before ++ [t]) (p.after dialect t) where
  depth := by
    rw [nesting_concat, ← h.depth]
    cases hk : t.kind <;> simp [Spot.after, Spot.depthAt, hk]
  parens := by
    rw [openParens_concat, ← h.parens]
    rfl
  prev := by
    rw [lastPlain?_concat, ← h.prev]
    rfl

theorem depthAt (h : Recalls depth before p) (u : Token) :
    p.depthAt u.kind = levelOf depth before u := by
  rw [Spot.depthAt, levelOf, h.depth]
  simp

theorem unary_iff (h : Recalls depth before p) (hk : t.kind = .operator) :
    isUnary t.text p.prev = true ↔ BeforeOperand before t := by
  rw [h.prev, isUnary, BeforeOperand, Bool.or_eq_true, Bool.and_eq_true, List.contains_iff_mem,
    List.contains_iff_mem]
  cases lastPlain? before <;> simp [hk]

theorem binary_iff (h : Recalls depth before p) (hk : t.kind = .operator) :
    isUnary t.text p.prev = false ↔ BetweenOperands before t := by
  rw [BetweenOperands, ← h.unary_iff hk]
  simp [hk]

end Recalls

/-! ## 4. The gap is what the rules say -/

theorem opensLine_iff (h : Recalls depth before p) :
    (p.after d t).opensLine d u = true ↔ EndsLine d before t u := by
  have hparens : p.parens = openParens before := h.parens
  have hjoins : u.joins d = false ↔ ¬ (u.kind.isName = true ∧ u.text ∈ d.braceJoiners) := by
    simp [Token.joins]
  simp only [Spot.opensLine, Spot.broken, Spot.after, EndsLine, hjoins, hparens, Bool.or_eq_true,
    Bool.and_eq_true, beq_iff_eq, Option.some.injEq, Bool.not_eq_true']
  constructor
  · rintro ((((hcomment | hbrace) | hsemicolon) | hclosed) | hcloses)
    · exact Or.inr (Or.inl hcomment)
    · exact Or.inl hbrace
    · exact Or.inr (Or.inr (Or.inl hsemicolon))
    · exact Or.inr (Or.inr (Or.inr (Or.inr hclosed)))
    · exact Or.inr (Or.inr (Or.inr (Or.inl hcloses)))
  · rintro (hbrace | hcomment | hsemicolon | hcloses | hclosed)
    · exact Or.inl (Or.inl (Or.inl (Or.inr hbrace)))
    · exact Or.inl (Or.inl (Or.inl (Or.inl hcomment)))
    · exact Or.inl (Or.inl (Or.inr hsemicolon))
    · exact Or.inr hcloses
    · exact Or.inl (Or.inr hclosed)

theorem apart_iff (h : Recalls depth before p) :
    (p.after d t).apart = true ∨ t.kind = .rightBrace ↔ SpaceBehind d before t := by
  by_cases hop : t.kind = .operator
  · rw [SpaceBehind, ← h.binary_iff hop]
    simp [Spot.after, hop]
  · have hbinary : ¬ BetweenOperands before t := fun hb => hop hb.1
    cases hk : t.kind <;> simp [hk] at hop <;> simp [Spot.after, SpaceBehind, hk, h.parens, hbinary]

/-- Behind a token that is no comment and no operator between operands, the next one asks for a
    space exactly if it has one in front of it or stands apart from the other. -/
theorem asksSpace_iff (h : Recalls depth before p) (hc : t.kind.isComment = false)
    (ht : ¬ BetweenOperands before t) : (p.after d t).asksSpace d u = true ↔
      SpaceInFront (before ++ [t]) u ∨ SpaceBetween d before t u := by
  have hprev : (p.after d t).prev = some t := by simp [Spot.after, hc]
  by_cases hop : u.kind = .operator
  · have hunary := (h.after d t).unary_iff hop
    have hbinary := (h.after d t).binary_iff hop
    have hfirst : t.kind = .operator ↔ BeforeOperand before t :=
      ⟨fun hk => Classical.byContradiction fun hn => ht ⟨hk, hn⟩, And.left⟩
    rw [hprev] at hunary hbinary
    simp only [Spot.asksSpace, hop, SpaceInFront, SpaceBetween, ← hunary, ← hbinary, ← hfirst,
      ← binds_iff, hprev, Bool.or_eq_true, Option.any_some, Bool.and_eq_true, beq_iff_eq,
      Bool.not_eq_true', Kind.isComment, Kind.isWord, Kind.isName]
    cases isUnary u.text (some t) <;> simp
  · have hu : ∀ before, ¬ BeforeOperand before u ∧ ¬ BetweenOperands before u :=
      fun before => ⟨fun hu => hop hu.1, fun hu => hop hu.1⟩
    cases hk : u.kind <;> simp [hk] at hop <;>
      simp [Spot.asksSpace, SpaceInFront, SpaceBetween, hk, hu, hprev, needsSpace, parenApart,
        Kind.isWord, Kind.isName, Kind.isComment]

theorem spaced_iff (h : Recalls depth before p) (hc : t.kind.isComment = false) :
    (p.after d t).spaced d u = true ↔ Spaced d before t u := by
  have hlast : (p.after d t).last = some t.kind := rfl
  rw [Spot.spaced, Spaced, Bool.and_eq_true, Bool.not_eq_true', Bool.or_eq_true, Bool.or_eq_true,
    hlast, beq_iff_eq, Option.some.injEq, apart_iff h]
  refine and_congr_right fun _ => ?_
  by_cases hb : BetweenOperands before t
  · have hbehind : SpaceBehind d before t := Or.inr (Or.inr (Or.inr (Or.inl hb)))
    exact ⟨fun _ => Or.inl hbehind, fun _ => Or.inl hbehind⟩
  · rw [asksSpace_iff h hc hb]

/-- **The gap in front of a token is what the rules put between it and its neighbour.** -/
theorem gap_eq_between (h : Recalls depth before p) :
    gap style (p.after style.dialect t) u = between style depth before t u := by
  unfold gap between
  rw [lineBreak_after, (h.after style.dialect t).depthAt u]
  by_cases hends : EndsLine style.dialect before t u
  · rw [if_pos ((opensLine_iff h).mpr hends), if_pos hends]
  · have hc : t.kind.isComment = false := by
      simpa using fun hc => hends (Or.inr (Or.inl hc))
    rw [if_neg (fun hopens => hends ((opensLine_iff h).mp hopens)), if_neg hends]
    by_cases hspaced : Spaced style.dialect before t u
    · rw [if_pos ((spaced_iff h hc).mpr hspaced), if_pos hspaced]
    · rw [if_neg (fun hs => hspaced ((spaced_iff h hc).mp hs)), if_neg hspaced]

/-! ## 5. Whole layouts -/

theorem rendered_after (us : List Token) : ∀ {before : List Token} {t : Token} {p : Spot},
    Recalls depth before p → rendered style (p.after style.dialect t) us =
      composedFrom style depth (between style depth) before t us := by
  induction us with
  | nil => intro before t p _; rfl
  | cons u us ih =>
    intro before t p h
    have hlevel := (h.after style.dialect t).depthAt u
    rw [rendered_cons, gap_eq_between h, hlevel, ih (h.after style.dialect t), composedFrom]

theorem gap_start (style : Style) (depth : Nat) (lineStart : Bool) (t : Token) :
    gap style (.start depth lineStart) t = opening style depth lineStart t := by
  have h := recalls_start depth lineStart
  unfold gap opening
  rw [h.depthAt t]
  cases lineStart with
  | true => simp [Spot.opensLine, Spot.broken, Spot.start, lineBreak]
  | false =>
    have hopens :
        (Spot.start depth false).opensLine style.dialect t = true ↔ t.kind = .rightBrace := by
      simp [Spot.opensLine, Spot.broken, Spot.start]
    have hspaced : (Spot.start depth false).spaced style.dialect t = true ↔ SpaceInFront [] t := by
      have hbinary : t.kind = .operator → (isUnary t.text none = false ↔ BetweenOperands [] t) :=
        fun hk => h.binary_iff hk
      have hplain : t.kind ≠ .operator → ¬ BetweenOperands [] t := fun hk hb => hk hb.1
      cases hk : t.kind <;> simp [hk] at hbinary hplain <;>
        simp [Spot.spaced, Spot.asksSpace, Spot.start, SpaceInFront, Kind.hugs, Kind.isComment, hk,
          needsSpace, parenApart, hbinary, hplain]
    simp only [hopens, hspaced, Bool.false_eq_true, if_false]
    simp [lineBreak, Spot.start]

/-- **Gap after body after gap is what the rules say.** -/
theorem rendered_eq_composed (style : Style) (depth : Nat) (lineStart : Bool) (ts : List Token) :
    rendered style (.start depth lineStart) ts =
      composed style depth lineStart (between style depth) ts := by
  cases ts with
  | nil => rfl
  | cons t ts =>
    have h := recalls_start depth lineStart
    rw [rendered_cons, gap_start, h.depthAt t, rendered_after ts h, composed]

/-- **Where lines end and how they are indented.** The layout of every text, from every depth, puts
    one terminator and the indentation of the level between the neighbours that `EndsLine` names,
    and no terminator between others. -/
theorem layout_lines (style : Style) (ho : style.Orderly) (depth : Nat) :
    ∃ gapOf : List Token → Token → Token → Text,
      (∀ before t u, EndsLine style.dialect before t u → gapOf before t u =
        style.terminator ++ Text.times style.unit (levelOf depth (before ++ [t]) u)) ∧
      (∀ before t u, ¬ EndsLine style.dialect before t u →
        gapOf before t u = [] ∨ gapOf before t u = [' ']) ∧
      ∀ x, layout style depth true (tokenize style.dialect x) = .ok (finished style
        (composed style depth true gapOf (Token.significant (tokenize style.dialect x)))) := by
  refine ⟨between style depth, fun before t u h => if_pos h, fun before t u h => ?_, fun x => ?_⟩
  · rw [between, if_neg h]
    split
    · exact Or.inr rfl
    · exact Or.inl rfl
  · rw [← rendered_eq_composed]
    exact layout_rendered ho (legible_significant style.dialect x) depth true

/-- A brace that closes nothing, a joining word behind it and a comment, from depth one. -/
theorem layout_lines_stray_brace :
    (⟨.rebeca, [' ', ' '], ['\r', '\n']⟩ : Style).Orderly ∧
    ∃ gapOf : List Token → Token → Token → Text,
      gapOf [] ⟨.rightBrace, ['\x7d']⟩ ⟨.rightBrace, ['\x7d']⟩ = ['\r', '\n'] ∧
      gapOf [⟨.rightBrace, ['\x7d']⟩] ⟨.rightBrace, ['\x7d']⟩ ⟨.lineComment, "// c".toList⟩ =
        ['\r', '\n'] ∧
      layout ⟨.rebeca, [' ', ' '], ['\r', '\n']⟩ 1 true
          (tokenize .rebeca "\x7d \x7d // c\nelse".toList) =
        .ok (finished ⟨.rebeca, [' ', ' '], ['\r', '\n']⟩
          (composed ⟨.rebeca, [' ', ' '], ['\r', '\n']⟩ 1 true gapOf
            (Token.significant (tokenize .rebeca "\x7d \x7d // c\nelse".toList)))) := by
  have ho : (⟨.rebeca, [' ', ' '], ['\r', '\n']⟩ : Style).Orderly :=
    ⟨by simp [Text.isBlank], .returnFeed⟩
  obtain ⟨gapOf, hends, -, hlayout⟩ := layout_lines ⟨.rebeca, [' ', ' '], ['\r', '\n']⟩ ho 1
  exact ⟨ho, gapOf, hends _ _ _ (by decide), hends _ _ _ (by decide), hlayout _⟩

/-- **The layout is the rule about neighbours**: of the tokens of every text in every dialect, with the
    style of the same dialect or of another one, from every depth, on a new line or within one. -/
theorem layout_neighbours (style : Style) (ho : style.Orderly) (d : Dialect) (depth : Nat)
    (lineStart : Bool) (x : Text) :
    layout style depth lineStart (tokenize d x) = .ok (finished style
      (composed style depth lineStart (between style depth)
        (Token.significant (tokenize d x)))) := by
  rw [← rendered_eq_composed]
  exact layout_rendered ho (legible_significant d x) depth lineStart

/-- Semicolons within parentheses, a sign behind a sign, and a joining word. Where the text is not read
    in the dialect of the style, `for` is no keyword and stands close to the parenthesis. -/
theorem layout_neighbours_loop :
    (⟨.rebeca, ['\t'], ['\n']⟩ : Style).Orderly ∧
    layout ⟨.rebeca, ['\t'], ['\n']⟩ 0 true
        (tokenize .rebeca "for(;;i++)\x7bx=- -1;\x7delse y".toList) =
      .ok "for (;; i++) \x7b\n\tx = - -1;\n\x7d else y\n".toList ∧
    layout ⟨.rebeca, ['\t'], ['\n']⟩ 0 true
        (tokenize .property "for(;;i++)\x7bx=- -1;\x7delse y".toList) =
      .ok "for(;; i++) \x7b\n\tx = - -1;\n\x7d else y\n".toList := by
  have ho : (⟨.rebeca, ['\t'], ['\n']⟩ : Style).Orderly := ⟨by simp [Text.isBlank], .feed⟩
  refine ⟨ho, ?_, ?_⟩
  · exact (layout_neighbours _ ho .rebeca 0 true _).trans (congrArg Except.ok (by decide +kernel))
  · exact (layout_neighbours _ ho .property 0 true _).trans (congrArg Except.ok (by decide +kernel))

end RebecaLayout
