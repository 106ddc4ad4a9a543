import RebecaLayout.Layout.Engine

/-!
What a token changes beside the text, in an engine that writes to any sink.

* `SameFrame` -- the part of the engine that writing leaves alone;
* `emitSettled_effect`, `emitSettled_lineStart` -- **what one token does to the rest**: braces move
  the depth, parentheses are counted, and some tokens end their line;
* `emit_depth_le` -- one token goes down by one level at most.
-/

namespace RebecaLayout

variable {β : Type} {style : Style} {t : Token}

/-! ## 1. What writing leaves alone -/

/-- What writing does not change: depths, the token before, and the brace that waits. -/
structure SameFrame (s s' : State β) : Prop where
  depth : s'.depth = s.depth
  pendingJoiner : s'.pendingJoiner = s.pendingJoiner
  parens : s'.parens = s.parens
  prev : s'.prev = s.prev

namespace SameFrame

variable {s s' s'' : State β}

theorem refl (s : State β) : SameFrame s s := ⟨rfl, rfl, rfl, rfl⟩

theorem trans (h : SameFrame s s') (h' : SameFrame s' s'') : SameFrame s s'' :=
  ⟨h'.depth.trans h.depth, h'.pendingJoiner.trans h.pendingJoiner, h'.parens.trans h.parens,
    h'.prev.trans h.prev⟩

variable [Sink β]

theorem write (s : State β) (x : Text) : SameFrame s (s.write x) := ⟨rfl, rfl, rfl, rfl⟩

theorem trimEnd (p : Char → Bool) (s : State β) : SameFrame s (s.trimEnd p) :=
  ⟨rfl, rfl, rfl, rfl⟩

theorem newline (s : State β) : SameFrame s (s.newline style) := ⟨rfl, rfl, rfl, rfl⟩

theorem breakLine (s : State β) : SameFrame s (s.breakLine style) := by
  unfold State.breakLine
  split
  · exact refl s
  · exact newline s

theorem begin (s : State β) (space : Bool) : SameFrame s (s.begin style space) := by
  unfold State.begin
  split
  · exact ⟨rfl, rfl, rfl, rfl⟩
  · split
    · exact write s _
    · exact refl s

theorem closing (s : State β) (mark : Char) : SameFrame s (s.closing style mark) := by
  unfold State.closing
  split
  · exact (begin s false).trans (write _ _)
  · exact ((trimEnd _ s).trans (begin _ false)).trans (write _ _)

theorem commentLine (s : State β) (line : Text) : SameFrame s (s.commentLine style line) := by
  unfold State.commentLine
  dsimp only
  split
  · exact newline s
  · exact ⟨rfl, rfl, rfl, rfl⟩

theorem foldl_commentLine (lines : List Text) (s : State β) :
    SameFrame s (lines.foldl (State.commentLine style) s) := by
  induction lines generalizing s with
  | nil => exact refl s
  | cons line lines ih => exact (commentLine s line).trans (ih _)

theorem blockComment (s : State β) (comment : Text) :
    SameFrame s (s.blockComment style comment) := by
  unfold State.blockComment
  split
  · exact refl s
  · exact ((write s _).trans (foldl_commentLine _ _)).trans ⟨rfl, rfl, rfl, rfl⟩

theorem operator (s : State β) (op : Text) : SameFrame s (s.operator style op) := by
  unfold State.operator
  split
  · dsimp only
    split
    · exact ((begin s _).trans (write _ _)).trans (write _ _)
    · exact (begin s _).trans (write _ _)
  · exact ((begin s _).trans (write _ _)).trans (write _ _)

end SameFrame

/-! ## 2. What a token changes -/

variable [Sink β]

/-- A token that was begun stands on an open line. -/
theorem begin_lineStart (s : State β) (space : Bool) :
    (s.begin style space).lineStart = false := by
  unfold State.begin
  split
  · rfl
  · rename_i h
    have hopen : s.lineStart = false := by simpa using h
    split <;> exact hopen

theorem closing_lineStart (s : State β) (mark : Char) :
    (s.closing style mark).lineStart = false := by
  unfold State.closing
  exact begin_lineStart _ _

theorem operator_lineStart (s : State β) (op : Text) :
    (s.operator style op).lineStart = false := by
  unfold State.operator
  split
  · dsimp only
    split <;> exact begin_lineStart _ _
  · exact begin_lineStart _ _

theorem emitSettled_frame (s : State β) (hb : t.kind ≠ .leftBrace ∧ t.kind ≠ .rightBrace)
    (hp : t.kind ≠ .leftParen ∧ t.kind ≠ .rightParen) : SameFrame s (s.emitSettled style t) := by
  cases hk : t.kind with
  | whitespace | newline =>
    simp only [State.emitSettled, hk]
    exact .refl s
  | identifier | keyword | number | string | character | dot | leftBracket | other =>
    simp only [State.emitSettled, hk]
    exact (SameFrame.begin _ _).trans (.write _ _)
  | lineComment =>
    simp only [State.emitSettled, hk]
    exact ((SameFrame.begin _ _).trans (.write _ _)).trans (.newline _)
  | blockComment =>
    simp only [State.emitSettled, hk]
    exact ((SameFrame.begin _ _).trans (.blockComment _ _)).trans (.newline _)
  | leftBrace => exact absurd hk hb.1
  | rightBrace => exact absurd hk hb.2
  | leftParen => exact absurd hk hp.1
  | rightParen => exact absurd hk hp.2
  | rightBracket =>
    simp only [State.emitSettled, hk]
    exact .closing _ _
  | comma =>
    simp only [State.emitSettled, hk]
    exact (SameFrame.closing _ _).trans (.write _ _)
  | colon =>
    simp only [State.emitSettled, hk]
    split
    · exact (SameFrame.closing _ _).trans (.write _ _)
    · exact .closing _ _
  | semicolon =>
    simp only [State.emitSettled, hk]
    split
    · exact (SameFrame.closing _ _).trans (.write _ _)
    · exact (SameFrame.closing _ _).trans (.newline _)
  | operator =>
    simp only [State.emitSettled, hk]
    exact .operator _ _

/-- Which tokens end their line. -/
theorem emitSettled_lineStart (s : State β) (hv : t.kind.isLayout = false) :
    (s.emitSettled style t).lineStart =
      (t.kind.isComment || t.kind == .leftBrace || (t.kind == .semicolon && s.parens == 0)) := by
  cases hk : t.kind with
  | whitespace | newline => rw [hk] at hv; cases hv
  | semicolon =>
    have hparens : (s.closing style ';').parens = s.parens := (SameFrame.closing _ _).parens
    cases hn : s.parens with
    | zero => simp [State.emitSettled, hk, hparens, hn, State.newline]
    | succ n =>
      simp [State.emitSettled, hk, hparens, hn, State.write, closing_lineStart, Kind.isComment]
  | lineComment | blockComment | leftBrace =>
    simp [State.emitSettled, hk, State.newline, Kind.isComment]
  | colon =>
    simp only [State.emitSettled, hk]
    split <;> exact closing_lineStart s ':'
  | operator =>
    simp only [State.emitSettled, hk]
    exact operator_lineStart _ _
  | comma =>
    simp only [State.emitSettled, hk]
    exact closing_lineStart s ','
  | rightParen | rightBracket =>
    simp only [State.emitSettled, hk]
    exact closing_lineStart _ _
  | _ =>
    simp only [State.emitSettled, hk]
    exact begin_lineStart _ _

theorem emit_eq (s : State β) (hv : t.kind.isLayout = false) : s.emit style t =
    { (s.settle style t).emitSettled style t with
      prev := if t.kind.isComment then ((s.settle style t).emitSettled style t).prev
        else some t } := by
  unfold State.emit
  rw [hv, if_neg Bool.false_ne_true]
  dsimp only
  cases t.kind.isComment <;> rfl

/-- **What one token changes beside the text.** -/
theorem emitSettled_effect (style : Style) (s : State β) (t : Token) :
    (s.emitSettled style t).depth = (match t.kind with
      | .leftBrace => s.depth + 1
      | .rightBrace => s.depth - 1
      | _ => s.depth) ∧
    (s.emitSettled style t).parens = (match t.kind with
      | .leftParen => s.parens + 1
      | .rightParen => s.parens - 1
      | _ => s.parens) ∧
    (s.emitSettled style t).pendingJoiner = (s.pendingJoiner || t.kind == .rightBrace) ∧
    (s.emitSettled style t).prev = s.prev := by
  cases hk : t.kind with
  | leftBrace =>
    have f : SameFrame s (((s.begin style true).write ['\x7b']).newline style) :=
      ((SameFrame.begin _ _).trans (.write _ _)).trans (.newline _)
    simp only [State.emitSettled, hk]
    exact ⟨trivial, f.parens, by rw [f.pendingJoiner]; simp, f.prev⟩
  | rightBrace =>
    have f : SameFrame s (s.breakLine style) := .breakLine _
    have g : SameFrame { s.breakLine style with depth := (s.breakLine style).depth - 1 }
        (State.begin style false _) := .begin _ false
    simp only [State.emitSettled, hk]
    refine ⟨g.depth.trans ?_, g.parens.trans f.parens, by simp, g.prev.trans f.prev⟩
    exact congrArg (· - 1) f.depth
  | leftParen =>
    have f : SameFrame s ((s.begin style (parenApart style.dialect s.prev)).write ['(']) :=
      (SameFrame.begin _ _).trans (.write _ _)
    simp only [State.emitSettled, hk]
    exact ⟨f.depth, trivial, by rw [f.pendingJoiner]; simp, f.prev⟩
  | rightParen =>
    have f : SameFrame s (s.closing style ')') := .closing _ _
    simp only [State.emitSettled, hk]
    exact ⟨f.depth, trivial, by rw [f.pendingJoiner]; simp, f.prev⟩
  | _ =>
    have f : SameFrame s (s.emitSettled style t) :=
      emitSettled_frame s (by simp [hk]) (by simp [hk])
    exact ⟨f.depth, f.parens, by rw [f.pendingJoiner]; simp, f.prev⟩

theorem settle_depth (style : Style) (s : State β) (t : Token) :
    (s.settle style t).depth = s.depth := by
  unfold State.settle
  split
  · dsimp only
    split
    · rfl
    · exact (SameFrame.breakLine _).depth
  · rfl

/-- **One token goes down by one level at most**, and only an opening brace does. -/
theorem emit_depth_le (style : Style) (s : State β) (t : Token) :
    (s.emit style t).depth ≤ s.depth + [t].countP (·.kind == .leftBrace) := by
  cases hv : t.kind.isLayout with
  | true =>
    unfold State.emit
    rw [hv, if_pos rfl]
    omega
  | false =>
    have hdepth := (emitSettled_effect style (s.settle style t) t).1
    rw [settle_depth] at hdepth
    rw [emit_eq s hv]
    show ((s.settle style t).emitSettled style t).depth ≤ _
    rw [hdepth, List.countP_singleton]
    cases t.kind <;> simp

end RebecaLayout
