import RebecaLayout.Layout.Stepwise
import RebecaLayout.Proofs.Buffer
import RebecaLayout.Proofs.Frame
import RebecaLayout.Proofs.Reading

/-!
Tokens of any kind and text, fed to the engine from any depth.

* `State.step_map`, `State.stepAll_map` -- an engine does the same with outputs that answer alike:
  it writes the same tokens, or fails at the same place for the same cause;
* `State.flat` -- the engine with the joined text in place of the pieces;
* `stepAll_flat` -- **the pieces are a flat text at every step**: none of them is empty, the last
  character of the newest is that of the text, and trimming them trims the text;
* `State.stepAll_eq_feedAll_iff` -- **the limits of the machine change nothing but where a token
  overflows**; `State.stepAll_eq_feedAll` bounds that by the braces, `stepAll_tokenize` by the text;
* `layout_of_stepAll` -- what a run within the limits writes is the layout.
-/

namespace RebecaLayout

namespace State

/-! ## 1. One step -/

section Hom

variable {β γ : Type} [Sink β] [Sink γ] (f : Sink.Hom β γ) (machine : Machine) (style : Style)
  (s : State β)

theorem map_ready (t : Token) : (s.ready style t).map f = (s.map f).ready style t := by
  unfold ready
  dsimp only
  rw [← map_settle, ← map_breakLine]
  split <;> rfl

theorem map_beforeFurtherLine? (comment : Text) :
    (s.beforeFurtherLine? style comment).map (map f) =
      (s.map f).beforeFurtherLine? style comment := by
  unfold beforeFurtherLine?
  cases Text.splitLines comment with
  | nil => rfl
  | cons first further =>
    dsimp only
    rw [← map_write, ← map_foldl_commentLine, ← map_newline]
    split <;> rfl

/-- Both fail for their indentation at the same place. -/
theorem overflow?_map (t : Token) : (s.map f).overflow? machine style t =
    (s.overflow? machine style t).map (Prod.map id (map f)) := by
  unfold overflow?
  rw [← map_ready]
  split
  · rfl
  · have herror : ((s.ready style t).map f).indentError? machine style =
        (s.ready style t).indentError? machine style := rfl
    have hline : ((s.ready style t).map f).lineStart = (s.ready style t).lineStart := rfl
    dsimp only
    rw [herror, hline, ← map_begin, ← map_beforeFurtherLine?]
    cases (s.ready style t).indentError? machine style with
    | none => rfl
    | some failure =>
      dsimp only
      split
      · rfl
      split
      · rw [Option.map_map, Option.map_map]
        rfl
      · rfl

/-- **One step does the same to both.** -/
theorem step_map (t : Token) : (s.map f).step machine style t =
    ((s.step machine style t).map (map f)).mapError (Prod.map id (map f)) := by
  unfold step
  rw [overflow?_map]
  cases s.overflow? machine style t with
  | some stopped => rfl
  | none => exact feed_map f style s t

/-- **A run does the same to both.** -/
theorem stepAll_map (ts : List Token) : (s.map f).stepAll machine style ts =
    ((s.stepAll machine style ts).map (map f)).mapError (Prod.map id (map f)) := by
  induction ts generalizing s with
  | nil => rfl
  | cons t ts ih =>
    unfold stepAll
    rw [step_map]
    cases s.step machine style t with
    | ok s' => exact ih s'
    | error e => rfl

end Hom

/-! ## 2. Runs on pieces -/

/-- The engine with the joined text in place of the pieces. -/
def flat (s : State Pieces) : State Text := { s with out := s.out.text }

/-- A run on pieces is one on pieces that cannot be empty. -/
theorem exists_solid_of_stepAll {machine : Machine} {style : Style} {depth : Nat}
    {lineStart : Bool} {ts : List Token} {s : State Pieces}
    (h : (start depth lineStart).stepAll machine style ts = .ok s) :
    ∃ r : State SolidPieces, (start depth lineStart).stepAll machine style ts = .ok r ∧
      r.map SolidPieces.toPieces = s := by
  rw [← map_start SolidPieces.toPieces, stepAll_map] at h
  cases hrun : (start depth lineStart : State SolidPieces).stepAll machine style ts with
  | error e =>
    rw [hrun] at h
    cases h
  | ok r =>
    rw [hrun] at h
    exact ⟨r, rfl, Except.ok.inj h⟩

/-- **A run on pieces is a run on a flat text.** -/
theorem stepAll_text (machine : Machine) (style : Style) (depth : Nat) (lineStart : Bool)
    (ts : List Token) :
    (start depth lineStart : State Text).stepAll machine style ts =
      (((start depth lineStart : State Pieces).stepAll machine style ts).map flat).mapError
        (Prod.map id flat) := by
  rw [← map_start SolidPieces.toText, stepAll_map, ← map_start SolidPieces.toPieces, stepAll_map]
  cases (start depth lineStart : State SolidPieces).stepAll machine style ts <;> rfl

end State

/-- **The pieces are a flat text at every step**, for tokens of any kinds and texts, in any style and
    from any depth. The engine on a flat text goes through the same places, and fails where the engine
    on pieces fails, for the same cause. As long as none of them fails, no piece is empty, the last
    character of the newest piece is that of the text, and trimming the pieces trims the text; and no
    piece was empty whenever one was looked at. -/
theorem stepAll_flat (machine : Machine) (style : Style) (depth : Nat) (lineStart : Bool)
    (ts : List Token) :
    (State.start depth lineStart : State Text).stepAll machine style ts =
      (((State.start depth lineStart : State Pieces).stepAll machine style ts).map State.flat).mapError
        (Prod.map id State.flat) ∧
    ∀ s : State Pieces, (State.start depth lineStart).stepAll machine style ts = .ok s →
      (∀ piece ∈ s.out.newestFirst, piece ≠ []) ∧
      (∀ chars : Text, s.out.last?.any chars.contains = true ↔
        ∃ front c, s.out.text = front ++ [c] ∧ c ∈ chars) ∧
      (∀ p, (s.out.trimEnd p).text = Text.trimEnd p s.out.text) ∧
      ∃ r : State SolidPieces, (State.start depth lineStart).stepAll machine style ts = .ok r ∧
        r.map SolidPieces.toPieces = s := by
  refine ⟨State.stepAll_text machine style depth lineStart ts, fun s h => ?_⟩
  obtain ⟨r, hr, rfl⟩ := State.exists_solid_of_stepAll h
  have hholds := r.out.holds
  refine ⟨hholds.ne_nil, fun chars => ?_, fun p => (hholds.trimEnd p).text, r, hr, rfl⟩
  have hlast : (r.map SolidPieces.toPieces).out.last? = r.out.pieces.text.getLast? := hholds.last?
  rw [hlast, Option.any_eq_true]
  constructor
  · rintro ⟨c, hc, hmem⟩
    obtain ⟨front, hfront⟩ := List.getLast?_eq_some_iff.mp hc
    exact ⟨front, c, hfront, List.contains_iff_mem.mp hmem⟩
  · rintro ⟨front, c, hfront, hmem⟩
    exact ⟨c, List.getLast?_eq_some_iff.mpr ⟨front, hfront⟩, List.contains_iff_mem.mpr hmem⟩

/-- Lines end with nothing, and the unit is no blank. -/
def oddStyle : Style := ⟨.rebeca, ['-', '-'], []⟩

/-- Tokens without text, and a comment with a blank line. -/
def oddTokens : List Token :=
  [⟨.comma, []⟩, ⟨.blockComment, "/*a \n\n\t*b".toList⟩, ⟨.semicolon, []⟩, ⟨.other, []⟩,
    ⟨.operator, []⟩]

/-- The two spaces around the last operator, which has no text, are pieces of their own. -/
theorem stepAll_flat_odd :
    ∃ s : State Pieces, (State.start 1 true).stepAll .small oddStyle oddTokens = .ok s ∧
      s.out.newestFirst.take 3 = [[' '], [' '], ['-', '-']] ∧
      (∀ piece ∈ s.out.newestFirst, piece ≠ []) ∧
      s.out.last?.any ("\t ".toList).contains = true ∧
      (s.out.trimEnd (· == ' ')).text = "--, /*a-- *b--;--".toList ∧
      (State.start 1 true).stepAll .small oddStyle oddTokens = .ok s.flat ∧
      s.flat.out = "--, /*a-- *b--;--  ".toList := by
  obtain ⟨hflat, hsolid⟩ := stepAll_flat .small oddStyle 1 true oddTokens
  obtain ⟨hne, hends, htrim, -⟩ := hsolid _ rfl
  refine ⟨_, rfl, rfl, hne, ?_, ?_, hflat, by decide +kernel⟩
  · exact (hends _).mpr ⟨"--, /*a-- *b--;-- ".toList, ' ', by decide +kernel, by decide⟩
  · exact (htrim _).trans (by decide +kernel)

/-! ## 3. Within the limits -/

/-- A text can be repeated as long as the count is a machine word and memory holds the result. -/
theorem repeatError?_eq_none_iff {machine : Machine} {length count : Nat} :
    repeatError? machine length count = none ↔
      count < wordLimit ∧ length * count < machine.memory := by
  have hmemory := machine.memory_le
  unfold repeatError?
  split
  · simp
    omega
  split
  · simp
    omega
  split
  · simp
    omega
  · simp
    omega

/-- What can be repeated can be repeated less often. -/
theorem repeatError?_of_le {machine : Machine} {length m n : Nat} (hle : m ≤ n)
    (h : repeatError? machine length n = none) : repeatError? machine length m = none := by
  obtain ⟨hword, hmemory⟩ := repeatError?_eq_none_iff.mp h
  have hmul : length * m ≤ length * n := Nat.mul_le_mul_left length hle
  exact repeatError?_eq_none_iff.mpr ⟨by omega, by omega⟩

namespace State

variable {β : Type} [Sink β] {machine : Machine} {style : Style} {s s' : State β} {t : Token}

theorem ready_depth_le (style : Style) (s : State β) (t : Token) :
    (s.ready style t).depth ≤ s.depth := by
  unfold ready
  dsimp only
  split
  · show ((s.settle style t).breakLine style).depth - 1 ≤ s.depth
    rw [(SameFrame.breakLine _).depth, settle_depth]
    omega
  · exact (settle_depth style s t).le

/-- A token whose indentation can be written does not overflow. -/
theorem overflow?_eq_none (h : (s.ready style t).indentError? machine style = none) :
    s.overflow? machine style t = none := by
  unfold overflow?
  dsimp only
  rw [h]
  split <;> rfl

/-- A token overflows for its indentation alone. -/
theorem overflow?_cause {stopped : Failure × State β}
    (h : s.overflow? machine style t = some stopped) :
    ∃ cause, stopped.1 = .unrepeatable cause := by
  cases herror : (s.ready style t).indentError? machine style with
  | none =>
    rw [overflow?_eq_none herror] at h
    cases h
  | some failure =>
    obtain ⟨cause, -, rfl⟩ := Option.map_eq_some_iff.mp herror
    unfold overflow? at h
    dsimp only at h
    rw [herror] at h
    split at h
    · cases h
    dsimp only at h
    split at h
    · cases h
      exact ⟨cause, rfl⟩
    split at h
    · obtain ⟨r, -, rfl⟩ := Option.map_eq_some_iff.mp h
      exact ⟨cause, rfl⟩
    · cases h

theorem feed_eq_ok (h : s.feed style t = .ok s') : s' = s.emit style t := by
  unfold feed at h
  split at h
  · cases h
  · exact (Except.ok.inj h).symm

/-- Without limits, only an operator without text stops the engine. -/
theorem feedAll_cause {stopped : Failure × State β} {ts : List Token}
    (h : s.feedAll style ts = .error stopped) : stopped.1 = .emptyOperator := by
  induction ts generalizing s with
  | nil => cases h
  | cons t ts ih =>
    unfold feedAll feed at h
    split at h
    · exact ih h
    · rename_i e hfeed
      cases h
      split at hfeed
      · cases hfeed
        rfl
      · cases hfeed

/-- **A run that the limits do not stop is the run without limits.** -/
theorem feedAll_of_stepAll {ts : List Token} (h : s.stepAll machine style ts = .ok s') :
    s.feedAll style ts = .ok s' := by
  induction ts generalizing s with
  | nil => exact h
  | cons t ts ih =>
    rw [stepAll, step] at h
    cases hover : s.overflow? machine style t with
    | some stopped =>
      rw [hover] at h
      cases h
    | none =>
      rw [hover] at h
      dsimp only at h
      rw [feedAll]
      cases hfeed : s.feed style t with
      | error stopped =>
        rw [hfeed] at h
        cases h
      | ok r =>
        rw [hfeed] at h
        exact ih h

/-- One token, from where the engine stands. -/
theorem stepAll_cons_eq_iff {ts : List Token} :
    s.stepAll machine style (t :: ts) = s.feedAll style (t :: ts) ↔
      s.overflow? machine style t = none ∧
      ∀ s', s.feed style t = .ok s' → s'.stepAll machine style ts = s'.feedAll style ts := by
  rw [stepAll, step]
  cases hover : s.overflow? machine style t with
  | some stopped =>
    -- whatever the engine without limits does, it does not fail for this cause
    obtain ⟨cause, hcause⟩ := overflow?_cause hover
    dsimp only
    refine ⟨fun h => ?_, fun h => absurd h.1 (Option.some_ne_none stopped)⟩
    rw [feedAll_cause h.symm] at hcause
    cases hcause
  | none =>
    dsimp only
    rw [feedAll]
    cases s.feed style t with
    | error stopped => simp
    | ok r => simp

/-- **The limits change nothing but where a token overflows**: the engine with limits and the one
    without agree on tokens exactly if none of them overflows at the place that the tokens before
    it lead to. -/
theorem stepAll_eq_feedAll_iff (ts : List Token) :
    s.stepAll machine style ts = s.feedAll style ts ↔
      ∀ front t back, ts = front ++ t :: back → ∀ s', s.feedAll style front = .ok s' →
        s'.overflow? machine style t = none := by
  induction ts generalizing s with
  | nil => simp [stepAll, feedAll]
  | cons t ts ih =>
    rw [stepAll_cons_eq_iff]
    constructor
    · intro h front u back e s' hfront
      obtain ⟨hover, hrest⟩ := h
      cases front with
      | nil =>
        cases e
        cases hfront
        exact hover
      | cons v front =>
        obtain ⟨rfl, rfl⟩ := List.cons.inj e
        unfold feedAll at hfront
        split at hfront
        · rename_i r hfeed
          exact ih.mp (hrest r hfeed) front u back rfl s' hfront
        · cases hfront
    · intro h
      refine ⟨h [] t ts rfl s rfl, fun r hfeed => ih.mpr fun front u back e s' hfront => ?_⟩
      refine h (t :: front) u back (by rw [e]; rfl) s' ?_
      unfold feedAll
      rw [hfeed]
      exact hfront

/-- A run goes down by as many levels as braces are opened, at most. -/
theorem feedAll_depth_le {ts : List Token} (h : s.feedAll style ts = .ok s') :
    s'.depth ≤ s.depth + ts.countP (·.kind == .leftBrace) := by
  induction ts generalizing s with
  | nil =>
    cases h
    omega
  | cons t ts ih =>
    unfold feedAll at h
    split at h
    · rename_i r hfeed
      have hstep := emit_depth_le style s t
      rw [← feed_eq_ok hfeed] at hstep
      have hrest := ih h
      rw [← List.singleton_append, List.countP_append]
      omega
    · cases h

/-- **Where the deepest indentation that the braces allow can be written, the limits change
    nothing.** -/
theorem stepAll_eq_feedAll (s : State β) (ts : List Token)
    (h : repeatError? machine style.unit.length
      (s.depth + ts.countP (·.kind == .leftBrace)) = none) :
    s.stepAll machine style ts = s.feedAll style ts := by
  rw [stepAll_eq_feedAll_iff]
  intro front t back e s' hfront
  apply overflow?_eq_none
  have hdepth : (s'.ready style t).depth ≤ s.depth + ts.countP (·.kind == .leftBrace) := by
    have hready := ready_depth_le style s' t
    have hrun := feedAll_depth_le hfront
    rw [e, List.countP_append]
    omega
  unfold indentError?
  rw [repeatError?_of_le hdepth h]
  rfl

end State

/-- What a run within the limits has written, finished, is the layout: so all that is said of layouts
    at any depth is said of it. -/
theorem layout_of_stepAll {machine : Machine} {style : Style} {depth : Nat} {lineStart : Bool}
    {ts : List Token} {s : State Pieces}
    (h : (State.start depth lineStart).stepAll machine style ts = .ok s) :
    layout style depth lineStart ts = .ok (s.finish style) := by
  unfold layout layoutVia
  rw [State.feedAll_of_stepAll h]

theorem length_tokenize_le (d : Dialect) (x : Text) : (tokenize d x).length ≤ x.length := by
  induction x using text_induction d with
  | nil => exact Nat.le_refl 0
  | step t rest h ih =>
    have hpos := List.length_pos_iff.mpr h.text_ne_nil
    rw [tokenize_append h, List.length_cons, List.length_append]
    omega

/-- **The depth of a text is bounded by the text**: from a depth that leaves room for as many
    levels as the text has characters, the layout fails at no indentation. -/
theorem stepAll_tokenize {β : Type} [Sink β] {machine : Machine} {style : Style} {depth : Nat}
    {x : Text} (hword : depth + x.length < wordLimit)
    (hmemory : style.unit.length * (depth + x.length) < machine.memory) (d : Dialect)
    (lineStart : Bool) :
    (State.start depth lineStart : State β).stepAll machine style (tokenize d x) =
      (State.start depth lineStart).feedAll style (tokenize d x) := by
  apply State.stepAll_eq_feedAll
  have hbraces : (tokenize d x).countP (·.kind == .leftBrace) ≤ x.length :=
    List.countP_le_length.trans (length_tokenize_le d x)
  have hroom : repeatError? machine style.unit.length (depth + x.length) = none :=
    repeatError?_eq_none_iff.mpr ⟨hword, hmemory⟩
  exact repeatError?_of_le (Nat.add_le_add_left hbraces depth) hroom

end RebecaLayout
