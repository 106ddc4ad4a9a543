import RebecaLayout.Layout.Engine
import RebecaLayout.Proofs.Trimming

/-!
The pieces of an output and the text they hold. The engine runs on pieces; what it writes is said
of the flat text.

* `Holds out t` -- the pieces `out` hold the text `t`, and **no piece is empty**, so that the last
  character written is the last of the newest piece;
* `Sink.Hom`, `layoutVia_hom` -- the engine asks of its output what a sink answers and nothing else,
  so **outputs that answer alike hold the same layout**; one lemma for each thing the engine does;
* `SolidPieces` -- pieces none of which is empty: seen without that they are pieces, joined they are
  a flat text;
* `Agrees s s'` -- two engines in the same place, one writing pieces and one a flat text;
  `Agrees.emit` -- one token keeps them so;
* `layout_eq_flat` -- so both write the same layout.
-/

namespace RebecaLayout

/-! ## 1. Outputs -/

/-- The pieces hold the text, and none of them is empty. -/
structure Holds (out : Pieces) (t : Text) : Prop where
  ne_nil : ∀ piece ∈ out.newestFirst, piece ≠ []
  text : out.text = t

variable {out : Pieces} {t : Text}

theorem pieces_text_cons (piece : Text) (older : List Text) :
    Pieces.text ⟨piece :: older⟩ = Pieces.text ⟨older⟩ ++ piece := by
  simp [Pieces.text]

theorem Holds.write (h : Holds out t) (x : Text) : Holds (out.write x) (t ++ x) := by
  unfold Pieces.write
  split
  · rename_i hx
    rw [List.isEmpty_iff.mp hx, List.append_nil]
    exact h
  · rename_i hx
    refine ⟨fun piece hm => ?_, by rw [pieces_text_cons]; exact congrArg (· ++ x) h.text⟩
    rcases List.mem_cons.mp hm with rfl | hm
    · simpa using hx
    · exact h.ne_nil piece hm

theorem Holds.trimEnd (h : Holds out t) (p : Char → Bool) :
    Holds (out.trimEnd p) (Text.trimEnd p t) := by
  obtain ⟨pieces⟩ := out
  have hne := h.ne_nil
  obtain rfl := h.text
  clear h
  induction pieces with
  | nil => exact ⟨by simp [Pieces.trimEnd, Pieces.trimList], rfl⟩
  | cons piece older ih =>
    have hold : ∀ x ∈ older, x ≠ [] := fun x hx => hne x (List.mem_cons_of_mem _ hx)
    rw [pieces_text_cons]
    unfold Pieces.trimEnd
    rw [Pieces.trimList]
    split
    · rename_i hkept
      have hall : ∀ c ∈ piece, p c = true :=
        List.rdropWhile_eq_nil_iff.mp (List.isEmpty_iff.mp hkept)
      rw [Text.trimEnd_append_of_all hall]
      exact ih hold
    · rename_i hkept
      have hex : ∃ c ∈ piece, p c = false := by
        by_contra hcon
        refine hkept (List.isEmpty_iff.mpr (Text.trimEnd_of_all fun c hc => ?_))
        cases hp : p c with
        | true => rfl
        | false => exact absurd ⟨c, hc, hp⟩ hcon
      obtain ⟨c, hc, hp⟩ := hex
      rw [Text.trimEnd_append_of_last hc hp, ← pieces_text_cons]
      refine ⟨fun x hx => ?_, rfl⟩
      rcases List.mem_cons.mp hx with rfl | hx
      · simpa using hkept
      · exact hold x hx

theorem Holds.last? (h : Holds out t) : out.last? = t.getLast? := by
  obtain ⟨pieces⟩ := out
  obtain rfl := h.text
  cases pieces with
  | nil => rfl
  | cons piece older =>
    have hne := h.ne_nil piece List.mem_cons_self
    rw [pieces_text_cons, List.getLast?_append_of_ne_nil _ hne]
    rfl

/-! ## 2. The engine and its output -/

/-- A map of outputs that keeps every answer. -/
structure Sink.Hom (β γ : Type) [Sink β] [Sink γ] where
  map : β → γ
  empty : map Sink.empty = Sink.empty
  write : ∀ out t, map (Sink.write out t) = Sink.write (map out) t
  trimEnd : ∀ p out, map (Sink.trimEnd p out) = Sink.trimEnd p (map out)
  last? : ∀ out, Sink.last? (map out) = Sink.last? out
  text : ∀ out, Sink.text (map out) = Sink.text out

namespace State

variable {β γ : Type} [Sink β] [Sink γ]

/-- The engine in the same place with another output. -/
def map (f : Sink.Hom β γ) (s : State β) : State γ := { s with out := f.map s.out }

variable (f : Sink.Hom β γ) (style : Style) (s : State β)

theorem map_start (depth : Nat) (lineStart : Bool) :
    (start depth lineStart : State β).map f = start depth lineStart := by
  unfold map start
  rw [f.empty]

theorem map_write (t : Text) : (s.write t).map f = (s.map f).write t := by
  unfold map write
  rw [f.write]

theorem map_trimEnd (p : Char → Bool) : (s.trimEnd p).map f = (s.map f).trimEnd p := by
  unfold map trimEnd
  rw [f.trimEnd]

theorem map_newline : (s.newline style).map f = (s.map f).newline style := by
  unfold newline
  rw [← map_trimEnd, ← map_write]
  rfl

theorem map_breakLine : (s.breakLine style).map f = (s.map f).breakLine style := by
  unfold breakLine
  rw [apply_ite (map f), map_newline]
  rfl

theorem map_indent : (s.indent style).map f = (s.map f).indent style := map_write f s _

theorem map_begin (space : Bool) : (s.begin style space).map f = (s.map f).begin style space := by
  have hlast : Sink.last? (s.map f).out = Sink.last? s.out := f.last? s.out
  unfold begin
  rw [hlast, ← map_indent, ← map_write, apply_ite (map f), apply_ite (map f)]
  rfl

theorem map_closing (mark : Char) : (s.closing style mark).map f = (s.map f).closing style mark := by
  unfold closing
  rw [map_write, map_begin, apply_ite (map f), map_trimEnd]
  rfl

theorem map_commentLine (line : Text) :
    (s.commentLine style line).map f = (s.map f).commentLine style line := by
  unfold commentLine
  dsimp only
  rw [apply_ite (map f), map_write, map_write, map_indent, map_newline]

theorem map_foldl_commentLine (lines : List Text) :
    (lines.foldl (commentLine style) s).map f = lines.foldl (commentLine style) (s.map f) := by
  induction lines generalizing s with
  | nil => rfl
  | cons line lines ih => rw [List.foldl_cons, ih, map_commentLine, List.foldl_cons]

theorem map_blockComment (comment : Text) :
    (s.blockComment style comment).map f = (s.map f).blockComment style comment := by
  unfold blockComment
  cases Text.splitLines comment with
  | nil => rfl
  | cons first further =>
    dsimp only
    rw [← map_write, ← map_foldl_commentLine]
    rfl

theorem fuses_map (op : Text) : (s.map f).fuses op = s.fuses op := by
  have hlast : Sink.last? (s.map f).out = Sink.last? s.out := f.last? s.out
  unfold fuses
  rw [hlast]
  rfl

theorem map_operator (op : Text) : (s.operator style op).map f = (s.map f).operator style op := by
  have hprev : (s.map f).prev = s.prev := rfl
  unfold operator
  rw [hprev]
  split
  · dsimp only
    rw [← map_begin, fuses_map, map_write, apply_ite (map f), map_write]
  · rw [map_write, map_write, map_begin]

theorem map_settle (t : Token) : (s.settle style t).map f = (s.map f).settle style t := by
  have hpending : (s.map f).pendingJoiner = s.pendingJoiner := rfl
  have hclear : { s.map f with pendingJoiner := false } =
      ({ s with pendingJoiner := false } : State β).map f := rfl
  unfold settle
  rw [hpending, hclear]
  split
  · dsimp only
    rw [apply_ite (map f), map_write, map_breakLine]
  · rfl

theorem map_emitSettled (t : Token) :
    (s.emitSettled style t).map f = (s.map f).emitSettled style t := by
  have hprev : (s.map f).prev = s.prev := rfl
  have hparens : ∀ s : State β, (s.map f).parens = s.parens := fun _ => rfl
  unfold emitSettled
  rw [hprev]
  cases t.kind with
  | whitespace | newline => rfl
  | identifier | keyword | number | string | character | dot | leftBracket | other =>
    rw [map_write, map_begin]
  | lineComment => rw [map_newline, map_write, map_begin]
  | blockComment => rw [map_newline, map_blockComment, map_begin]
  | leftBrace =>
    dsimp only
    rw [← map_begin, ← map_write, ← map_newline]
    rfl
  | rightBrace =>
    have hdeep : { (s.map f).breakLine style with depth := ((s.map f).breakLine style).depth - 1 } =
        ({ s.breakLine style with depth := (s.breakLine style).depth - 1 } : State β).map f := by
      rw [← map_breakLine]
      rfl
    dsimp only
    rw [hdeep, ← map_begin, ← map_write]
    rfl
  | semicolon =>
    dsimp only
    rw [← map_closing, hparens, apply_ite (map f), map_write, map_newline]
  | comma => rw [map_write, map_closing]
  | colon =>
    dsimp only
    rw [← map_closing, apply_ite (map f), map_write]
  | leftParen =>
    dsimp only
    rw [← map_begin, ← map_write]
    rfl
  | rightParen =>
    dsimp only
    rw [← map_closing]
    rfl
  | rightBracket => rw [map_closing]
  | operator => rw [map_operator]

/-- **One token does the same to both.** -/
theorem map_emit (t : Token) : (s.emit style t).map f = (s.map f).emit style t := by
  unfold emit
  dsimp only
  rw [← map_settle, ← map_emitSettled]
  split
  · rfl
  · rw [apply_ite (map f)]
    rfl

/-- Both write the token, or both fail for the same cause. -/
theorem feed_map (t : Token) : (s.map f).feed style t =
    ((s.feed style t).map (map f)).mapError (Prod.map id (map f)) := by
  have hstalls : (s.map f).stalls t = s.stalls t := rfl
  unfold feed
  rw [hstalls, ← map_settle, ← map_begin, ← map_emit]
  cases s.stalls t <;> rfl

/-- Both write the same tokens, or fail at the same token for the same cause. -/
theorem feedAll_map (ts : List Token) : (s.map f).feedAll style ts =
    ((s.feedAll style ts).map (map f)).mapError (Prod.map id (map f)) := by
  induction ts generalizing s with
  | nil => rfl
  | cons t ts ih =>
    unfold feedAll
    rw [feed_map]
    cases s.feed style t with
    | ok s' => exact ih s'
    | error e => rfl

theorem finish_map : (s.map f).finish style = s.finish style := by
  have htext : Sink.text (s.map f).out = Sink.text s.out := f.text s.out
  unfold finish
  rw [htext]

end State

/-- **Outputs that answer alike hold the same layout.** -/
theorem layoutVia_hom {β γ : Type} [Sink β] [Sink γ] (f : Sink.Hom β γ) (style : Style)
    (depth : Nat) (lineStart : Bool) (ts : List Token) :
    layoutVia γ style depth lineStart ts = layoutVia β style depth lineStart ts := by
  unfold layoutVia
  rw [← State.map_start f, State.feedAll_map]
  cases (State.start depth lineStart : State β).feedAll style ts with
  | ok s => exact congrArg Except.ok (s.finish_map f style)
  | error e => rfl

/-! ## 3. Pieces that can be looked at -/

/-- The pieces of an output, none of which is empty. -/
structure SolidPieces where
  pieces : Pieces
  solid : ∀ piece ∈ pieces.newestFirst, piece ≠ []

namespace SolidPieces

variable (out : SolidPieces)

theorem holds : Holds out.pieces out.pieces.text := ⟨out.solid, rfl⟩

/-- The last character of the newest piece, which is there if the piece is. -/
def last? : Option Char :=
  out.pieces.newestFirst.attach.head?.map fun piece => piece.1.getLast (out.solid piece.1 piece.2)

theorem last?_pieces : out.pieces.last? = out.last? := by
  obtain ⟨⟨pieces⟩, solid⟩ := out
  cases pieces with
  | nil => rfl
  | cons piece older => exact List.getLast?_eq_some_getLast (solid piece List.mem_cons_self)

end SolidPieces

instance : Sink SolidPieces where
  empty := ⟨⟨[]⟩, nofun⟩
  write out t := ⟨out.pieces.write t, (out.holds.write t).ne_nil⟩
  trimEnd p out := ⟨out.pieces.trimEnd p, (out.holds.trimEnd p).ne_nil⟩
  last? := SolidPieces.last?
  text out := out.pieces.text

/-- Solid pieces are pieces. -/
def SolidPieces.toPieces : Sink.Hom SolidPieces Pieces where
  map := SolidPieces.pieces
  empty := rfl
  write _ _ := rfl
  trimEnd _ _ := rfl
  last? := SolidPieces.last?_pieces
  text _ := rfl

/-- Solid pieces hold a text. -/
def SolidPieces.toText : Sink.Hom SolidPieces Text where
  map out := out.pieces.text
  empty := rfl
  write out t := (out.holds.write t).text
  trimEnd p out := (out.holds.trimEnd p).text
  last? out := out.holds.last?.symm.trans out.last?_pieces
  text _ := rfl

/-! ## 4. Two engines -/

/-- Two engines in the same place, one writing pieces and one a flat text. -/
structure Agrees (s : State Pieces) (s' : State Text) : Prop where
  out : Holds s.out s'.out
  depth : s.depth = s'.depth
  lineStart : s.lineStart = s'.lineStart
  pendingJoiner : s.pendingJoiner = s'.pendingJoiner
  parens : s.parens = s'.parens
  prev : s.prev = s'.prev

namespace Agrees

variable {s : State Pieces} {s' : State Text}

theorem start (depth : Nat) (lineStart : Bool) :
    Agrees (State.start depth lineStart) (State.start depth lineStart) :=
  ⟨⟨by simp [State.start, Sink.empty], rfl⟩, rfl, rfl, rfl, rfl, rfl⟩

/-- Two engines in the same place are one that writes solid pieces, seen in two ways. -/
theorem exists_solid (h : Agrees s s') : ∃ r : State SolidPieces,
    r.map SolidPieces.toPieces = s ∧ r.map SolidPieces.toText = s' := by
  obtain ⟨out, depth, lineStart, pendingJoiner, parens, prev⟩ := s
  obtain ⟨text, depth', lineStart', pendingJoiner', parens', prev'⟩ := s'
  obtain ⟨⟨solid, htext⟩, hdepth, hline, hpending, hparens, hprev⟩ := h
  dsimp only at solid htext hdepth hline hpending hparens hprev
  subst htext hdepth hline hpending hparens hprev
  exact ⟨⟨⟨out, solid⟩, depth, lineStart, pendingJoiner, parens, prev⟩, rfl, rfl⟩

theorem of_solid (r : State SolidPieces) :
    Agrees (r.map SolidPieces.toPieces) (r.map SolidPieces.toText) :=
  ⟨r.out.holds, rfl, rfl, rfl, rfl, rfl⟩

/-- **One token keeps both engines in the same place.** -/
theorem emit (h : Agrees s s') (style : Style) (t : Token) :
    Agrees (s.emit style t) (s'.emit style t) := by
  obtain ⟨r, rfl, rfl⟩ := h.exists_solid
  rw [← State.map_emit, ← State.map_emit]
  exact of_solid (r.emit style t)

end Agrees

/-- **The layout is that of an engine that writes a flat text.** -/
theorem layout_eq_flat (style : Style) (depth : Nat) (lineStart : Bool) (tokens : List Token) :
    layout style depth lineStart tokens = layoutVia Text style depth lineStart tokens :=
  (layoutVia_hom SolidPieces.toPieces style depth lineStart tokens).trans
    (layoutVia_hom SolidPieces.toText style depth lineStart tokens).symm

end RebecaLayout
