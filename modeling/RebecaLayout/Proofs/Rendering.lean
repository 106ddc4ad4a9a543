import RebecaLayout.Layout.Source
import RebecaLayout.Proofs.Buffer
import RebecaLayout.Proofs.Frame
import RebecaLayout.Proofs.Spacing

/-!
The engine writes what `rendered` says: **every trim it makes takes back blanks that it wrote itself
behind the last token**, and so the layout is gap after body after gap.

* `trail` -- what the engine has written behind the last token;
* `Stands style p r s` -- the invariant: the engine `s` has written `r` and the trail, and stands
  where the spot `p` says; `r` does not end with a blank;
* `Stands.emit_out`, `Stands.emit` -- one token: the text it writes, and the invariant again;
* `feedAll_rendered`, `layout_rendered` -- a run, and the whole layout;
* `formatSource_rendered` -- the layout of a whole text, with what is not given taken from the text.
-/

namespace RebecaLayout

variable {style : Style} {p : Spot} {r : Text} {s : State Text} {t : Token} {d : Dialect}

/-! ## 1. Comments -/

/-- The end of a text that was trimmed and then grew stays firm: no blank ends it. -/
theorem firm_append {a b : Text} (ha : ∀ c ∈ a.getLast?, Text.isBlank c = false)
    (hb : ∀ c ∈ b.getLast?, Text.isBlank c = false) :
    ∀ c ∈ (a ++ b).getLast?, Text.isBlank c = false := by
  intro c hc
  cases b with
  | nil => exact ha c (by simpa using hc)
  | cons x b => exact hb c (by rwa [List.getLast?_append_of_ne_nil _ (by simp)] at hc)

theorem furtherLine_firm (style : Style) (depth : Nat) (line : Text) :
    ∀ c ∈ (furtherLine style depth line).getLast?, Text.isBlank c = false := by
  unfold furtherLine
  dsimp only
  split
  · intro c hc; cases hc
  · rename_i hne
    intro c hc
    have hne' : Text.trim Text.isBlank line ≠ [] := by simpa using hne
    rw [List.getLast?_append_of_ne_nil _ (by simp [hne']),
      List.getLast?_append_of_ne_nil _ hne'] at hc
    exact Text.trim_last Text.isBlank line c hc

/-- A line end in front of a line does not leave a blank at the end. -/
theorem further_firm (h : style.Orderly) (depth : Nat) (line a : Text) :
    ∀ c ∈ (a ++ (style.terminator ++ furtherLine style depth line)).getLast?,
      Text.isBlank c = false := by
  rw [← List.append_assoc]
  exact firm_append (h.terminator.last_not_blank a) (furtherLine_firm style depth line)

theorem newline_out (hfirm : ∀ c ∈ r.getLast?, Text.isBlank c = false) {b : Text}
    (hb : ∀ c ∈ b, Text.isBlank c = true) (ho : s.out = r ++ b) :
    (s.newline style).out = r ++ style.terminator := by
  have e : (s.newline style).out = Text.trimEnd Text.isBlank s.out ++ style.terminator := rfl
  rw [e, ho, Text.trimEnd_append_of_all hb, Text.trimEnd_eq_self hfirm]

theorem commentLine_out (hfirm : ∀ c ∈ s.out.getLast?, Text.isBlank c = false) (line : Text) :
    (s.commentLine style line).out =
      s.out ++ (style.terminator ++ furtherLine style s.depth line) := by
  have hnew : (s.newline style).out = s.out ++ style.terminator :=
    newline_out (b := []) hfirm (by simp) (by simp)
  unfold State.commentLine furtherLine
  dsimp only
  split
  · rw [hnew, List.append_nil]
  · have hindent : ((s.newline style).indent style).out =
        s.out ++ style.terminator ++ Text.times style.unit s.depth := by
      rw [← hnew]
      rfl
    simp only [State.write, Sink.write]
    rw [hindent]
    simp only [List.append_assoc]

theorem foldl_commentLine_out (h : style.Orderly) (lines : List Text) (s : State Text)
    (hfirm : ∀ c ∈ s.out.getLast?, Text.isBlank c = false) :
    (lines.foldl (State.commentLine style) s).out =
      s.out ++ lines.flatMap (fun line => style.terminator ++ furtherLine style s.depth line) := by
  induction lines generalizing s with
  | nil => simp
  | cons line lines ih =>
    have hout : (s.commentLine style line).out =
        s.out ++ (style.terminator ++ furtherLine style s.depth line) := commentLine_out hfirm line
    have hfirm' : ∀ c ∈ (s.commentLine style line).out.getLast?, Text.isBlank c = false := by
      rw [hout]
      exact further_firm h s.depth line s.out
    rw [List.foldl_cons, ih _ hfirm', hout, (SameFrame.commentLine s line).depth, List.flatMap_cons,
      List.append_assoc]

/-- A text that opens a block comment. -/
theorem commentLines_open (style : Style) (depth : Nat) (x : Text) :
    ∃ first further, Text.splitLines ('/' :: '*' :: x) = first :: further ∧
      commentLines style depth ('/' :: '*' :: x) =
        Text.trimEnd Text.isBlank first :: further.map (furtherLine style depth) ∧
      Text.trimEnd Text.isBlank first ≠ [] := by
  obtain ⟨first, further, e⟩ := Text.exists_splitLines ('/' :: '*' :: x)
  refine ⟨first, further, e, by simp only [commentLines, e], fun hnil => ?_⟩
  have hfirst := Text.splitLines_first e
  rw [List.takeWhile_cons_of_pos (by decide)] at hfirst
  have hblank := List.rdropWhile_eq_nil_iff.mp hnil '/' (by rw [hfirst]; exact List.mem_cons_self)
  cases hblank

theorem blockComment_out (h : style.Orderly) (s : State Text) (x : Text) :
    (s.blockComment style ('/' :: '*' :: x)).out =
      s.out ++ style.terminator.intercalate (commentLines style s.depth ('/' :: '*' :: x)) := by
  obtain ⟨first, further, e, elines, hne⟩ := commentLines_open style s.depth x
  have hfirm : ∀ c ∈ (s.out ++ Text.trimEnd Text.isBlank first).getLast?, Text.isBlank c = false := by
    rw [List.getLast?_append_of_ne_nil _ hne]
    exact Text.trimEnd_last _ _
  have hfold := foldl_commentLine_out h further (s.write (Text.trimEnd Text.isBlank first)) hfirm
  rw [elines, Text.intercalate_cons, List.flatMap_map]
  unfold State.blockComment
  rw [e]
  dsimp only
  rw [hfold]
  simp only [State.write, Sink.write, List.append_assoc]

/-- A block comment as it is written does not end with a blank. -/
theorem commentLines_firm (h : style.Orderly) (depth : Nat) (x : Text) :
    ∀ c ∈ (style.terminator.intercalate (commentLines style depth ('/' :: '*' :: x))).getLast?,
      Text.isBlank c = false := by
  -- each further line leaves a firm end behind, so the last of them does
  have hall : ∀ (lines : List Text) (a : Text), (∀ c ∈ a.getLast?, Text.isBlank c = false) →
      ∀ c ∈ (a ++ (lines.map (furtherLine style depth)).flatMap (style.terminator ++ ·)).getLast?,
        Text.isBlank c = false := by
    intro lines
    induction lines with
    | nil => intro a ha; simpa using ha
    | cons line lines ih =>
      intro a ha
      rw [List.map_cons, List.flatMap_cons, ← List.append_assoc]
      exact ih _ (further_firm h depth line a)
  obtain ⟨first, further, -, elines, -⟩ := commentLines_open style depth x
  rw [elines, Text.intercalate_cons]
  exact hall further _ (Text.trimEnd_last Text.isBlank first)

/-! ## 2. The invariant -/

/-- What the engine has written behind the last token. -/
def trail (style : Style) (p : Spot) : Text :=
  if p.lineStart then lineBreak style p else if p.apart then [' '] else []

/-- **The engine `s` has written `r` and the trail, and stands where the spot `p` says.** -/
structure Stands (style : Style) (p : Spot) (r : Text) (s : State Text) : Prop where
  out : s.out = r ++ trail style p
  depth : s.depth = p.depth
  lineStart : s.lineStart = p.lineStart
  pendingJoiner : s.pendingJoiner = (p.last == some .rightBrace)
  parens : s.parens = p.parens
  prev : s.prev = p.prev
  /-- Trimming blanks does not reach into `r`. -/
  firm : ∀ c ∈ r.getLast?, Text.isBlank c = false
  /-- Behind a closing brace nothing is written. -/
  brace : p.last = some .rightBrace → p.lineStart = false ∧ p.apart = false
  first : p.last = none → p.prev = none
  /-- An operator before is one, and on an open line `r` ends with it. -/
  operator : ∀ q, p.prev = some q → q.kind = .operator →
    q.text ∈ operators ∧ (p.lineStart = false → r.getLast? = q.text.getLast?)

theorem stands_start (style : Style) (depth : Nat) (lineStart : Bool) :
    Stands style (.start depth lineStart) [] (State.start depth lineStart) where
  out := by cases lineStart <;> rfl
  depth := rfl
  lineStart := rfl
  pendingJoiner := rfl
  parens := rfl
  prev := rfl
  firm := by simp
  brace := by simp [Spot.start]
  first _ := rfl
  operator := by simp [Spot.start]

/-- What layout needs to know of the texts of tokens. -/
structure Proper (t : Token) : Prop where
  mark : t.kind.mark ≠ [] → t.text = t.kind.mark
  operator : t.kind = .operator → t.text ∈ operators
  lineComment : t.kind = .lineComment → ∃ x, t.text = '/' :: '/' :: x
  blockComment : t.kind = .blockComment → ∃ x, t.text = '/' :: '*' :: x

theorem Reads.proper {rest : Text} (h : Reads d t rest) : Proper t := by
  cases h with
  | lineComment => exact ⟨by simp [Kind.mark], by simp, fun _ => ⟨_, rfl⟩, by simp⟩
  | blockComment => exact ⟨by simp [Kind.mark], by simp, by simp, fun _ => ⟨_, rfl⟩⟩
  | literal opens _ =>
    rcases literalKind?_cases opens with ⟨rfl, rfl⟩ | ⟨rfl, rfl⟩
    · exact ⟨by simp [Kind.mark], by simp, by simp, by simp⟩
    · exact ⟨by simp [Kind.mark], by simp, by simp, by simp⟩
  | @word c x _ _ _ _ =>
    rcases wordKind_cases d (c :: x) with e | e <;> rw [e] <;>
      exact ⟨by simp [Kind.mark], by simp, by simp, by simp⟩
  | mark isMark =>
    have hm := mark_of_punctuation isMark
    refine ⟨fun _ => hm.symm, ?_, ?_, ?_⟩ <;> rintro rfl <;> simp [Kind.mark] at hm
  | operator longest _ =>
    exact ⟨by simp [Kind.mark], fun _ => (operatorAt?_spec longest).1, by simp, by simp⟩
  | _ => exact ⟨by simp [Kind.mark], by simp, by simp, by simp⟩

theorem isComment_cases {kind : Kind} (h : kind.isComment = true) :
    kind = .lineComment ∨ kind = .blockComment := by
  cases kind <;> simp [Kind.isComment] at h ⊢

/-- A comment as it is written ends with no blank. -/
theorem comment_firm (ho : style.Orderly) (hp : Proper t) (hc : t.kind.isComment = true)
    (depth : Nat) : body style depth t ≠ [] ∧
      ∀ c ∈ (body style depth t).getLast?, Text.isBlank c = false := by
  rcases isComment_cases hc with hk | hk
  · obtain ⟨x, ht⟩ := hp.lineComment hk
    simp only [body, hk, ht]
    refine ⟨fun hnil => ?_, fun c hl => ?_⟩
    · have hspace := List.rdropWhile_eq_nil_iff.mp hnil '/' List.mem_cons_self
      revert hspace
      decide
    · exact (not_layoutChar_iff.mp (Text.trimEnd_isSpace_last _ c hl)).1
  · obtain ⟨x, ht⟩ := hp.blockComment hk
    simp only [body, hk, ht]
    refine ⟨?_, commentLines_firm ho depth x⟩
    obtain ⟨first, further, -, elines, hne⟩ := commentLines_open style depth x
    rw [elines, Text.intercalate_cons]
    exact fun hnil => hne (List.append_eq_nil_iff.mp hnil).1

/-! ## 3. Where a token is written -/

/-- What stands behind the last token once it is decided whether a closing brace ends its line. -/
def settledTrail (style : Style) (p : Spot) (t : Token) : Text :=
  if p.broken style.dialect t then lineBreak style p
  else if p.apart || p.last == some .rightBrace then [' ']
  else []

/-- The engine stands ready for the token `t`. -/
structure Settled (style : Style) (p : Spot) (r : Text) (t : Token) (s : State Text) : Prop where
  out : s.out = r ++ settledTrail style p t
  lineStart : s.lineStart = p.broken style.dialect t
  depth : s.depth = p.depth
  pendingJoiner : s.pendingJoiner = false
  parens : s.parens = p.parens
  prev : s.prev = p.prev

theorem Stands.settle (h : Stands style p r s) (t : Token) :
    Settled style p r t (s.settle style t) := by
  cases hb : p.last == some .rightBrace with
  | false =>
    have hkeep : s.settle style t = s := by
      unfold State.settle
      rw [h.pendingJoiner, hb]
      rfl
    have hbroken : p.broken style.dialect t = p.lineStart := by
      simp [Spot.broken, hb]
    have htrail : settledTrail style p t = trail style p := by
      simp [settledTrail, trail, hbroken, hb]
    rw [hkeep]
    exact ⟨htrail ▸ h.out, hbroken ▸ h.lineStart, h.depth, h.pendingJoiner.trans hb, h.parens, h.prev⟩
  | true =>
    obtain ⟨hopen, hclose⟩ := h.brace (beq_iff_eq.mp hb)
    have hout : s.out = r := by
      rw [h.out, trail, hopen, hclose]
      exact List.append_nil r
    have hline : s.lineStart = false := h.lineStart.trans hopen
    have hbroken : p.broken style.dialect t = !t.joins style.dialect := by
      simp [Spot.broken, hb, hopen]
    unfold State.settle
    rw [h.pendingJoiner, hb, if_pos rfl]
    change Settled style p r t (if t.joins style.dialect = true then _ else _)
    cases hj : t.joins style.dialect with
    | true =>
      have htrail : settledTrail style p t = [' '] := by
        simp [settledTrail, hbroken, hj, hb]
      rw [if_pos rfl]
      refine ⟨?_, ?_, h.depth, rfl, h.parens, h.prev⟩
      · rw [htrail, ← hout]
        rfl
      · rw [hbroken, hj]
        exact hline
    | false =>
      have htrail : settledTrail style p t = style.terminator := by
        simp [settledTrail, hbroken, hj, lineBreak, hopen]
      rw [if_neg Bool.false_ne_true]
      unfold State.breakLine
      rw [if_neg (by simp [hline])]
      refine ⟨?_, ?_, h.depth, rfl, h.parens, h.prev⟩
      · rw [htrail]
        exact newline_out (b := []) h.firm (by simp) (by simpa using hout)
      · rw [hbroken, hj]
        rfl

/-- What a token that opens no line by itself has in front of it. -/
def leadIn (style : Style) (p : Spot) (t : Token) (space : Bool) : Text :=
  if p.broken style.dialect t then lineBreak style p ++ Text.times style.unit p.depth
  else if space then [' ']
  else []

theorem gap_eq_leadIn (h : t.kind ≠ .rightBrace) :
    gap style p t = leadIn style p t (p.spaced style.dialect t) := by
  have hkind : (t.kind == .rightBrace) = false := beq_eq_false_iff_ne.mpr h
  simp only [gap, leadIn, Spot.opensLine, Spot.depthAt, hkind, Bool.or_false,
    if_neg Bool.false_ne_true]

theorem leadIn_layout (ho : style.Orderly) (p : Spot) (t : Token) (space : Bool) :
    ∀ c ∈ leadIn style p t space, Text.isLayoutChar c = true :=
  opening_layout ho p _ _ _

namespace Settled

variable (hfirm : ∀ c ∈ r.getLast?, Text.isBlank c = false)
include hfirm

/-- A token that opens no line by itself goes behind the gap. -/
theorem begin_out (h : Settled style p r t s) (space : Bool) :
    (s.begin style space).out =
      r ++ leadIn style p t (p.apart || p.last == some .rightBrace || space) := by
  unfold State.begin leadIn
  rw [h.lineStart]
  cases hbroken : p.broken style.dialect t with
  | true =>
    have hout : s.out = r ++ lineBreak style p := by
      rw [h.out, settledTrail, hbroken]
      rfl
    rw [if_pos rfl, if_pos rfl, ← List.append_assoc, ← hout, ← h.depth]
    rfl
  | false =>
    rw [if_neg Bool.false_ne_true, if_neg Bool.false_ne_true]
    cases hapart : p.apart || p.last == some .rightBrace with
    | true =>
      have hout : s.out = r ++ [' '] := by
        rw [h.out, settledTrail, hbroken, hapart]
        rfl
      have hlast : Sink.last? s.out = some ' ' := by
        rw [hout]
        exact List.getLast?_concat
      rw [hlast, bne_self_eq_false, Bool.and_false, if_neg Bool.false_ne_true, Bool.true_or,
        if_pos rfl, hout]
    | false =>
      have hout : s.out = r := by
        rw [h.out, settledTrail, hbroken, hapart]
        exact List.append_nil r
      have hlast : (Sink.last? s.out != some ' ') = true := by
        rw [hout, bne_iff_ne]
        exact fun e => Bool.false_ne_true (hfirm ' ' e).symm
      rw [hlast, Bool.and_true, Bool.false_or]
      cases space with
      | true =>
        rw [if_pos rfl, if_pos rfl, ← hout]
        rfl
      | false => rw [if_neg Bool.false_ne_true, if_neg Bool.false_ne_true, List.append_nil, hout]

/-- A mark that stands close goes right behind the last token, or to where its line begins. -/
theorem closing_out (h : Settled style p r t s) (mark : Char) :
    (s.closing style mark).out = r ++ (leadIn style p t false ++ [mark]) := by
  unfold State.closing
  rw [h.lineStart]
  cases hbroken : p.broken style.dialect t with
  | true =>
    have hbegin : (s.begin style false).out = r ++ leadIn style p t false := by
      rw [h.begin_out hfirm]
      simp only [leadIn, hbroken, if_pos]
    rw [if_pos rfl, ← List.append_assoc, ← hbegin]
    rfl
  | false =>
    have hblank : ∀ c ∈ settledTrail style p t, (c == ' ') = true := by
      unfold settledTrail
      rw [hbroken, if_neg Bool.false_ne_true]
      split <;> simp
    have hspace : ∀ c ∈ r.getLast?, (c == ' ') = false := by
      intro c hc
      have := hfirm c hc
      rw [Text.isBlank, Bool.or_eq_false_iff] at this
      exact this.1
    have htrim : (s.trimEnd (· == ' ')).out = r := by
      change Text.trimEnd (· == ' ') s.out = r
      rw [h.out, Text.trimEnd_append_of_all hblank, Text.trimEnd_eq_self hspace]
    have hline : (s.trimEnd (· == ' ')).lineStart = false := h.lineStart.trans hbroken
    have hlead : leadIn style p t false = [] := by
      simp [leadIn, hbroken]
    rw [if_neg Bool.false_ne_true, hlead, List.nil_append, ← htrim]
    unfold State.begin
    rw [hline]
    rfl

end Settled

/-! ## 4. Operators -/

theorem fuses_of_plain {op : Text} (h : ∀ q, s.prev = some q → q.kind ≠ .operator) :
    s.fuses op = false := by
  unfold State.fuses
  split
  · rename_i before e
    exact absurd rfl (h _ e)
  · rfl

theorem fuses_of_operator {before op : Text} (h : s.prev = some ⟨.operator, before⟩) :
    s.fuses op = (s.out.getLast? == before.getLast? && op.head?.any (binds before)) := by
  unfold State.fuses binds
  rw [h]
  dsimp only
  cases before.getLast? with
  | none => cases op.head? <;> simp
  | some x =>
    cases op.head? with
    | none => simp
    | some y => rfl

/-- No operator ends with a character of layout. -/
theorem operator_last :
    ∀ op ∈ operators, op.getLast?.any (fun c => !Text.isLayoutChar c) = true := by
  decide

/-- **An operator fuses exactly where nothing stands between it and one that it binds to.** -/
theorem fuses_iff {op z : Text} (hout : s.out = r ++ z) (hz : ∀ c ∈ z, Text.isLayoutChar c = true)
    (hop : ∀ q, s.prev = some q → q.kind = .operator →
      q.text ∈ operators ∧ (z = [] → r.getLast? = q.text.getLast?)) :
    s.fuses op = (z.isEmpty && s.prev.any fun q =>
      q.kind == .operator && op.head?.any (binds q.text)) := by
  cases hprev : s.prev with
  | none => rw [fuses_of_plain (by simp [hprev]), Option.any_none, Bool.and_false]
  | some q =>
    by_cases hq : q.kind = .operator
    · obtain ⟨hmem, hlast⟩ := hop q hprev hq
      obtain ⟨kind, before⟩ := q
      obtain rfl : kind = .operator := hq
      rw [fuses_of_operator hprev, hout]
      cases z with
      | nil => simp [hlast rfl]
      | cons c z =>
        have hne : ((r ++ c :: z).getLast? == before.getLast?) = false := by
          rw [List.getLast?_append_of_ne_nil _ (by simp), beq_eq_false_iff_ne]
          intro e
          have hnot := operator_last _ hmem
          rw [← e, List.getLast?_eq_some_getLast (List.cons_ne_nil c z), Option.any_some,
            hz _ (List.getLast_mem _)] at hnot
          cases hnot
        rw [hne]
        rfl
    · rw [fuses_of_plain (by rw [hprev]; rintro _ ⟨⟩; exact hq)]
      simp [hq]

namespace Stands

/-- Behind a token, no line begins without a terminator. -/
theorem leadIn_ne_nil (h : Stands style p r s) (ho : style.Orderly) (space : Bool) {q : Token}
    (hprev : p.prev = some q) (hbroken : p.broken style.dialect t = true) :
    leadIn style p t space ≠ [] := by
  have hlast : p.last.isNone = false := by
    cases hlast : p.last with
    | none => rw [h.first hlast] at hprev; cases hprev
    | some kind => rfl
  simp [leadIn, hbroken, lineBreak, hlast, ho.terminator.ne_nil]

theorem unaryOperator_out (h : Stands style p r s) (ho : style.Orderly) (hkind : t.kind = .operator)
    (hunary : isUnary t.text p.prev = true) :
    ((s.settle style t).operator style t.text).out = r ++ (gap style p t ++ t.text) := by
  have hs : Settled style p r t (s.settle style t) := h.settle t
  obtain ⟨space, hspace⟩ : ∃ b, b = p.prev.any fun q => q.kind == .keyword := ⟨_, rfl⟩
  obtain ⟨wide, hwide⟩ : ∃ b, b = (p.apart || p.last == some .rightBrace || space) := ⟨_, rfl⟩
  have hbegin : ((s.settle style t).begin style space).out = r ++ leadIn style p t wide :=
    hwide ▸ hs.begin_out h.firm space
  have hprev : ((s.settle style t).begin style space).prev = p.prev :=
    (SameFrame.begin _ _).prev.trans hs.prev
  have hfuses : ((s.settle style t).begin style space).fuses t.text =
      ((leadIn style p t wide).isEmpty && p.prev.any fun q =>
        q.kind == .operator && t.text.head?.any (binds q.text)) := by
    rw [fuses_iff hbegin (leadIn_layout ho p t wide), hprev]
    intro q hq hop
    rw [hprev] at hq
    obtain ⟨hmem, hlast⟩ := h.operator q hq hop
    refine ⟨hmem, fun hnil => hlast ?_⟩
    cases hbroken : p.broken style.dialect t with
    | true => exact absurd hnil (h.leadIn_ne_nil ho wide hq hbroken)
    | false => exact (Bool.or_eq_false_iff.mp hbroken).1
  have hasks : p.spaced style.dialect t = (wide || p.prev.any fun q =>
      q.kind == .operator && t.text.head?.any (binds q.text)) := by
    rw [hwide, hspace]
    simp only [Spot.spaced, Spot.asksSpace, hkind, Kind.hugs, hunary, Bool.not_true, Bool.false_or,
      Bool.not_false, Bool.true_and, Bool.or_assoc]
    cases p.prev <;> rfl
  have hgap : gap style p t = leadIn style p t wide ++
      if ((s.settle style t).begin style space).fuses t.text then [' '] else [] := by
    rw [gap_eq_leadIn (by simp [hkind]), hasks, hfuses]
    cases hbroken : p.broken style.dialect t with
    | true =>
      cases hp : p.prev with
      | none => simp [leadIn, hbroken]
      | some q =>
        have hne := h.leadIn_ne_nil ho wide hp hbroken
        rw [List.isEmpty_eq_false_iff.mpr hne]
        simp [leadIn, hbroken]
    | false => cases wide <;> simp [leadIn, hbroken]
  unfold State.operator
  rw [hs.prev, hunary, if_pos rfl, ← hspace]
  dsimp only
  rw [hgap, ← List.append_assoc, ← List.append_assoc, ← hbegin]
  cases ((s.settle style t).begin style space).fuses t.text with
  | true => rfl
  | false => simp [State.write, Sink.write]

theorem binaryOperator_out (h : Stands style p r s) (hkind : t.kind = .operator)
    (hunary : isUnary t.text p.prev = false) :
    ((s.settle style t).operator style t.text).out = r ++ (gap style p t ++ t.text) ++ [' '] := by
  have hs : Settled style p r t (s.settle style t) := h.settle t
  have hasks : p.spaced style.dialect t = (p.apart || p.last == some .rightBrace || true) := by
    simp [Spot.spaced, Spot.asksSpace, hkind, Kind.hugs, hunary]
  have hbegin : ((s.settle style t).begin style true).out = r ++ gap style p t := by
    rw [gap_eq_leadIn (by simp [hkind]), hasks]
    exact hs.begin_out h.firm true
  unfold State.operator
  rw [hs.prev, hunary, if_neg Bool.false_ne_true, ← List.append_assoc, ← hbegin]
  rfl

/-! ## 5. One token -/

theorem begin_gap (h : Stands style p r s) (hbrace : t.kind ≠ .rightBrace)
    (hhugs : t.kind.hugs = false) {space : Bool} (hspace : p.asksSpace style.dialect t = space) :
    ((s.settle style t).begin style space).out = r ++ gap style p t := by
  have hspaced : p.spaced style.dialect t = (p.apart || p.last == some .rightBrace || space) := by
    rw [Spot.spaced, hhugs, hspace]
    rfl
  rw [gap_eq_leadIn hbrace, hspaced]
  exact (h.settle t).begin_out h.firm space

theorem closing_gap (h : Stands style p r s) (hhugs : t.kind.hugs = true) (mark : Char) :
    ((s.settle style t).closing style mark).out = r ++ (gap style p t ++ [mark]) := by
  have hbrace : t.kind ≠ .rightBrace := by
    intro e
    rw [e] at hhugs
    cases hhugs
  have hspaced : p.spaced style.dialect t = false := by
    rw [Spot.spaced, hhugs]
    rfl
  rw [gap_eq_leadIn hbrace, hspaced]
  exact (h.settle t).closing_out h.firm mark

/-- A closing brace ends the line that it finds open. -/
theorem breakLine_out (h : Stands style p r s) (t : Token) :
    ((s.settle style t).breakLine style).out = r ++ lineBreak style p ∧
      ((s.settle style t).breakLine style).lineStart = true := by
  have hs : Settled style p r t (s.settle style t) := h.settle t
  unfold State.breakLine
  rw [hs.lineStart]
  cases hbroken : p.broken style.dialect t with
  | true =>
    rw [if_pos rfl, hs.out, hs.lineStart, settledTrail, hbroken]
    exact ⟨rfl, rfl⟩
  | false =>
    have hblank : ∀ c ∈ settledTrail style p t, Text.isBlank c = true := by
      unfold settledTrail
      rw [hbroken, if_neg Bool.false_ne_true]
      split <;> simp [Text.isBlank]
    have hline : p.lineStart = false := (Bool.or_eq_false_iff.mp hbroken).1
    rw [if_neg Bool.false_ne_true, newline_out h.firm hblank hs.out, lineBreak, hline]
    exact ⟨rfl, rfl⟩

theorem rightBrace_out (h : Stands style p r s) (hkind : t.kind = .rightBrace) :
    ((s.settle style t).emitSettled style t).out = r ++ (gap style p t ++ ['\x7d']) := by
  obtain ⟨hout, hline⟩ := h.breakLine_out t
  have hdepth : ((s.settle style t).breakLine style).depth = p.depth :=
    (SameFrame.breakLine _).depth.trans (h.settle t).depth
  have hgap : gap style p t = lineBreak style p ++ Text.times style.unit (p.depth - 1) := by
    simp [gap, Spot.opensLine, Spot.depthAt, hkind]
  simp only [State.emitSettled, hkind, State.begin, hline, if_pos, State.indent, State.write,
    Sink.write, hout, hdepth, hgap, List.append_assoc]

/-- A line that ends behind a token which ends with no blank. -/
theorem newline_behind (style : Style) {x z : Text} (hout : s.out = r ++ (z ++ x)) (hne : x ≠ [])
    (hlast : ∀ c ∈ x.getLast?, Text.isBlank c = false) :
    (s.newline style).out = r ++ (z ++ x) ++ style.terminator := by
  refine newline_out (b := []) ?_ (by simp) (by rw [hout, List.append_nil])
  rw [← List.append_assoc, List.getLast?_append_of_ne_nil _ hne]
  exact hlast

theorem semicolon_out (h : Stands style p r s) (hp : Proper t) (hk : t.kind = .semicolon) :
    ((s.settle style t).emitSettled style t).out =
      r ++ (gap style p t ++ body style (p.depthAt t.kind) t) ++
        trail style (p.after style.dialect t) := by
  have hclose := h.closing_gap (t := t) (by simp [hk, Kind.hugs]) ';'
  have hparens : ((s.settle style t).closing style ';').parens = p.parens :=
    (SameFrame.closing _ _).parens.trans (h.settle t).parens
  have htext : t.text = [';'] := by
    simpa [hk, Kind.mark] using hp.mark
  have hnew := newline_behind style hclose (by simp) (by simp [Text.isBlank])
  cases hn : p.parens with
  | zero =>
    simp [State.emitSettled, hk, hparens, hn, hnew, body, trail, Spot.after, Kind.isComment, htext,
      lineBreak]
  | succ n =>
    simp [State.emitSettled, hk, hparens, hn, State.write, Sink.write, hclose, body, trail,
      Spot.after, Kind.isComment, htext]

theorem leftBrace_out (h : Stands style p r s) (hp : Proper t) (hk : t.kind = .leftBrace) :
    ((s.settle style t).emitSettled style t).out =
      r ++ (gap style p t ++ body style (p.depthAt t.kind) t) ++
        trail style (p.after style.dialect t) := by
  have htext : t.text = ['\x7b'] := by
    simpa [hk, Kind.mark] using hp.mark
  have hbegin := h.begin_gap (by simp [hk]) (by simp [hk, Kind.hugs])
    (show p.asksSpace style.dialect t = true by simp [Spot.asksSpace, hk])
  have hwrite : (((s.settle style t).begin style true).write ['\x7b']).out =
      r ++ (gap style p t ++ ['\x7b']) := by
    simp [State.write, Sink.write, hbegin]
  have hnew := newline_behind style hwrite (by simp) (by simp [Text.isBlank])
  simp [State.emitSettled, hk, hnew, body, trail, Spot.after, Kind.isComment, htext, lineBreak]

theorem comment_out (h : Stands style p r s) (ho : style.Orderly) (hp : Proper t)
    (hc : t.kind.isComment = true) : ((s.settle style t).emitSettled style t).out =
      r ++ (gap style p t ++ body style (p.depthAt t.kind) t) ++
        trail style (p.after style.dialect t) := by
  obtain ⟨hne, hlast⟩ := comment_firm ho hp hc p.depth
  rcases isComment_cases hc with hk | hk
  · have hbegin := h.begin_gap (by simp [hk]) (by simp [hk, Kind.hugs])
      (show p.asksSpace style.dialect t = true by simp [Spot.asksSpace, hk])
    simp only [body, hk] at hne hlast
    have hwrite : (((s.settle style t).begin style true).write
        (Text.trimEnd Text.isSpace t.text)).out =
        r ++ (gap style p t ++ Text.trimEnd Text.isSpace t.text) := by
      simp [State.write, Sink.write, hbegin]
    have hnew := newline_behind style hwrite hne hlast
    simp [State.emitSettled, hk, hnew, body, trail, Spot.after, Kind.isComment, lineBreak]
  · have hbegin := h.begin_gap (by simp [hk]) (by simp [hk, Kind.hugs])
      (show p.asksSpace style.dialect t = true by simp [Spot.asksSpace, hk])
    simp only [body, hk] at hne hlast
    have hdepth : ((s.settle style t).begin style true).depth = p.depth :=
      (SameFrame.begin _ _).depth.trans (h.settle t).depth
    have hcomment : (((s.settle style t).begin style true).blockComment style t.text).out =
        r ++ (gap style p t ++ style.terminator.intercalate (commentLines style p.depth t.text)) := by
      obtain ⟨x, ht⟩ := hp.blockComment hk
      rw [ht, blockComment_out ho, hbegin, hdepth, List.append_assoc]
    have hnew := newline_behind style hcomment hne hlast
    simp [State.emitSettled, hk, hnew, body, trail, Spot.after, Kind.isComment, lineBreak,
      Spot.depthAt]

/-- **What one token writes**: the gap, the token, and the trail for the next one to find. -/
theorem emitSettled_out (h : Stands style p r s) (ho : style.Orderly) (hp : Proper t)
    (hv : t.kind.isLayout = false) :
    ((s.settle style t).emitSettled style t).out =
      r ++ (gap style p t ++ body style (p.depthAt t.kind) t) ++
        trail style (p.after style.dialect t) := by
  have hs : Settled style p r t (s.settle style t) := h.settle t
  cases hk : t.kind with
  | whitespace | newline => rw [hk] at hv; cases hv
  | identifier | keyword | number | string | character =>
    have hbegin := h.begin_gap (by simp [hk]) (by simp [hk, Kind.hugs])
      (show p.asksSpace style.dialect t = needsSpace p.prev t by simp [Spot.asksSpace, hk])
    simp [State.emitSettled, hk, hs.prev, State.write, Sink.write, hbegin, body, trail, Spot.after,
      Kind.isComment]
  | dot | leftBracket | other =>
    have hbegin := h.begin_gap (by simp [hk]) (by simp [hk, Kind.hugs])
      (show p.asksSpace style.dialect t = false by simp [Spot.asksSpace, hk])
    simp [State.emitSettled, hk, State.write, Sink.write, hbegin, body, trail, Spot.after,
      Kind.isComment]
  | leftParen =>
    have hbegin := h.begin_gap (by simp [hk]) (by simp [hk, Kind.hugs])
      (show p.asksSpace style.dialect t = parenApart style.dialect p.prev by
        simp [Spot.asksSpace, hk])
    simp [State.emitSettled, hk, hs.prev, State.write, Sink.write, hbegin, body, trail, Spot.after,
      Kind.isComment, hp.mark, Kind.mark]
  | rightParen | rightBracket =>
    have hclose := fun mark => h.closing_gap (t := t) (by simp [hk, Kind.hugs]) mark
    simp [State.emitSettled, hk, hclose, body, trail, Spot.after, Kind.isComment, hp.mark, Kind.mark]
  | comma =>
    have hclose := h.closing_gap (t := t) (by simp [hk, Kind.hugs]) ','
    simp [State.emitSettled, hk, State.write, Sink.write, hclose, body, trail, Spot.after,
      Kind.isComment, hp.mark, Kind.mark]
  | colon =>
    have hclose := h.closing_gap (t := t) (by simp [hk, Kind.hugs]) ':'
    cases hc : style.dialect.spaceAfterColon <;>
      simp [State.emitSettled, hk, hc, State.write, Sink.write, hclose, body, trail, Spot.after,
        Kind.isComment, hp.mark, Kind.mark]
  | semicolon =>
    rw [← hk]
    exact h.semicolon_out hp hk
  | rightBrace =>
    have htext : t.text = ['\x7d'] := by
      simpa [hk, Kind.mark] using hp.mark
    simp [h.rightBrace_out hk, hk, body, trail, Spot.after, Kind.isComment, htext]
  | leftBrace =>
    rw [← hk]
    exact h.leftBrace_out hp hk
  | lineComment | blockComment =>
    rw [← hk]
    exact h.comment_out ho hp (by simp [hk, Kind.isComment])
  | operator =>
    cases hu : isUnary t.text p.prev with
    | true =>
      simp [State.emitSettled, hk, h.unaryOperator_out ho hk hu, body, trail, Spot.after,
        Kind.isComment, hu]
    | false =>
      simp [State.emitSettled, hk, h.binaryOperator_out hk hu, body, trail, Spot.after,
        Kind.isComment, hu]

end Stands

namespace Stands

/-- **The invariant is kept by one token** that ends with no blank. -/
theorem emit (h : Stands style p r s) (ho : style.Orderly) (hp : Proper t)
    (hv : t.kind.isLayout = false) (hne : body style (p.depthAt t.kind) t ≠ [])
    (hfirm : ∀ c ∈ (body style (p.depthAt t.kind) t).getLast?, Text.isBlank c = false) :
    Stands style (p.after style.dialect t) (r ++ (gap style p t ++ body style (p.depthAt t.kind) t))
      (s.emit style t) := by
  have hs : Settled style p r t (s.settle style t) := h.settle t
  obtain ⟨hdepth, hparens, hpending, hprev⟩ := emitSettled_effect style (s.settle style t) t
  rw [emit_eq s hv]
  refine ⟨?_, ?_, ?_, ?_, ?_, ?_, ?_, ?_, ?_, ?_⟩
  · exact h.emitSettled_out ho hp hv
  · refine hdepth.trans ?_
    rw [hs.depth]
    cases hk : t.kind <;> simp [Spot.after, Spot.depthAt, hk]
  · refine (emitSettled_lineStart _ hv).trans ?_
    rw [hs.parens]
    rfl
  · refine hpending.trans ?_
    rw [hs.pendingJoiner]
    rfl
  · refine hparens.trans ?_
    rw [hs.parens]
    rfl
  · change (if t.kind.isComment then _ else _) = if t.kind.isComment then _ else _
    rw [hprev, hs.prev]
  · rw [← List.append_assoc, List.getLast?_append_of_ne_nil _ hne]
    exact hfirm
  · intro hk
    have hk' : t.kind = .rightBrace := Option.some.inj hk
    simp [Spot.after, hk', Kind.isComment]
  · intro hk
    cases hk
  · intro q hq hop
    cases hc : t.kind.isComment with
    | true =>
      -- a comment ends its line, and the operator before it stays the last one
      have hq' : p.prev = some q := by simpa [Spot.after, hc] using hq
      exact ⟨(h.operator q hq' hop).1, by simp [Spot.after, hc]⟩
    | false =>
      obtain rfl : t = q := by simpa [Spot.after, hc] using hq
      have hbody : body style (p.depthAt t.kind) t = t.text := by simp [body, hop]
      rw [hbody] at hne ⊢
      exact ⟨hp.operator hop, fun _ => by
        rw [← List.append_assoc, List.getLast?_append_of_ne_nil _ hne]⟩

end Stands

/-! ## 6. A run -/

/-- A token ends with a character that is not layout, unless it is a comment or a literal that is
    not closed. -/
theorem Reads.last_solid {rest : Text} (h : Reads d t rest) (hv : t.kind.isLayout = false)
    (hc : t.kind.isComment = false) (hs : t.kind.spansLines = true → rest ≠ []) :
    ∀ c ∈ t.text.getLast?, Text.isLayoutChar c = false := by
  intro c hlast
  cases h with
  | blanks => cases hv
  | lineEnd => cases hv
  | lineComment => cases hc
  | blockComment => cases hc
  | @literal quote kind x _ opens reach =>
    have hspans : kind.spansLines = true := by
      rcases literalKind?_cases opens with ⟨-, rfl⟩ | ⟨-, rfl⟩ <;> rfl
    rcases throughQuote_cases reach with ⟨-, hquote⟩ | ⟨hnil, -⟩
    · obtain rfl : quote = c := by
        rw [List.getLast?_cons, hquote] at hlast
        simpa using hlast
      rcases literalKind?_cases opens with ⟨rfl, -⟩ | ⟨rfl, -⟩ <;> rfl
    · exact absurd hnil (hs hspans)
  | @word a x _ start all stop =>
    have hall : ∀ y ∈ a :: x, isWordChar y = true :=
      List.forall_mem_cons.mpr ⟨isWordChar_of_start start, all⟩
    exact not_layoutChar_of_wordChar (hall c (List.mem_of_mem_getLast? hlast))
  | @number a x _ start all stop =>
    have hall : ∀ y ∈ a :: x, isWordChar y = true :=
      List.forall_mem_cons.mpr ⟨isWordChar_of_digit start, all⟩
    exact not_layoutChar_of_wordChar (hall c (List.mem_of_mem_getLast? hlast))
  | mark isMark =>
    obtain rfl : _ = c := by simpa using hlast
    exact (punctuation_start isMark).1
  | operator longest _ =>
    have hsolid := operator_last _ (operatorAt?_spec longest).1
    rw [Option.mem_def.mp hlast] at hsolid
    simpa using hsolid
  | stray hstray =>
    obtain rfl : _ = c := by simpa using hlast
    simp only [isStray, Bool.and_eq_true, Bool.not_eq_true'] at hstray
    exact hstray.1.1.1.1.1

theorem body_of_not_comment (style : Style) (depth : Nat) (hc : t.kind.isComment = false) :
    body style depth t = t.text := by
  cases hk : t.kind <;> simp [body, hk] <;> simp [hk, Kind.isComment] at hc

theorem Complete.firm (h : Complete d t) (ho : style.Orderly) (hv : t.kind.isLayout = false)
    (depth : Nat) : body style depth t ≠ [] ∧
      ∀ c ∈ (body style depth t).getLast?, Text.isBlank c = false := by
  obtain ⟨rest, hrest, hreads⟩ := h
  cases hc : t.kind.isComment with
  | true => exact comment_firm ho hreads.proper hc depth
  | false =>
    rw [body_of_not_comment style depth hc]
    refine ⟨hreads.text_ne_nil, fun c hl => ?_⟩
    exact (not_layoutChar_iff.mp (hreads.last_solid hv hc (fun _ => hrest) c hl)).1

theorem trail_layout (ho : style.Orderly) (p : Spot) :
    ∀ c ∈ trail style p, Text.isLayoutChar c = true := by
  unfold trail
  split
  · exact lineBreak_layout ho
  · split <;> simp [Text.isLayoutChar, Text.isBlank]

namespace Stands

/-- No operator lacks a text, so the engine never stalls. -/
theorem feed_eq (h : Stands style p r s) (t : Token) : s.feed style t = .ok (s.emit style t) := by
  have hstalls : s.stalls t = false := by
    unfold State.stalls
    rw [h.prev]
    cases hprev : p.prev == some ⟨.operator, []⟩ with
    | false => rw [Bool.and_false]
    | true => exact absurd rfl (operator_ne_nil (h.operator _ (beq_iff_eq.mp hprev) rfl).1)
  unfold State.feed
  rw [hstalls]
  rfl

theorem emit_out (h : Stands style p r s) (ho : style.Orderly) (hp : Proper t)
    (hv : t.kind.isLayout = false) : (s.emit style t).out =
      r ++ (gap style p t ++ body style (p.depthAt t.kind) t) ++
        trail style (p.after style.dialect t) := by
  rw [emit_eq s hv]
  exact h.emitSettled_out ho hp hv

end Stands

/-- **A run writes gap after body after gap**, and behind the last token only layout. -/
theorem feedAll_rendered {ts : List Token} (hts : Legible d ts) (ho : style.Orderly) :
    ∀ {p r s}, Stands style p r s → ∃ s' z, s.feedAll style ts = .ok s' ∧
      s'.out = r ++ rendered style p ts ++ z ∧ ∀ c ∈ z, Text.isLayoutChar c = true := by
  induction hts with
  | nil =>
    intro p r s h
    exact ⟨s, trail style p, rfl, by rw [h.out, rendered, List.append_nil], trail_layout ho p⟩
  | @last t rest visible reads =>
    intro p r s h
    refine ⟨s.emit style t, trail style (p.after style.dialect t), ?_, ?_, trail_layout ho _⟩
    · rw [State.feedAll, h.feed_eq t]
      rfl
    · rw [h.emit_out ho reads.proper visible, rendered, rendered, List.append_nil]
  | @cons t u ts visible complete _ ih =>
    intro p r s h
    obtain ⟨rest, -, reads⟩ := id complete
    obtain ⟨hne, hfirm⟩ := complete.firm ho visible (p.depthAt t.kind)
    obtain ⟨s', z, hrun, hout, hz⟩ := ih (h.emit ho reads.proper visible hne hfirm)
    refine ⟨s', z, ?_, ?_, hz⟩
    · rw [State.feedAll, h.feed_eq t]
      exact hrun
    · rw [hout, rendered_cons style p t]
      simp only [List.append_assoc]

/-- Layout is passed over. -/
theorem feedAll_significant (style : Style) (ts : List Token) (s : State Text) :
    s.feedAll style (Token.significant ts) = s.feedAll style ts := by
  induction ts generalizing s with
  | nil => rfl
  | cons t ts ih =>
    rw [significant_cons]
    cases hl : t.kind.isLayout with
    | true =>
      have hfeed : s.feed style t = .ok s := by
        have hstalls : s.stalls t = false := by
          have hop : (t.kind == .operator) = false := by
            cases hk : t.kind <;> simp [hk, Kind.isLayout] at hl <;> rfl
          rw [State.stalls, hop, Bool.false_and, Bool.false_and]
        rw [State.feed, hstalls, State.emit, hl]
        rfl
      rw [if_pos rfl, ih, State.feedAll, hfeed]
    | false =>
      rw [if_neg Bool.false_ne_true, State.feedAll, State.feedAll]
      cases s.feed style t with
      | ok s' => exact ih s'
      | error e => rfl

/-- **A layout is rendered and finished, and it never fails.** -/
theorem layout_rendered {ts : List Token} (ho : style.Orderly)
    (hts : Legible d (Token.significant ts)) (depth : Nat) (lineStart : Bool) :
    layout style depth lineStart ts =
      .ok (finished style (rendered style (.start depth lineStart) (Token.significant ts))) := by
  obtain ⟨s, z, hrun, hout, hz⟩ := feedAll_rendered hts ho (stands_start style depth lineStart)
  rw [feedAll_significant] at hrun
  rw [layout_eq_flat, layoutVia, hrun]
  have hfinish : Text.trimEnd Text.isLayoutChar (Sink.text s.out) = Text.trimEnd Text.isLayoutChar
      (rendered style (.start depth lineStart) (Token.significant ts)) := by
    change Text.trimEnd Text.isLayoutChar s.out = _
    rw [hout, List.nil_append, Text.trimEnd_append_of_all hz]
  simp only [State.finish, finished, hfinish]

/-! ## 7. Whole texts -/

/-- The unit that lines show is made of blanks. -/
theorem unitShownBy_blank (lines : List Text) : ∀ c ∈ unitShownBy lines, Text.isBlank c = true := by
  intro c hc
  unfold unitShownBy at hc
  dsimp only at hc
  split at hc
  · rw [List.mem_singleton.mp hc]
    rfl
  · split at hc
    · rw [List.mem_singleton.mp hc]
      rfl
    · rw [List.eq_of_mem_replicate hc]
      rfl

theorem firstTerminator?_lineEnd {x nl : Text} (h : Text.firstTerminator? x = some nl) :
    LineEnd nl := by
  fun_induction Text.firstTerminator? x with
  | case1 => cases h
  | case2 rest => cases h; exact .returnFeed
  | case3 c rest _ hc =>
    cases h
    rcases Text.isTerminator_iff.mp hc with rfl | rfl
    · exact .feed
    · exact .carriageReturn
  | case4 c rest _ _ ih => exact ih h

theorem detectTerminator_lineEnd (x : Text) : LineEnd (detectTerminator ['\n'] x) := by
  unfold detectTerminator
  cases h : Text.firstTerminator? x with
  | none => exact .feed
  | some nl => exact firstTerminator?_lineEnd h

theorem resolve_orderly {unit? terminator? : Option Text}
    (hu : ∀ u ∈ unit?, ∀ c ∈ u, Text.isBlank c = true) (hn : ∀ nl ∈ terminator?, LineEnd nl)
    (d : Dialect) (x : Text) : (Style.resolve d unit? terminator? x).Orderly where
  unit := by
    cases unit? with
    | none => exact unitShownBy_blank _
    | some u => exact hu u rfl
  terminator := by
    cases terminator? with
    | none => exact detectTerminator_lineEnd x
    | some nl => exact hn nl rfl

/-- **The layout of a whole text.** It never fails, and a text that holds only white space stays. -/
theorem formatSource_rendered {unit? terminator? : Option Text}
    (hu : ∀ u ∈ unit?, ∀ c ∈ u, Text.isBlank c = true) (hn : ∀ nl ∈ terminator?, LineEnd nl)
    (d : Dialect) (x : Text) : formatSource d unit? terminator? x = .ok (if Text.isVoid x then x else
      finished (.resolve d unit? terminator? x)
        (rendered (.resolve d unit? terminator? x) (.start 0 true)
          (Token.significant (tokenize d x)))) := by
  unfold formatSource
  cases Text.isVoid x with
  | true => rfl
  | false =>
    rw [if_neg Bool.false_ne_true, if_neg Bool.false_ne_true]
    exact layout_rendered (resolve_orderly hu hn d x) (legible_significant d x) 0 true

end RebecaLayout
