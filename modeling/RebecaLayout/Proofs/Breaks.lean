import RebecaLayout.Proofs.Evidence
import RebecaLayout.Proofs.Placement

/-!
Where the lines of a text begin, and in which tokens.

* `Break`, `Text.breaks` -- the terminators of a text with their offsets; `Text.lines` -- each line
  behind its terminator;
* `breaks_append` -- the breaks of two texts in a row, unless a pair is cut between them;
* `Break.isWithin` -- whether a terminator lies in a token of certain kinds;
* `breaks_joined` -- **terminators lie in tokens as they are counted token by token**, if no token
  ends within a pair;
* `uncut_tokenize` -- the tokens of a text cut none.
-/

namespace RebecaLayout

variable {d : Dialect} {t : Token} {ts : List Token} {a b x rest : Text} {n : Nat}

/-! ## 1. Breaks -/

/-- A terminator and the offset it starts at. -/
structure Break where
  offset : Nat
  text : Text
  deriving DecidableEq, Repr

/-- The terminators of a text that starts at `offset`. -/
def Text.breaks (offset : Nat) : Text → List Break
  | [] => []
  | '\r' :: '\n' :: rest => ⟨offset, ['\r', '\n']⟩ :: breaks (offset + 2) rest
  | c :: rest =>
    if isTerminator c then ⟨offset, [c]⟩ :: breaks (offset + 1) rest else breaks (offset + 1) rest

/-- The lines of a text, each with the terminator in front of it. The first line has none. -/
def Text.lines (x : Text) : List (Option Break × Text) :=
  (none :: (breaks 0 x).map some).zip (splitLines x)

theorem breaks_cons {c : Char} (h : Text.isTerminator c = false) (n : Nat) (x : Text) :
    Text.breaks n (c :: x) = Text.breaks (n + 1) x := by
  have hc : c ≠ '\r' := by rintro rfl; cases h
  rw [Text.breaks, if_neg (by simp [h])]
  exact fun rest e => absurd e hc

theorem breaks_terminator {c : Char} (h : Text.isTerminator c = true)
    (hx : c = '\r' → x.head? ≠ some '\n') (n : Nat) :
    Text.breaks n (c :: x) = ⟨n, [c]⟩ :: Text.breaks (n + 1) x := by
  rw [Text.breaks, if_pos h]
  intro rest hc e
  exact hx hc (by rw [e]; rfl)

/-- A text has one line more than it has terminators. -/
theorem length_splitLines (n : Nat) (x : Text) :
    (Text.splitLines x).length = (Text.breaks n x).length + 1 := by
  fun_induction Text.breaks n x with
  | case1 => rfl
  | case2 n rest ih => rw [Text.splitLines_returnFeed, List.length_cons, ih, List.length_cons]
  | case3 n c rest hpair hc ih =>
    have hnext : c = '\r' → rest.head? ≠ some '\n' := by
      intro e hhead
      obtain ⟨rest', rfl⟩ := List.head?_eq_some_iff.mp hhead
      exact hpair rest' e rfl
    rw [Text.splitLines_terminator hc hnext, List.length_cons, ih, List.length_cons]
  | case4 n c rest _ hc ih =>
    obtain ⟨first, further, e⟩ := Text.exists_splitLines rest
    rw [Text.splitLines_cons (by simpa using hc), ← ih, e]
    rfl

/-- A terminator lies within the text, and it is not empty. -/
theorem breaks_bounds (n : Nat) (x : Text) : ∀ br ∈ Text.breaks n x,
    n ≤ br.offset ∧ br.offset + br.text.length ≤ n + x.length ∧ 0 < br.text.length := by
  fun_induction Text.breaks n x with
  | case1 => exact fun br hbr => by cases hbr
  | case2 n rest ih =>
    intro br hbr
    rcases List.mem_cons.mp hbr with rfl | hbr
    · simp
    · have := ih br hbr
      simp only [List.length_cons]
      omega
  | case3 n c rest _ _ ih =>
    intro br hbr
    rcases List.mem_cons.mp hbr with rfl | hbr
    · simp
    · have := ih br hbr
      simp only [List.length_cons]
      omega
  | case4 n c rest _ _ ih =>
    intro br hbr
    have := ih br hbr
    simp only [List.length_cons]
    omega

/-- **The breaks of two texts in a row**, unless a pair is cut between them. -/
theorem breaks_append (h : a.getLast? = some '\r' → b.head? ≠ some '\n') (n : Nat) :
    Text.breaks n (a ++ b) = Text.breaks n a ++ Text.breaks (n + a.length) b := by
  have hlast : ∀ {c : Char} {rest : Text}, rest.getLast? = some '\r' →
      (c :: rest).getLast? = some '\r' := by
    intro c rest e
    rw [List.getLast?_cons, e]
    rfl
  fun_induction Text.breaks n a with
  | case1 => rfl
  | case2 n rest ih =>
    have hnext : n + ('\r' :: '\n' :: rest).length = n + 2 + rest.length := by
      simp only [List.length_cons]
      omega
    rw [List.cons_append, List.cons_append, Text.breaks, ih fun e => h (hlast (hlast e)), hnext]
    rfl
  | case3 n c rest hpair hc ih =>
    have hcut : c = '\r' → (rest ++ b).head? ≠ some '\n' := by
      rintro rfl
      cases rest with
      | nil => exact h rfl
      | cons y rest =>
        intro hy
        obtain rfl : y = '\n' := Option.some.inj hy
        exact hpair rest rfl rfl
    have hnext : n + (c :: rest).length = n + 1 + rest.length := by
      rw [List.length_cons]
      omega
    rw [List.cons_append, breaks_terminator hc hcut, ih fun e => h (hlast e), hnext]
    rfl
  | case4 n c rest _ hc ih =>
    have hnext : n + (c :: rest).length = n + 1 + rest.length := by
      rw [List.length_cons]
      omega
    rw [List.cons_append, breaks_cons (by simpa using hc), ih fun e => h (hlast e), hnext]

/-! ## 2. Breaks in tokens -/

/-- Whether all of a terminator lies in a token. -/
def Break.isIn (br : Break) (t : Placed) : Bool :=
  t.offset ≤ br.offset && br.offset + br.text.length ≤ t.offset + t.text.length

/-- Whether a terminator lies in one of the tokens that is of certain kinds. -/
def Break.isWithin (kinds : Kind → Bool) (ts : List Placed) (br : Break) : Bool :=
  ts.any fun t => kinds t.kind && br.isIn t

/-- Tokens between which no pair of return and feed is cut. -/
def Uncut : List Token → Prop
  | [] => True
  | t :: ts => (t.text.getLast? = some '\r' → (Token.joined ts).head? ≠ some '\n') ∧ Uncut ts

/-- For each terminator in a row of tokens, whether its token is of certain kinds. -/
def marks (kinds : Kind → Bool) (ts : List Token) : List Bool :=
  ts.flatMap fun t => List.replicate ((Text.splitLines t.text).length - 1) (kinds t.kind)

theorem isIn_of_mem {br : Break} (h : br ∈ Text.breaks n t.text) : br.isIn ⟨t, n⟩ = true := by
  have := breaks_bounds n t.text br h
  simp only [Break.isIn, Bool.and_eq_true, decide_eq_true_eq]
  omega

/-- A terminator behind a token does not lie in it. -/
theorem not_isIn_of_le {br : Break} (h : br ∈ Text.breaks (n + t.text.length) x) :
    br.isIn ⟨t, n⟩ = false := by
  have := breaks_bounds _ x br h
  simp only [Break.isIn, Bool.and_eq_false_iff, decide_eq_false_iff_not]
  omega

/-- A terminator in a token does not lie in those behind it. -/
theorem not_isWithin_of_mem (kinds : Kind → Bool) {br : Break} (h : br ∈ Text.breaks n t.text)
    (ts : List Token) : br.isWithin kinds (Token.place (n + t.text.length) ts) = false := by
  have hbounds := breaks_bounds n t.text br h
  unfold Break.isWithin
  rw [List.any_eq_false]
  intro u hu
  obtain ⟨front, -, -, hoffset⟩ := exists_of_placed hu
  have hnot : br.isIn u = false := by
    simp only [Break.isIn, Bool.and_eq_false_iff, decide_eq_false_iff_not]
    omega
  rw [hnot, Bool.and_false]
  exact Bool.false_ne_true

/-- **Terminators lie in tokens as they are counted token by token.** -/
theorem breaks_joined (kinds : Kind → Bool) (h : Uncut ts) (n : Nat) :
    (Text.breaks n (Token.joined ts)).map (Break.isWithin kinds (Token.place n ts)) =
      marks kinds ts := by
  induction ts generalizing n with
  | nil => rfl
  | cons t ts ih =>
    have hwithin : ∀ br : Break, br.isWithin kinds (Token.place n (t :: ts)) =
        (kinds t.kind && br.isIn ⟨t, n⟩ ||
          br.isWithin kinds (Token.place (n + t.text.length) ts)) := fun _ => rfl
    have hfirst : (Text.breaks n t.text).map (Break.isWithin kinds (Token.place n (t :: ts))) =
        List.replicate ((Text.splitLines t.text).length - 1) (kinds t.kind) := by
      rw [length_splitLines n, Nat.add_sub_cancel, List.eq_replicate_iff, List.length_map]
      refine ⟨rfl, fun m hm => ?_⟩
      obtain ⟨br, hbr, rfl⟩ := List.mem_map.mp hm
      rw [hwithin, isIn_of_mem hbr, not_isWithin_of_mem kinds hbr, Bool.and_true, Bool.or_false]
    have hrest : (Text.breaks (n + t.text.length) (Token.joined ts)).map
          (Break.isWithin kinds (Token.place n (t :: ts))) = marks kinds ts := by
      rw [← ih h.2 (n + t.text.length)]
      refine List.map_congr_left fun br hbr => ?_
      rw [hwithin, not_isIn_of_le hbr, Bool.and_false, Bool.false_or]
    rw [joined_cons, breaks_append h.1, List.map_append, hfirst, hrest]
    rfl

/-- **No token of a text ends within a pair.** -/
theorem uncut_tokenize (d : Dialect) (x : Text) : Uncut (tokenize d x) := by
  induction x using text_induction d with
  | nil => trivial
  | step t rest h ih =>
    rw [tokenize_append h]
    refine ⟨fun hlast => ?_, ih⟩
    rw [joined_tokenize]
    cases hv : t.kind.isLayout with
    | false => exact h.last_not_return hv hlast
    | true =>
      rcases h.layout_cases hv with ⟨-, -, hall, -⟩ | ⟨-, hnl, whole⟩
      · have hblank := hall '\r' (List.mem_of_mem_getLast? hlast)
        cases hblank
      · exact whole (hnl.eq_return hlast)

end RebecaLayout
