import RebecaLayout.Proofs.Comment
import RebecaLayout.Proofs.Rendering

/-!
What layout may change in a token, and what it may not.

* `Token.core` -- a token up to white space at its end and, in comments on several lines, blanks
  at the edges of the lines;
* `written` -- a token as it stands in a finished text;
* `core_written` -- **a token keeps its core when it is written**;
* `written_congr` -- the core decides what is written;
* `Apart` -- what must stand behind a token for it to be read; `AtLineEnd` -- the end of a line does;
* `Reads.again`, `Reads.ends` -- so a written token is read again, also at the end of the text, where
  an open comment or literal takes the last terminator with it.
-/

namespace RebecaLayout

variable {style : Style} {d : Dialect} {t u : Token} {rest : Text}

/-! ## 1. Cores -/

theorem spansLines_cases {kind : Kind} (h : kind.spansLines = true) :
    kind = .blockComment ∨ kind = .string ∨ kind = .character := by
  cases kind <;> simp [Kind.spansLines] at h ⊢

/-- A token up to what layout may change in it. -/
def Token.core (t : Token) : Kind × List Text :=
  (t.kind, match t.kind with
    | .lineComment => [Text.trimEnd Text.isSpace t.text]
    | .blockComment => Text.trimmedLines (Text.trimEnd Text.isLayoutChar t.text)
    | .string | .character => [Text.trimEnd Text.isLayoutChar t.text]
    | _ => [t.text])

/-- A token as it stands in a finished text. -/
def written (style : Style) (depth : Nat) (t : Token) : Token :=
  ⟨t.kind, Text.trimEnd Text.isLayoutChar (body style depth t)⟩

theorem Token.kind_eq_of_core (h : t.core = u.core) : t.kind = u.kind := congrArg Prod.fst h

theorem Token.text_eq_of_core (h : t.core = u.core) (hc : t.kind.isComment = false)
    (hs : t.kind.spansLines = false) : t.text = u.text := by
  have hk := Token.kind_eq_of_core h
  have hsnd := congrArg Prod.snd h
  cases hkind : t.kind <;> simp [hkind, Kind.isComment, Kind.spansLines] at hc hs <;>
    simpa [Token.core, hkind, hk ▸ hkind] using hsnd

theorem Token.eq_of_core (h : t.core = u.core) (hc : t.kind.isComment = false)
    (hs : t.kind.spansLines = false) : t = u := by
  obtain ⟨kind, text⟩ := u
  exact congrArg₂ Token.mk (Token.kind_eq_of_core h) (Token.text_eq_of_core h hc hs)

/-- **The core decides what is written.** -/
theorem written_congr (ho : style.Orderly) (depth : Nat) (h : t.core = u.core) :
    written style depth t = written style depth u := by
  have hk := Token.kind_eq_of_core h
  have hsnd := congrArg Prod.snd h
  have htext : Text.trimEnd Text.isLayoutChar (body style depth t) =
      Text.trimEnd Text.isLayoutChar (body style depth u) := by
    cases hkind : t.kind with
    | lineComment =>
      have hbody : body style depth t = body style depth u := by
        simpa [Token.core, body, hkind, hk ▸ hkind] using hsnd
      rw [hbody]
    | blockComment =>
      have hlines : Text.trimmedLines (Text.trimEnd Text.isLayoutChar t.text) =
          Text.trimmedLines (Text.trimEnd Text.isLayoutChar u.text) := by
        simpa [Token.core, hkind, hk ▸ hkind] using hsnd
      have ht : body style depth t = relaid style depth t.text := by simp [body, hkind, relaid]
      have hu : body style depth u = relaid style depth u.text := by
        simp [body, hk ▸ hkind, relaid]
      rw [ht, hu, ← trimEnd_relaid ho depth t.text, ← trimEnd_relaid ho depth u.text]
      unfold relaid
      rw [commentLines_eq, commentLines_eq, hlines]
    | string | character => simpa [Token.core, body, hkind, hk ▸ hkind] using hsnd
    | _ =>
      have heq : t.text = u.text :=
        Token.text_eq_of_core h (by simp [hkind, Kind.isComment]) (by simp [hkind, Kind.spansLines])
      simp [body, hkind, hk ▸ hkind, heq]
  unfold written
  rw [hk, htext]

/-! ## 2. Written tokens -/

/-- A token that is no layout begins with a character that is none. -/
theorem Reads.head_solid (h : Reads d t rest) (hv : t.kind.isLayout = false) :
    ∃ c x, t.text = c :: x ∧ Text.isLayoutChar c = false := by
  cases h with
  | blanks => cases hv
  | lineEnd => cases hv
  | lineComment => exact ⟨'/', _, rfl, rfl⟩
  | blockComment => exact ⟨'/', _, rfl, rfl⟩
  | literal opens _ =>
    rcases literalKind?_cases opens with ⟨rfl, -⟩ | ⟨rfl, -⟩
    · exact ⟨'"', _, rfl, rfl⟩
    · exact ⟨'\x27', _, rfl, rfl⟩
  | word start _ _ => exact ⟨_, _, rfl, not_layoutChar_of_start start⟩
  | number start _ _ => exact ⟨_, _, rfl, not_layoutChar_of_wordChar (isWordChar_of_digit start)⟩
  | mark isMark => exact ⟨_, _, rfl, (punctuation_start isMark).1⟩
  | operator longest _ =>
    have hop := (operatorAt?_spec longest).1
    obtain ⟨c, x, rfl⟩ := List.exists_cons_of_ne_nil (operator_ne_nil hop)
    exact ⟨c, x, rfl, (operator_start hop).1⟩
  | stray hstray =>
    simp only [isStray, Bool.and_eq_true, Bool.not_eq_true'] at hstray
    exact ⟨_, _, rfl, hstray.1.1.1.1.1⟩

/-- A token of layout characters is layout. -/
theorem Reads.isLayout_of_layout (h : Reads d t rest)
    (ht : ∀ c ∈ t.text, Text.isLayoutChar c = true) : t.kind.isLayout = true := by
  cases hl : t.kind.isLayout with
  | true => rfl
  | false =>
    obtain ⟨c, x, e, hc⟩ := h.head_solid hl
    rw [ht c (e ▸ List.mem_cons_self)] at hc
    cases hc

/-- A token is written with the character that it begins with. -/
theorem Reads.written_head (h : Reads d t rest) (hv : t.kind.isLayout = false) (style : Style)
    (depth : Nat) : ∃ c x, (written style depth t).text = c :: x ∧ t.text.head? = some c ∧
      Text.isLayoutChar c = false := by
  obtain ⟨c, x, e, hc⟩ := h.head_solid hv
  have hbody : ∃ y, body style depth t = c :: y := by
    cases hk : t.kind with
    | lineComment =>
      obtain ⟨y, ey⟩ := h.proper.lineComment hk
      obtain ⟨rfl, -⟩ : c = '/' ∧ x = '/' :: y := List.cons.inj (e.symm.trans ey)
      simp only [body, hk, ey]
      exact ⟨_, Text.trimEnd_cons rfl _⟩
    | blockComment =>
      obtain ⟨y, ey⟩ := h.proper.blockComment hk
      obtain ⟨rfl, -⟩ : c = '/' ∧ x = '*' :: y := List.cons.inj (e.symm.trans ey)
      simp only [body, hk, ey]
      exact ⟨_, relaid_open style depth y⟩
    | _ => exact ⟨x, by simp only [body, hk, e]⟩
  obtain ⟨y, ey⟩ := hbody
  refine ⟨c, Text.trimEnd Text.isLayoutChar y, ?_, by rw [e]; rfl, hc⟩
  unfold written
  rw [ey, Text.trimEnd_cons hc]

/-- What neither is a comment nor stays open is written as it is. -/
theorem Reads.written_eq_self (h : Reads d t rest) (hv : t.kind.isLayout = false)
    (hc : t.kind.isComment = false) (hs : t.kind.spansLines = true → rest ≠ []) (style : Style)
    (depth : Nat) : written style depth t = t := by
  unfold written
  rw [body_of_not_comment style depth hc, Text.trimEnd_eq_self (h.last_solid hv hc hs)]

/-- **A token keeps its core when it is written.** -/
theorem Reads.core_written (h : Reads d t rest) (hv : t.kind.isLayout = false) (ho : style.Orderly)
    (depth : Nat) : (written style depth t).core = t.core := by
  cases hk : t.kind with
  | lineComment =>
    have hw : written style depth t = ⟨.lineComment, Text.trimEnd Text.isSpace t.text⟩ := by
      simp only [written, body, hk]
      rw [Text.trimEnd_eq_self (Text.trimEnd_isSpace_last t.text)]
    rw [hw]
    simp only [Token.core, hk, Text.trimEnd_trimEnd]
  | blockComment =>
    obtain ⟨x, ex⟩ := h.proper.blockComment hk
    have hbody : body style depth t = relaid style depth t.text := by simp [body, hk, relaid]
    have hne : Text.trimEnd Text.isLayoutChar t.text ≠ [] := by
      rw [ex, Text.trimEnd_cons rfl]
      exact List.cons_ne_nil _ _
    have hne' : Text.trimEnd Text.isLayoutChar (relaid style depth t.text) ≠ [] := by
      rw [ex, relaid_open, Text.trimEnd_cons rfl]
      exact List.cons_ne_nil _ _
    have hlines := Text.trimmedLines_trimEnd_congr (trimmedLines_relaid ho depth t.text) hne' hne
    simp only [Token.core, written, hk, hbody, Text.trimEnd_trimEnd, hlines]
  | string | character => simp only [Token.core, written, body, hk, Text.trimEnd_trimEnd]
  | whitespace | newline => rw [hk] at hv; cases hv
  | _ =>
    rw [h.written_eq_self hv (by simp [hk, Kind.isComment]) (by simp [hk, Kind.spansLines])]

/-! ## 3. Reading again -/

/-- The words that are made of word characters: all but the literals. -/
def Kind.isUnquoted : Kind → Bool
  | .identifier | .keyword | .number => true
  | _ => false

theorem wordKind_isUnquoted (d : Dialect) (x : Text) : (wordKind d x).isUnquoted = true := by
  rcases wordKind_cases d x with e | e <;> rw [e] <;> rfl

theorem punctuation_isUnquoted {c : Char} {kind : Kind} (h : punctuation? c = some kind) :
    kind.isUnquoted = false := by
  unfold punctuation? at h
  split at h <;> cases h <;> rfl

/-- **What must stand behind a token for it to be read as it is.** -/
structure Apart (t : Token) (rest : Text) : Prop where
  word : t.kind.isUnquoted = true → ∀ c ∈ rest.head?, isWordChar c = false
  operator : t.kind = .operator → ∀ c ∈ rest.head?, binds t.text c = false ∧
    (t.text = ['/'] → c ≠ '/' ∧ c ≠ '*')
  lineComment : t.kind = .lineComment → ∀ c ∈ rest.head?, Text.isTerminator c = true

theorem not_operator_of_layoutChar {c : Char} (h : Text.isLayoutChar c = true) :
    [c] ∉ operators := by
  rcases Text.isLayoutChar_iff.mp h with rfl | rfl | rfl | rfl <;> decide

/-- Layout keeps tokens apart. Behind a comment up to the end of its line it must end the line. -/
theorem Apart.of_layout (h : ∀ c ∈ rest.head?, Text.isLayoutChar c = true)
    (hline : t.kind = .lineComment → ∀ c ∈ rest.head?, Text.isTerminator c = true) :
    Apart t rest where
  word _ c hc := not_wordChar_of_layoutChar (h c hc)
  operator _ c hc := by
    refine ⟨not_binds (not_operator_of_layoutChar (h c hc)) _, fun _ => ?_⟩
    constructor <;> rintro rfl <;> exact absurd (h _ hc) (by decide)
  lineComment := hline

/-- Nothing, or the end of a line and whatever follows it. -/
def AtLineEnd (w : Text) : Prop := ∀ c ∈ w.head?, Text.isTerminator c = true

theorem AtLineEnd.apart {w : Text} (h : AtLineEnd w) (t : Token) : Apart t w :=
  .of_layout (fun c hc => Text.isLayoutChar_of_isTerminator (h c hc)) fun _ => h

theorem LineEnd.atLineEnd {nl : Text} (h : LineEnd nl) (more : Text) : AtLineEnd (nl ++ more) := by
  obtain ⟨c, x, rfl, hc⟩ := h.exists_head
  intro y hy
  rw [← Option.some.inj hy]
  exact hc

theorem LineEnd.atLineEnd_self {nl : Text} (h : LineEnd nl) : AtLineEnd nl := by
  have hmore := h.atLineEnd []
  rwa [List.append_nil] at hmore

theorem LineEnd.apart {nl : Text} (h : LineEnd nl) (t : Token) (more : Text) :
    Apart t (nl ++ more) := (h.atLineEnd more).apart t

/-- **A token is read before whatever is apart from it**, if it is closed. -/
theorem Reads.of_apart {rest₀ : Text} (h : Reads d t rest₀) (hv : t.kind.isLayout = false)
    (hs : t.kind.spansLines = true → rest₀ ≠ []) (ha : Apart t rest) : Reads d t rest := by
  cases h with
  | blanks => cases hv
  | lineEnd => cases hv
  | lineComment oneLine _ => exact .lineComment oneLine (ha.lineComment rfl)
  | blockComment reach =>
    rcases throughClose_cases reach with hclosed | ⟨hnil, -⟩
    · exact .blockComment (throughClose_of_closed hclosed rest)
    · exact absurd hnil (hs rfl)
  | @literal quote kind x _ opens reach =>
    have hspans : kind.spansLines = true := by
      rcases literalKind?_cases opens with ⟨-, rfl⟩ | ⟨-, rfl⟩ <;> rfl
    rcases throughQuote_cases reach with ⟨hmore, -⟩ | ⟨hnil, -⟩
    · exact .literal opens (hmore rest)
    · exact absurd hnil (hs hspans)
  | word start all _ => exact .word start all (ha.word (wordKind_isUnquoted d _))
  | number start all _ => exact .number start all (ha.word rfl)
  | mark isMark => exact .mark isMark
  | operator longest _ =>
    exact .operator (operatorAt?_append (operatorAt?_spec longest).1
      fun c hc => (ha.operator rfl c hc).1) fun e c hc => (ha.operator rfl c hc).2 e
  | stray hstray => exact .stray hstray

/-- A token that is closed is written up to a character that is not layout. -/
theorem Reads.body_solid (h : Reads d t rest) (hv : t.kind.isLayout = false)
    (hs : t.kind.spansLines = true → rest ≠ []) (ho : style.Orderly) (depth : Nat) :
    ∀ c ∈ (body style depth t).getLast?, Text.isLayoutChar c = false := by
  cases hc : t.kind.isComment with
  | false =>
    rw [body_of_not_comment style depth hc]
    exact h.last_solid hv hc hs
  | true =>
    cases h with
    | lineComment => exact Text.trimEnd_isSpace_last _
    | @blockComment x _ reach =>
      have hclosed : Closed x := by
        rcases throughClose_cases reach with hclosed | ⟨hnil, -⟩
        · exact hclosed
        · exact absurd hnil (hs rfl)
      obtain ⟨y, e, -⟩ := closed_relaid ho depth hclosed
      change ∀ c ∈ (relaid style depth ('/' :: '*' :: x)).getLast?, Text.isLayoutChar c = false
      rw [relaid_open, e]
      simp [List.getLast?_cons, Text.isLayoutChar, Text.isBlank, Text.isTerminator]
    | literal opens _ =>
      rcases literalKind?_cases opens with ⟨-, rfl⟩ | ⟨-, rfl⟩ <;> cases hc
    | @word c x _ _ _ _ => rcases wordKind_cases d (c :: x) with e | e <;> rw [e] at hc <;> cases hc
    | mark isMark =>
      rw [(punctuation_kind isMark).2.2.1] at hc
      cases hc
    | _ => cases hc

theorem Reads.written_text (h : Reads d t rest) (hv : t.kind.isLayout = false)
    (hs : t.kind.spansLines = true → rest ≠ []) (ho : style.Orderly) (depth : Nat) :
    (written style depth t).text = body style depth t :=
  Text.trimEnd_eq_self (h.body_solid hv hs ho depth)

/-- **A written token is read again**, if it is closed and what stands behind it is apart. -/
theorem Reads.again {rest₀ : Text} (h : Reads d t rest₀) (hv : t.kind.isLayout = false)
    (hs : t.kind.spansLines = true → rest₀ ≠ []) (ho : style.Orderly) (depth : Nat)
    (ha : Apart t rest) : Reads d (written style depth t) rest := by
  have hself : t.kind.isComment = false → Reads d (written style depth t) rest := by
    intro hc
    rw [h.written_eq_self hv hc hs style depth]
    exact h.of_apart hv hs ha
  have hbody : written style depth t = ⟨t.kind, body style depth t⟩ :=
    congrArg (Token.mk t.kind) (h.written_text hv hs ho depth)
  cases h with
  | blanks => cases hv
  | lineEnd => cases hv
  | @lineComment x _ oneLine stop =>
    have htrim : Text.trimEnd Text.isSpace ('/' :: '/' :: x) =
        '/' :: '/' :: Text.trimEnd Text.isSpace x := by
      rw [Text.trimEnd_cons (by decide), Text.trimEnd_cons (by decide)]
    rw [hbody]
    change Reads d ⟨.lineComment, Text.trimEnd Text.isSpace ('/' :: '/' :: x)⟩ rest
    rw [htrim]
    exact .lineComment (oneLine.trimEnd _) (ha.lineComment rfl)
  | @blockComment x _ reach =>
    have hclosed : Closed x := by
      rcases throughClose_cases reach with hclosed | ⟨hnil, -⟩
      · exact hclosed
      · exact absurd hnil (hs rfl)
    rw [hbody]
    change Reads d ⟨.blockComment, relaid style depth ('/' :: '*' :: x)⟩ rest
    rw [relaid_open]
    exact .blockComment (throughClose_of_closed (closed_relaid ho depth hclosed) rest)
  | literal opens _ =>
    refine hself ?_
    rcases literalKind?_cases opens with ⟨-, rfl⟩ | ⟨-, rfl⟩ <;> rfl
  | @word c x _ _ _ _ =>
    refine hself ?_
    rcases wordKind_cases d (c :: x) with e | e <;> rw [e] <;> rfl
  | mark isMark => exact hself (punctuation_kind isMark).2.2.1
  | _ => exact hself rfl

/-- **At the end of a text a written token is read again, or it is open and takes with it what stands
    behind it.** Only layout stands behind an open token. -/
theorem Reads.ends {rest₀ w : Text} (h : Reads d t rest₀) (hv : t.kind.isLayout = false)
    (ho : style.Orderly) (depth : Nat) (hw : AtLineEnd w)
    (hopen : rest₀ = [] → ∀ c ∈ w, Text.isLayoutChar c = true) :
    Reads d (written style depth t) w ∨ (t.kind.spansLines = true ∧
      (∀ c ∈ w, Text.isLayoutChar c = true) ∧
      Reads d ⟨t.kind, (written style depth t).text ++ w⟩ []) := by
  have hagain : ∀ {r : Text}, r ≠ [] → Reads d t r → Reads d (written style depth t) w :=
    fun hr reads => reads.again hv (fun _ => hr) ho depth (hw.apart t)
  cases hspans : t.kind.spansLines with
  | false => exact Or.inl (h.again hv (by simp [hspans]) ho depth (hw.apart t))
  | true =>
    cases h with
    | @blockComment x _ reach =>
      rcases throughClose_cases reach with hclosed | ⟨hnil, hstill⟩
      · exact Or.inl (hagain (List.cons_ne_nil '\n' [])
          (.blockComment (throughClose_of_closed hclosed ['\n'])))
      · have hlayout := hopen hnil
        have hw : (written style depth ⟨.blockComment, '/' :: '*' :: x⟩).text =
            '/' :: '*' :: Text.trimEnd Text.isLayoutChar (relaid style depth x) := by
          change Text.trimEnd Text.isLayoutChar (relaid style depth ('/' :: '*' :: x)) = _
          rw [relaid_open, Text.trimEnd_cons rfl, Text.trimEnd_cons rfl]
        have hslash : '/' ∉ w := by
          intro hm
          exact absurd (hlayout _ hm) (by decide)
        have hopen' :
            ¬ ['*', '/'] <:+: Text.trimEnd Text.isLayoutChar (relaid style depth x) ++ w := by
          intro hi
          have hi' := (infix_append_right (y := ['*']) hslash).mp hi
          exact hstill ((infix_relaid ho depth x).mp
            (hi'.trans (Text.prefix_trimEnd Text.isLayoutChar _).isInfix))
        refine Or.inr ⟨rfl, hlayout, ?_⟩
        rw [hw]
        exact .blockComment (by rw [List.append_nil]; exact throughClose_of_open hopen')
    | @literal quote kind x _ opens reach =>
      rcases throughQuote_cases reach with ⟨hmore, -⟩ | ⟨hnil, hstill⟩
      · exact Or.inl (hagain (List.cons_ne_nil '\n' []) (.literal opens (hmore ['\n'])))
      · have hlayout := hopen hnil
        have hquote : Text.isLayoutChar quote = false ∧ quote ∉ w ∧ kind.isComment = false := by
          rcases literalKind?_cases opens with ⟨rfl, rfl⟩ | ⟨rfl, rfl⟩ <;>
            exact ⟨rfl, fun hm => absurd (hlayout _ hm) (by decide), rfl⟩
        have hw : (written style depth ⟨kind, quote :: x⟩).text =
            quote :: Text.trimEnd Text.isLayoutChar x := by
          unfold written
          rw [body_of_not_comment style depth hquote.2.2, Text.trimEnd_cons hquote.1]
        obtain ⟨z, ez, -⟩ := Text.trimEnd_decomp Text.isLayoutChar x
        rw [ez] at hstill
        have hopen' : closes quote (Text.trimEnd Text.isLayoutChar x ++ w) = false := by
          refine closes_append (closes_of_append hstill) fun c hc => ⟨?_, ?_⟩
          · rintro rfl
            exact hquote.2.1 hc
          · rintro rfl
            exact absurd (hlayout _ hc) (by decide)
        refine Or.inr ⟨rfl, hlayout, ?_⟩
        rw [hw]
        exact .literal opens (by rw [List.append_nil]; exact throughQuote_of_open hopen')
    | blanks => cases hv
    | lineEnd => cases hv
    | @word c x _ _ _ _ =>
      rcases wordKind_cases d (c :: x) with e | e <;> rw [e] at hspans <;> cases hspans
    | mark isMark =>
      rw [(punctuation_kind isMark).2.2.2] at hspans
      cases hspans
    | _ => cases hspans

end RebecaLayout
