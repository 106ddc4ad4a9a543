import Mathlib.Data.List.Forall2
import RebecaLayout.Proofs.LastPass

/-!
**The layout of a text depends on its tokens alone**, and on nothing in them but what layout keeps.

* `Token.Open` -- a comment or literal that is never closed;
* `Token.Alike` -- tokens that differ only where layout decides: line comments in white space at
  their end, block comments in terminators and in blanks at the edges of lines, open tokens in layout
  at their end;
* `alike_iff_core` -- tokens as texts have them are alike exactly if their cores are the same;
* `formatSource_alike` -- **texts whose tokens are alike have one layout**, and texts with one layout
  have tokens that are alike, if nothing in them welds.
-/

namespace RebecaLayout

variable {d d' : Dialect} {t u : Token} {ts us : List Token} {x y rest rest' : Text}

/-! ## 1. Likeness -/

/-- A comment or literal that is never closed. -/
def Token.Open (t : Token) : Prop :=
  match t.kind, t.text with
  | .blockComment, '/' :: '*' :: x => ¬ ['*', '/'] <:+: x
  | .string, quote :: x => closes quote x = false
  | .character, quote :: x => closes quote x = false
  | _, _ => False

/-- **Tokens that differ only where layout decides.** -/
def Token.Alike (t u : Token) : Prop :=
  t.kind = u.kind ∧ match t.kind with
    | .lineComment => Text.trimEnd Text.isSpace t.text = Text.trimEnd Text.isSpace u.text
    | .blockComment => Text.trimmedLines t.text = Text.trimmedLines u.text ∨ (t.Open ∧ u.Open ∧
        Text.trimmedLines (Text.trimEnd Text.isLayoutChar t.text) =
          Text.trimmedLines (Text.trimEnd Text.isLayoutChar u.text))
    | .string | .character => t.text = u.text ∨ (t.Open ∧ u.Open ∧
        Text.trimEnd Text.isLayoutChar t.text = Text.trimEnd Text.isLayoutChar u.text)
    | _ => t.text = u.text

/-! ## 2. Comments -/

/-- What opens a comment stays in front of its first line. -/
theorem trimmedLines_open (x : Text) : ∃ first further, Text.trimmedLines x = first :: further ∧
    Text.trimmedLines ('/' :: '*' :: x) = ('/' :: '*' :: first) :: further := by
  obtain ⟨first, further, e⟩ := Text.exists_splitLines x
  have hopen : Text.splitLines ('/' :: '*' :: x) = ('/' :: '*' :: first) :: further := by
    rw [Text.splitLines_cons rfl, Text.splitLines_cons rfl, e]
    rfl
  refine ⟨Text.trimEnd Text.isBlank first, further.map (Text.trim Text.isBlank), ?_, ?_⟩
  · rw [Text.trimmedLines, e]
    rfl
  · rw [Text.trimmedLines, hopen]
    show Text.trimEnd Text.isBlank ('/' :: '*' :: first) :: _ = _
    rw [Text.trimEnd_cons rfl, Text.trimEnd_cons rfl]

theorem trimmedLines_of_open
    (h : Text.trimmedLines ('/' :: '*' :: x) = Text.trimmedLines ('/' :: '*' :: y)) :
    Text.trimmedLines x = Text.trimmedLines y := by
  obtain ⟨first, further, ex, ex'⟩ := trimmedLines_open x
  obtain ⟨first', further', ey, ey'⟩ := trimmedLines_open y
  rw [ex', ey'] at h
  obtain ⟨hfirst, hfurther⟩ := List.cons.inj h
  rw [ex, ey, hfurther, (List.cons.inj (List.cons.inj hfirst).2).2]

/-- A `*/` stands in a text exactly if it stands in one of its trimmed lines. -/
theorem infix_iff_trimmedLines (x : Text) :
    ['*', '/'] <:+: x ↔ ∃ line ∈ Text.trimmedLines x, ['*', '/'] <:+: line := by
  have hone : Text.OneLine ['*', '/'] := by
    intro c hc
    rcases List.mem_pair.mp hc with rfl | rfl <;> rfl
  obtain ⟨first, further, e⟩ := Text.exists_splitLines x
  rw [Text.infix_iff_splitLines hone (by simp), Text.trimmedLines, e]
  simp only [Text.trimmed, List.exists_mem_cons_iff, List.mem_map, exists_exists_and_eq_and,
    infix_trimEnd, infix_trim]

/-- Layout at the end of a text holds no `*/`. -/
theorem infix_trimEnd_layout (x : Text) :
    ['*', '/'] <:+: Text.trimEnd Text.isLayoutChar x ↔ ['*', '/'] <:+: x := by
  obtain ⟨z, e, hz⟩ := Text.trimEnd_decomp Text.isLayoutChar x
  have hslash : '/' ∉ z := by
    intro hm
    exact absurd (hz _ hm) (by decide)
  conv_rhs => rw [e]
  exact (infix_append_right (y := ['*']) hslash).symm

/-- **Comments with the same core are both open or both closed.** -/
theorem infix_of_core (h : Token.core ⟨.blockComment, '/' :: '*' :: x⟩ =
    Token.core ⟨.blockComment, '/' :: '*' :: y⟩) : ['*', '/'] <:+: x ↔ ['*', '/'] <:+: y := by
  have htrim : ∀ x : Text, Text.trimEnd Text.isLayoutChar ('/' :: '*' :: x) =
      '/' :: '*' :: Text.trimEnd Text.isLayoutChar x := by
    intro x
    rw [Text.trimEnd_cons rfl, Text.trimEnd_cons rfl]
  have hlines := congrArg Prod.snd h
  simp only [Token.core, htrim] at hlines
  rw [← infix_trimEnd_layout x, ← infix_trimEnd_layout y, infix_iff_trimmedLines,
    infix_iff_trimmedLines (Text.trimEnd Text.isLayoutChar y), trimmedLines_of_open hlines]

/-- A closed comment ends with no layout. -/
theorem trimEnd_closed (reach : throughClose (x ++ rest) = x) (hx : ['*', '/'] <:+: x) :
    Text.trimEnd Text.isLayoutChar ('/' :: '*' :: x) = '/' :: '*' :: x := by
  rcases throughClose_cases reach with ⟨y, rfl, -⟩ | ⟨-, hopen⟩
  · refine Text.trimEnd_eq_self fun c hc => ?_
    simp only [List.getLast?_cons, List.getLast?_append] at hc
    obtain rfl : '/' = c := by simpa using hc
    rfl
  · exact absurd hx hopen

/-- **Comments as texts have them are alike exactly if their cores are the same.** -/
theorem alike_blockComment (hx : throughClose (x ++ rest) = x) (hy : throughClose (y ++ rest') = y) :
    Token.Alike ⟨.blockComment, '/' :: '*' :: x⟩ ⟨.blockComment, '/' :: '*' :: y⟩ ↔
      Token.core ⟨.blockComment, '/' :: '*' :: x⟩ =
        Token.core ⟨.blockComment, '/' :: '*' :: y⟩ := by
  have hcore : Token.core ⟨.blockComment, '/' :: '*' :: x⟩ =
      Token.core ⟨.blockComment, '/' :: '*' :: y⟩ ↔
        Text.trimmedLines (Text.trimEnd Text.isLayoutChar ('/' :: '*' :: x)) =
          Text.trimmedLines (Text.trimEnd Text.isLayoutChar ('/' :: '*' :: y)) := by
    simp [Token.core]
  have hne : ∀ x : Text, Text.trimEnd Text.isLayoutChar ('/' :: '*' :: x) ≠ [] := by
    intro x
    rw [Text.trimEnd_cons rfl]
    exact List.cons_ne_nil _ _
  constructor
  · intro h
    rw [hcore]
    rcases h.2 with hlines | ⟨-, -, hlines⟩
    · exact Text.trimmedLines_trimEnd_congr hlines (hne x) (hne y)
    · exact hlines
  · intro h
    have hlines := hcore.mp h
    refine ⟨rfl, ?_⟩
    by_cases hi : ['*', '/'] <:+: x
    · rw [trimEnd_closed hx hi, trimEnd_closed hy ((infix_of_core h).mp hi)] at hlines
      exact Or.inl hlines
    · exact Or.inr ⟨hi, fun hi' => hi ((infix_of_core h).mpr hi'), hlines⟩

/-! ## 3. Literals -/

/-- A literal is open, or it ends with no layout and nothing behind it belongs to it. -/
theorem literal_open_or_closed {quote : Char} {kind : Kind} (opens : literalKind? quote = some kind)
    (reach : throughQuote quote (x ++ rest) = x) :
    closes quote x = false ∨ ((∀ more, throughQuote quote (x ++ more) = x) ∧
      Text.trimEnd Text.isLayoutChar (quote :: x) = quote :: x) := by
  rcases throughQuote_cases reach with ⟨hmore, hlast⟩ | ⟨-, hopen⟩
  · refine Or.inr ⟨hmore, Text.trimEnd_eq_self fun c hc => ?_⟩
    rw [List.getLast?_cons, hlast] at hc
    obtain rfl : quote = c := Option.some.inj hc
    rcases literalKind?_cases opens with ⟨rfl, -⟩ | ⟨rfl, -⟩ <;> rfl
  · exact Or.inl hopen

/-- What is closed and equals an open literal up to layout at the end is that literal. -/
theorem literal_eq_of_trimEnd {quote : Char} (hx : ∀ more, throughQuote quote (x ++ more) = x)
    (htrim : Text.trimEnd Text.isLayoutChar (quote :: x) = quote :: x)
    (hy : closes quote y = false) (h : Text.trimEnd Text.isLayoutChar (quote :: x) =
      Text.trimEnd Text.isLayoutChar (quote :: y)) : x = y := by
  obtain ⟨z, e, -⟩ := Text.trimEnd_decomp Text.isLayoutChar (quote :: y)
  rw [← h, htrim, List.cons_append] at e
  have ey : y = x ++ z := (List.cons.inj e).2
  have hall := throughQuote_of_open hy
  rw [ey, hx z] at hall
  rw [ey]
  exact hall

theorem alike_literal {quote : Char} {kind : Kind} (opens : literalKind? quote = some kind)
    (hx : throughQuote quote (x ++ rest) = x) (hy : throughQuote quote (y ++ rest') = y) :
    Token.Alike ⟨kind, quote :: x⟩ ⟨kind, quote :: y⟩ ↔
      Token.core ⟨kind, quote :: x⟩ = Token.core ⟨kind, quote :: y⟩ := by
  have halike : Token.Alike ⟨kind, quote :: x⟩ ⟨kind, quote :: y⟩ ↔ quote :: x = quote :: y ∨
      (closes quote x = false ∧ closes quote y = false ∧
        Text.trimEnd Text.isLayoutChar (quote :: x) =
          Text.trimEnd Text.isLayoutChar (quote :: y)) := by
    rcases literalKind?_cases opens with ⟨-, rfl⟩ | ⟨-, rfl⟩ <;> simp [Token.Alike, Token.Open]
  have hcore : Token.core ⟨kind, quote :: x⟩ = Token.core ⟨kind, quote :: y⟩ ↔
      Text.trimEnd Text.isLayoutChar (quote :: x) =
        Text.trimEnd Text.isLayoutChar (quote :: y) := by
    rcases literalKind?_cases opens with ⟨-, rfl⟩ | ⟨-, rfl⟩ <;> simp [Token.core]
  rw [halike, hcore]
  constructor
  · intro h
    rcases h with e | ⟨-, -, e⟩
    · rw [e]
    · exact e
  · intro h
    rcases literal_open_or_closed opens hx with hox | ⟨hcx, htx⟩
    · rcases literal_open_or_closed opens hy with hoy | ⟨hcy, hty⟩
      · exact Or.inr ⟨hox, hoy, h⟩
      · rw [literal_eq_of_trimEnd hcy hty hox h.symm]
        exact Or.inl rfl
    · rcases literal_open_or_closed opens hy with hoy | ⟨-, hty⟩
      · rw [literal_eq_of_trimEnd hcx htx hoy h]
        exact Or.inl rfl
      · rw [htx, hty] at h
        exact Or.inl h

/-! ## 4. Tokens -/

/-- **Tokens as texts have them are alike exactly if their cores are the same.** -/
theorem alike_iff_core (ht : Reads d t rest) (hu : Reads d' u rest') :
    t.Alike u ↔ t.core = u.core := by
  by_cases hk : t.kind = u.kind
  · cases hs : t.kind.spansLines with
    | false =>
      cases hkind : t.kind with
      | blockComment | string | character =>
        rw [hkind] at hs
        cases hs
      | _ => simp [Token.Alike, Token.core, hkind, ← hk]
    | true =>
      rcases ht.comment_or_literal hs with ⟨x, rfl, reach⟩ | ⟨quote, kind, x, opens, rfl, reach⟩ <;>
      rcases hu.comment_or_literal (hk ▸ hs) with
        ⟨y, rfl, reach'⟩ | ⟨quote', kind', y, opens', rfl, reach'⟩
      · exact alike_blockComment reach reach'
      · rcases literalKind?_cases opens' with ⟨-, rfl⟩ | ⟨-, rfl⟩ <;> cases hk
      · rcases literalKind?_cases opens with ⟨-, rfl⟩ | ⟨-, rfl⟩ <;> cases hk
      · obtain rfl : quote = quote' := by
          rcases literalKind?_cases opens with ⟨rfl, rfl⟩ | ⟨rfl, rfl⟩ <;>
            rcases literalKind?_cases opens' with ⟨rfl, rfl⟩ | ⟨rfl, rfl⟩ <;> first | rfl | cases hk
        obtain rfl : kind = kind' := hk
        exact alike_literal opens reach reach'
  · exact iff_of_false (fun h => hk h.1) fun h => hk (Token.kind_eq_of_core h)

/-- Token by token, over the tokens of two texts. -/
theorem Legible.forall₂_alike (ht : Legible d ts) (hu : Legible d' us) :
    List.Forall₂ Token.Alike ts us ↔ ts.map Token.core = us.map Token.core := by
  induction ts generalizing us with
  | nil => cases us <;> simp
  | cons t ts ih =>
    cases us with
    | nil => simp
    | cons u us =>
      obtain ⟨-, rest, hreads⟩ := ht.head
      obtain ⟨-, rest', hreads'⟩ := hu.head
      rw [List.forall₂_cons, List.map_cons, List.map_cons, List.cons.injEq,
        alike_iff_core hreads hreads', ih ht.tail hu.tail]

/-! ## 5. Texts -/

/-- **The layout of a text depends on its tokens alone**: for any dialect, unit of blanks and
    terminator, texts that show something and whose tokens are alike one by one have the same layout.
    Nothing more is forgotten: where no two tokens weld, texts with the same layout have tokens that
    are alike. -/
theorem formatSource_alike (d : Dialect) (unit nl x y : Text)
    (hu : ∀ c ∈ unit, Text.isBlank c = true) (hn : LineEnd nl)
    (hx : Text.isVoid x = false) (hy : Text.isVoid y = false) :
    ∃ out out', formatSource d (some unit) (some nl) x = .ok out ∧
      formatSource d (some unit) (some nl) y = .ok out' ∧
      (List.Forall₂ Token.Alike (Token.significant (tokenize d x))
        (Token.significant (tokenize d y)) → out = out') ∧
      (WeldFree (Token.significant (tokenize d x)) → WeldFree (Token.significant (tokenize d y)) →
        out = out' → List.Forall₂ Token.Alike (Token.significant (tokenize d x))
          (Token.significant (tokenize d y))) := by
  have hu' : ∀ u ∈ some unit, ∀ c ∈ u, Text.isBlank c = true := by simpa using hu
  have hn' : ∀ nl' ∈ some nl, LineEnd nl' := by simpa using hn
  have hout := formatSource_eq_finished hu' hn' d hx
  have hout' := formatSource_eq_finished hu' hn' d hy
  have halike := (legible_significant d x).forall₂_alike (legible_significant d y)
  refine ⟨_, _, hout, hout', ?_, ?_⟩
  · intro h
    have hsame := formatSource_congr hu hn hx hy (halike.mp h)
    rw [hout, hout'] at hsame
    exact Except.ok.inj hsame
  · intro hwx hwy h
    have hstream := stream_of_formatSource hu' hn' hx hout
    rw [h, stream_of_formatSource hu' hn' hy hout', welded_of_weldFree hwx,
      welded_of_weldFree hwy] at hstream
    exact halike.mpr hstream.symm

/-- One line without a blank that could be left out, and one token on a line with carriage returns,
    a comment laid out another way and layout taken in by the literal that is never closed. -/
theorem formatSource_alike_open_literal :
    (∀ c ∈ ['\t'], Text.isBlank c = true) ∧ LineEnd ['\r', '\n'] ∧
    Text.isVoid "x\x7b/*a\n b*/y=\"z".toList = false ∧
    Text.isVoid "x\r\t\x7b\r/*a \r\t b*/ \ry\r =\r\"z \r".toList = false ∧
    List.Forall₂ Token.Alike (Token.significant (tokenize .rebeca "x\x7b/*a\n b*/y=\"z".toList))
      (Token.significant (tokenize .rebeca "x\r\t\x7b\r/*a \r\t b*/ \ry\r =\r\"z \r".toList)) ∧
    ∃ out, formatSource .rebeca (some ['\t']) (some ['\r', '\n'])
        "x\x7b/*a\n b*/y=\"z".toList = .ok out ∧
      formatSource .rebeca (some ['\t']) (some ['\r', '\n'])
        "x\r\t\x7b\r/*a \r\t b*/ \ry\r =\r\"z \r".toList = .ok out := by
  have hu : ∀ c ∈ ['\t'], Text.isBlank c = true := by simp [Text.isBlank]
  have hx : Text.isVoid "x\x7b/*a\n b*/y=\"z".toList = false := by decide
  have hy : Text.isVoid "x\r\t\x7b\r/*a \r\t b*/ \ry\r =\r\"z \r".toList = false := by decide
  have halike : List.Forall₂ Token.Alike
      (Token.significant (tokenize .rebeca "x\x7b/*a\n b*/y=\"z".toList))
      (Token.significant
        (tokenize .rebeca "x\r\t\x7b\r/*a \r\t b*/ \ry\r =\r\"z \r".toList)) :=
    ((legible_significant .rebeca _).forall₂_alike (legible_significant .rebeca _)).mpr
      (by decide +kernel)
  obtain ⟨out, out', hout, hout', hsame, -⟩ :=
    formatSource_alike .rebeca ['\t'] ['\r', '\n'] _ _ hu .returnFeed hx hy
  obtain rfl := hsame halike
  exact ⟨hu, .returnFeed, hx, hy, halike, out, hout, hout'⟩

end RebecaLayout
