import RebecaLayout.Proofs.Context

/-!
**Layout goes statement by statement**: behind a complete statement a text is laid out as if nothing
stood in front of it.

* `Concluded` -- tokens that end with a semicolon and leave nothing open;
* `significant_append_of_semicolon` -- what is put behind a semicolon is read by itself;
* `Concluded.not_missesFrom` -- no later decision depends on tokens that are concluded, so
  `Concluded.spread_along` -- **the row behind them is a new line and the row from the margin**;
* `formatSource_append` -- so the layout of two texts in a row is the two layouts in a row.
-/

namespace RebecaLayout

variable {style : Style} {d : Dialect} {t l : Token} {front before ts us : List Token} {x : Text}

/-! ## 1. Complete statements -/

/-- The last token is a semicolon, and neither braces nor parentheses are open behind it. What closes
    nothing does not count. -/
structure Concluded (ts : List Token) : Prop where
  last : ts.getLast?.map Token.kind = some .semicolon
  braces : nesting 0 ts = 0
  parens : openParens ts = 0

instance (ts : List Token) : Decidable (Concluded ts) :=
  decidable_of_iff (ts.getLast?.map Token.kind = some .semicolon ∧ nesting 0 ts = 0 ∧
      openParens ts = 0)
    ⟨fun h => ⟨h.1, h.2.1, h.2.2⟩, fun h => ⟨h.last, h.braces, h.parens⟩⟩

theorem exists_of_last_semicolon (h : ts.getLast?.map Token.kind = some .semicolon) :
    ∃ init l, ts = init ++ [l] ∧ l.kind = .semicolon := by
  obtain ⟨l, hl, hk⟩ := Option.map_eq_some_iff.mp h
  obtain ⟨init, rfl⟩ := List.getLast?_eq_some_iff.mp hl
  exact ⟨init, l, rfl, hk⟩

/-! ## 2. Reading -/

/-- A semicolon is one character, and it is read whatever follows. -/
theorem Reads.of_semicolon {rest : Text} (h : Reads d l rest) (hk : l.kind = .semicolon) :
    l.text = [';'] ∧ ∀ rest', Reads d l rest' := by
  have htext : l.text = [';'] := by
    rw [h.proper.mark (by simp [hk, Kind.mark]), hk]
    rfl
  refine ⟨htext, fun rest' => ?_⟩
  obtain ⟨kind, text⟩ := l
  obtain rfl : kind = .semicolon := hk
  obtain rfl : text = [';'] := htext
  exact .mark rfl

/-- **What is put behind a semicolon is read by itself**, whatever layout stands between them. -/
theorem significant_append_of_semicolon
    (hx : (Token.significant (tokenize d x)).getLast?.map Token.kind = some .semicolon) (y : Text) :
    Token.significant (tokenize d (x ++ y)) =
      Token.significant (tokenize d x) ++ Token.significant (tokenize d y) := by
  obtain ⟨init, l, hsignificant, hk⟩ := exists_of_last_semicolon hx
  obtain ⟨a, b', htokens, -, hb'⟩ := List.filter_eq_append_iff.mp hsignificant
  obtain ⟨a', b, rfl, -, -, hb⟩ := List.filter_eq_cons_iff.mp hb'
  rw [← List.append_assoc] at htokens
  obtain ⟨rest, hreads⟩ := exists_reads_of_append htokens
  obtain ⟨htext, hreads⟩ := hreads.of_semicolon hk
  -- behind the semicolon stands layout, which may run into layout of the other text
  have hlayout : ∀ c ∈ Token.joined b, Text.isLayoutChar c = true := by
    have hbehind : tokenize d x = (a ++ a' ++ [l]) ++ b := by rw [htokens, List.append_cons]
    refine layout_of_significant (d := d) ?_
    rw [(tokenize_joined hbehind).2.1]
    exact hb
  have hwhole : x ++ y = Token.joined (a ++ a') ++ (l.text ++ (Token.joined b ++ y)) := by
    rw [← joined_tokenize d x, htokens, joined_append, joined_cons]
    simp only [List.append_assoc]
  have hminus : l.text = ['-'] → (Token.joined b ++ y).head? ≠ some '>' := by
    rw [htext]
    exact fun e => absurd e (by decide)
  have hcons : ∀ us, Token.significant (l :: us) = l :: Token.significant us := by
    intro us
    rw [significant_cons, hk]
    rfl
  have hnone : Token.significant b = [] := hb
  rw [hwhole, tokenize_resume htokens hminus, tokenize_append (hreads _), htokens, significant_append,
    significant_append (a ++ a'), hcons, hcons, hnone, significant_layout_append hlayout,
    List.append_assoc]
  rfl

/-! ## 3. Rows -/

namespace Concluded

theorem openParens_append (h : Concluded front) (before : List Token) :
    openParens (front ++ before) = openParens before := by
  rw [openParens, List.foldl_append]
  exact congrArg (fun n => List.foldl _ n before) h.parens

/-- Behind a semicolon an operand begins, as it does where nothing stands. -/
theorem beforeOperand_append (h : Concluded front) :
    BeforeOperand (front ++ before) t ↔ BeforeOperand before t := by
  refine ⟨BeforeOperand.of_append, fun hb => ⟨hb.1, hb.2.imp_right fun hsign => ⟨hsign.1, ?_⟩⟩⟩
  obtain ⟨init, l, rfl, hk⟩ := exists_of_last_semicolon h.last
  have hlast : lastPlain? (init ++ [l]) = some l := by
    rw [lastPlain?_concat, hk]
    rfl
  intro q hq
  rw [lastPlain?_append, hlast] at hq
  cases hbefore : lastPlain? before with
  | some p =>
    rw [hbefore] at hq
    exact hsign.2 q (hbefore.trans hq)
  | none =>
    rw [hbefore] at hq
    rw [← Option.some.inj hq, hk]
    rfl

/-- **No later decision depends on tokens that are concluded.** -/
theorem not_missesFrom (h : Concluded front) :
    ¬ MissesFrom d front before t us := by
  induction us generalizing before t with
  | nil => exact id
  | cons u us ih =>
    intro hmiss
    rcases hmiss with ⟨-, ⟨-, hzero, hpos⟩ | ⟨hb, ⟨-, hn⟩, -⟩⟩ | hmiss
    · rw [h.openParens_append] at hpos
      omega
    · exact hn (h.beforeOperand_append.mpr hb)
    · exact ih hmiss

/-- Behind tokens that are concluded, a line ends and the next one is not indented. -/
theorem gap_along (h : Concluded ts) (style : Style) (t : Token) :
    gap style ((Spot.start 0 true).along style.dialect ts) t = style.terminator := by
  obtain ⟨init, l, rfl, hk⟩ := exists_of_last_semicolon h.last
  have hinit := (recalls_start 0 true).along style.dialect init
  have hts := (recalls_start 0 true).along style.dialect (init ++ [l])
  have hparens : openParens init = 0 := by
    have hclosed := h.parens
    rw [openParens_concat, hk] at hclosed
    exact hclosed
  have hdepth : ((Spot.start 0 true).along style.dialect (init ++ [l])).depthAt t.kind = 0 := by
    rw [hts.depthAt, levelOf, List.nil_append, h.braces]
    exact ite_self _
  have halong : (Spot.start 0 true).along style.dialect (init ++ [l]) =
      ((Spot.start 0 true).along style.dialect init).after style.dialect l :=
    List.foldl_concat ..
  have hopens : ((Spot.start 0 true).along style.dialect (init ++ [l])).opensLine
      style.dialect t = true := by
    rw [halong]
    exact (opensLine_iff hinit).mpr (Or.inr (Or.inr (Or.inl ⟨hk, hparens⟩)))
  rw [gap, if_pos hopens, hdepth, times_zero, List.append_nil, halong, lineBreak_after]

/-- **The row behind tokens that are concluded is a new line and the row from the margin.** -/
theorem spread_along (h : Concluded ts) (ho : style.Orderly) (hne : us ≠ []) :
    spread (pieces style ((Spot.start 0 true).along style.dialect ts) us) =
      style.terminator ++ spread (pieces style (.start 0 true) us) := by
  obtain ⟨t, us, rfl⟩ := List.exists_cons_of_ne_nil hne
  have hts := (recalls_start 0 true).along style.dialect ts
  have hdepth : (Spot.start 0 true).depth = ((Spot.start 0 true).along style.dialect ts).depth := by
    rw [hts.depth, List.nil_append, h.braces]
    rfl
  have hat := depthAt_congr hdepth t.kind
  have hrow := (pieces_eq_iff ho us (recalls_start 0 true) (by simpa using hts)
    (after_depth style.dialect hat)).mpr h.not_missesFrom
  rw [pieces_cons, pieces_cons, spread_cons, spread_cons, h.gap_along, gap_margin, hrow, hat]
  rfl

end Concluded

/-! ## 4. Texts -/

/-- A text that ends with a complete statement shows something. -/
theorem isVoid_of_semicolon
    (hx : (Token.significant (tokenize d x)).getLast?.map Token.kind = some .semicolon) :
    Text.isVoid x = false := by
  obtain ⟨init, l, hsignificant, hk⟩ := exists_of_last_semicolon hx
  have hlast : l ∈ Token.significant (tokenize d x) := by
    rw [hsignificant]
    exact List.mem_append_right _ List.mem_cons_self
  have hmem : l ∈ tokenize d x := (List.mem_filter.mp hlast).1
  obtain ⟨rest, hreads⟩ := exists_reads_of_mem hmem
  have hchar : ';' ∈ x := by
    rw [← joined_tokenize d x]
    refine List.mem_flatMap.mpr ⟨l, hmem, ?_⟩
    rw [(hreads.of_semicolon hk).1]
    exact List.mem_cons_self
  exact List.all_eq_false.mpr ⟨';', hchar, by decide⟩

/-- **Layout goes statement by statement**: for any dialect, unit of blanks and terminator, if a text
    ends with a complete statement and another one shows something, the layout of both in a row is
    the layout of the first and the layout of the second in a row. -/
theorem formatSource_append (d : Dialect) (unit nl x y : Text)
    (hu : ∀ c ∈ unit, Text.isBlank c = true) (hn : LineEnd nl)
    (hx : Concluded (Token.significant (tokenize d x))) (hy : Text.isVoid y = false) :
    ∃ out out', formatSource d (some unit) (some nl) x = .ok out ∧
      formatSource d (some unit) (some nl) y = .ok out' ∧
      formatSource d (some unit) (some nl) (x ++ y) = .ok (out ++ out') := by
  have hu' : ∀ u ∈ some unit, ∀ c ∈ u, Text.isBlank c = true := by simpa using hu
  have hn' : ∀ nl' ∈ some nl, LineEnd nl' := by simpa using hn
  have ho : Style.Orderly ⟨d, unit, nl⟩ := resolve_orderly hu' hn' d x
  have hboth : Text.isVoid (x ++ y) = false := by
    unfold Text.isVoid at hy ⊢
    rw [List.all_append, hy, Bool.and_false]
  have hbehind := hx.spread_along ho (significant_ne_nil d hy)
  refine ⟨_, _, formatSource_spread hu' hn' d (isVoid_of_semicolon hx.last),
    formatSource_spread hu' hn' d hy, ?_⟩
  rw [formatSource_spread hu' hn' d hboth]
  change Except.ok (spread (pieces ⟨d, unit, nl⟩ _ _) ++ nl) = .ok
    ((spread (pieces ⟨d, unit, nl⟩ _ _) ++ nl) ++ (spread (pieces ⟨d, unit, nl⟩ _ _) ++ nl))
  rw [significant_append_of_semicolon hx.last, pieces_append, spread_append, hbehind]
  simp only [List.append_assoc]

/-- A loop with semicolons in parentheses, braces that close nothing, and a pair of return and feed
    that is cut where the second text begins. -/
theorem formatSource_append_loop :
    (∀ c ∈ [' ', ' '], Text.isBlank c = true) ∧ LineEnd ['\n'] ∧
    Concluded (Token.significant (tokenize .rebeca "\x7dfor(;;)\x7bx--;\x7d);\r".toList)) ∧
    Text.isVoid "\n-y/*c*/;".toList = false ∧
    ∃ out out', formatSource .rebeca (some [' ', ' ']) (some ['\n'])
        "\x7dfor(;;)\x7bx--;\x7d);\r".toList = .ok out ∧
      formatSource .rebeca (some [' ', ' ']) (some ['\n']) "\n-y/*c*/;".toList = .ok out' ∧
      formatSource .rebeca (some [' ', ' ']) (some ['\n'])
        ("\x7dfor(;;)\x7bx--;\x7d);\r".toList ++ "\n-y/*c*/;".toList) = .ok (out ++ out') := by
  have hu : ∀ c ∈ [' ', ' '], Text.isBlank c = true := by simp [Text.isBlank]
  have hx : Concluded (Token.significant (tokenize .rebeca "\x7dfor(;;)\x7bx--;\x7d);\r".toList)) := by
    decide +kernel
  have hy : Text.isVoid "\n-y/*c*/;".toList = false := by decide
  exact ⟨hu, .feed, hx, hy, formatSource_append .rebeca _ _ _ _ hu .feed hx hy⟩

end RebecaLayout
