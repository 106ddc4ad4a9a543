import RebecaLayout.Proofs.Stream

/-!
**The last pass wins**: a layout, laid out again, is the layout of the text itself, whatever dialect,
unit and terminator the first pass had.

* `pieces_congr` -- tokens with the same cores are laid out alike;
* `core_inDialect` -- cores stay the same cores in another dialect;
* `formatSource_formatSource` -- the second of two passes leaves no trace of the first.
-/

namespace RebecaLayout

variable {style : Style} {d d' : Dialect} {p : Spot} {t u : Token} {ts us : List Token} {x : Text}

/-! ## 1. Cores decide the layout -/

/-- Tokens of kinds that hold no word and no operator differ for the gap by their kind alone. -/
theorem gap_of_kind (hk : t.kind = u.kind) (h : t.kind.isComment = true ∨ t.kind.spansLines = true)
    (style : Style) (p : Spot) : gap style p t = gap style p u := by
  have hkind : t.kind = .lineComment ∨ t.kind = .blockComment ∨ t.kind = .string ∨
      t.kind = .character := by
    rcases h with h | h
    · rcases isComment_cases h with e | e
      · exact Or.inl e
      · exact Or.inr (Or.inl e)
    · exact Or.inr (spansLines_cases h)
  have hjoins : ∀ t : Token, t.kind.isName = false → t.joins style.dialect = false := by
    intro t ht
    rw [Token.joins, ht]
    rfl
  rcases hkind with e | e | e | e <;>
    simp [gap, Spot.opensLine, Spot.broken, Spot.spaced, Spot.asksSpace, Spot.depthAt, needsSpace,
      hjoins t (by rw [e]; rfl), hjoins u (by rw [← hk, e]; rfl), ← hk, e]

theorem gap_congr (h : t.core = u.core) (style : Style) (p : Spot) :
    gap style p t = gap style p u := by
  have hk := Token.kind_eq_of_core h
  by_cases hcase : t.kind.isComment = true ∨ t.kind.spansLines = true
  · exact gap_of_kind hk hcase style p
  · obtain ⟨hc, hs⟩ := not_or.mp hcase
    rw [Token.eq_of_core h (by simpa using hc) (by simpa using hs)]

/-- Complete tokens with the same core are equal, unless they are comments. -/
theorem Complete.eq_of_core (ht : Complete d t) (hu : Complete d' u) (h : t.core = u.core)
    (hv : t.kind.isLayout = false) (hc : t.kind.isComment = false) : t = u := by
  have hk := Token.kind_eq_of_core h
  obtain ⟨r, hr, hreads⟩ := ht
  obtain ⟨r', hr', hreads'⟩ := hu
  have hself := hreads.written_eq_self hv hc (fun _ => hr) ⟨d, [], ['\n']⟩ 0
  have hself' := hreads'.written_eq_self (hk ▸ hv) (hk ▸ hc) (fun _ => hr') ⟨d, [], ['\n']⟩ 0
  rw [← hself, ← hself']
  exact written_congr ⟨by simp, .feed⟩ 0 h

theorem after_congr (ht : Complete d t) (hu : Complete d' u) (h : t.core = u.core)
    (hv : t.kind.isLayout = false) (dialect : Dialect) (p : Spot) :
    p.after dialect t = p.after dialect u := by
  cases hc : t.kind.isComment with
  | false => rw [ht.eq_of_core hu h hv hc]
  | true =>
    have hk := Token.kind_eq_of_core h
    rcases isComment_cases hc with e | e <;>
      simp [Spot.after, ← hk, e, Kind.isComment, Spot.depthAt]

/-- **Tokens with the same cores are laid out alike.** -/
theorem pieces_congr (ho : style.Orderly) (ht : Legible d ts) (hu : Legible d' us)
    (h : ts.map Token.core = us.map Token.core) (p : Spot) :
    pieces style p ts = pieces style p us := by
  induction ts generalizing us p with
  | nil =>
    obtain rfl : us = [] := List.map_eq_nil_iff.mp h.symm
    rfl
  | cons t ts ih =>
    cases us with
    | nil => cases h
    | cons u us =>
      rw [List.map_cons, List.map_cons, List.cons.injEq] at h
      obtain ⟨htu, htail⟩ := h
      have hk := Token.kind_eq_of_core htu
      have hrest : pieces style (p.after style.dialect t) ts =
          pieces style (p.after style.dialect u) us := by
        cases ht with
        | last =>
          obtain rfl : us = [] := List.map_eq_nil_iff.mp htail.symm
          rfl
        | cons visible complete legible =>
          cases hu with
          | last => cases htail
          | cons _ complete' legible' =>
            rw [after_congr complete complete' htu visible]
            exact ih legible legible' htail _
      rw [pieces_cons, pieces_cons, hrest, gap_congr htu, ← hk, written_congr ho _ htu]

theorem finished_congr (ho : style.Orderly) (ht : Legible d ts) (hu : Legible d' us) (hne : ts ≠ [])
    (h : ts.map Token.core = us.map Token.core) (p : Spot) :
    finished style (rendered style p ts) = finished style (rendered style p us) := by
  have hne' : us ≠ [] := by
    rintro rfl
    exact hne (List.map_eq_nil_iff.mp h)
  rw [finished_rendered ho ht hne, finished_rendered ho hu hne', pieces_congr ho ht hu h]

/-! ## 2. Another dialect -/

theorem significant_inDialect (d : Dialect) (ts : List Token) :
    Token.significant (ts.map (Token.inDialect d)) =
      (Token.significant ts).map (Token.inDialect d) := by
  induction ts with
  | nil => rfl
  | cons t ts ih =>
    rw [List.map_cons, significant_cons, significant_cons, inDialect_isLayout, ih]
    split <;> rfl

/-- The same cores are the same cores in another dialect. -/
theorem core_inDialect (h : t.core = u.core) (d : Dialect) :
    (t.inDialect d).core = (u.inDialect d).core := by
  have hk := Token.kind_eq_of_core h
  unfold Token.inDialect
  rw [← hk]
  split
  · rename_i hname
    have hplain : t.kind.isComment = false ∧ t.kind.spansLines = false := by
      cases hkind : t.kind <;> rw [hkind] at hname <;> simp [Kind.isName] at hname <;>
        exact ⟨rfl, rfl⟩
    rw [Token.text_eq_of_core h hplain.1 hplain.2]
  · exact h

/-- **Texts with the same stream have the same stream in every dialect.** -/
theorem stream_inDialect {y : Text} (h : stream d x = stream d y) (d' : Dialect) :
    stream d' x = stream d' y := by
  have hmap : ∀ ts us : List Token, ts.map Token.core = us.map Token.core →
      (ts.map (Token.inDialect d')).map Token.core =
        (us.map (Token.inDialect d')).map Token.core := by
    intro ts
    induction ts with
    | nil =>
      intro us hus
      rw [List.map_eq_nil_iff.mp hus.symm]
    | cons t ts ih =>
      intro us hus
      cases us with
      | nil => cases hus
      | cons u us =>
        rw [List.map_cons, List.map_cons, List.cons.injEq] at hus
        simp only [List.map_cons]
        rw [core_inDialect hus.1, ih us hus.2]
  unfold stream
  rw [tokenize_inDialect d d' x, tokenize_inDialect d d' y, significant_inDialect,
    significant_inDialect]
  exact hmap _ _ h

/-! ## 3. Two passes -/

theorem isVoid_of_shown {y : Text} (h : Text.shown y = Text.shown x) (hx : Text.isVoid x = false) :
    Text.isVoid y = false := by
  cases hy : Text.isVoid y with
  | false => rfl
  | true =>
    have hnil : Text.shown y = [] := Text.shown_of_all (List.all_eq_true.mp hy)
    exact absurd (h.symm.trans hnil) (Text.shown_ne_nil hx)

/-- Texts with the same stream have the same layout. -/
theorem formatSource_congr {y unit nl : Text} (hu : ∀ c ∈ unit, Text.isBlank c = true)
    (hn : LineEnd nl) (hx : Text.isVoid x = false) (hy : Text.isVoid y = false)
    (h : stream d x = stream d y) :
    formatSource d (some unit) (some nl) x = formatSource d (some unit) (some nl) y := by
  have hu' : ∀ u ∈ some unit, ∀ c ∈ u, Text.isBlank c = true := by simpa using hu
  have hn' : ∀ nl' ∈ some nl, LineEnd nl' := by simpa using hn
  rw [formatSource_eq_finished hu' hn' d hx, formatSource_eq_finished hu' hn' d hy]
  exact congrArg Except.ok (finished_congr (resolve_orderly hu' hn' d x) (legible_significant d x)
    (legible_significant d y) (significant_ne_nil d hx) h (.start 0 true))

/-- **The last pass wins**: where no two tokens weld, the layout of a layout is the layout of the
    text, for any two dialects, units of blanks and terminators. -/
theorem formatSource_formatSource (d₁ d₂ : Dialect) (unit₁ unit₂ nl₁ nl₂ x : Text)
    (hu₁ : ∀ c ∈ unit₁, Text.isBlank c = true) (hu₂ : ∀ c ∈ unit₂, Text.isBlank c = true)
    (hn₁ : LineEnd nl₁) (hn₂ : LineEnd nl₂) (hx : WeldFree (Token.significant (tokenize d₁ x))) :
    ∃ out final, formatSource d₁ (some unit₁) (some nl₁) x = .ok out ∧
      formatSource d₂ (some unit₂) (some nl₂) out = .ok final ∧
      formatSource d₂ (some unit₂) (some nl₂) x = .ok final := by
  cases hvoid : Text.isVoid x with
  | true =>
    have hstay : ∀ (d : Dialect) (unit nl : Text),
        formatSource d (some unit) (some nl) x = .ok x := by
      intro d unit nl
      rw [formatSource, hvoid, if_pos rfl]
    exact ⟨x, x, hstay _ _ _, hstay _ _ _, hstay _ _ _⟩
  | false =>
    have hu₁' : ∀ u ∈ some unit₁, ∀ c ∈ u, Text.isBlank c = true := by simpa using hu₁
    have hn₁' : ∀ nl ∈ some nl₁, LineEnd nl := by simpa using hn₁
    have hu₂' : ∀ u ∈ some unit₂, ∀ c ∈ u, Text.isBlank c = true := by simpa using hu₂
    have hn₂' : ∀ nl ∈ some nl₂, LineEnd nl := by simpa using hn₂
    have hout := formatSource_eq_finished hu₁' hn₁' d₁ hvoid
    have hfinal := formatSource_eq_finished hu₂' hn₂' d₂ hvoid
    have hstream := stream_of_formatSource hu₁' hn₁' hvoid hout
    rw [welded_of_weldFree hx] at hstream
    have hvoid' := isVoid_of_shown (shown_of_formatSource hu₁' hn₁' hout) hvoid
    refine ⟨_, _, hout, ?_, hfinal⟩
    rw [← hfinal]
    exact formatSource_congr hu₂ hn₂ hvoid' hvoid (stream_inDialect hstream d₂)

/-- A comment and a literal that is never closed, first with tabs and line feeds, then in another
    dialect with spaces and carriage returns. -/
theorem formatSource_formatSource_open_literal :
    (∀ c ∈ ['\t'], Text.isBlank c = true) ∧ (∀ c ∈ "   ".toList, Text.isBlank c = true) ∧
    LineEnd ['\n'] ∧ LineEnd ['\r'] ∧
    WeldFree (Token.significant (tokenize .property "x\x7b/* a\n   b */ y : \"z \n ".toList)) ∧
    ∃ out final, formatSource .property (some ['\t']) (some ['\n'])
        "x\x7b/* a\n   b */ y : \"z \n ".toList = .ok out ∧
      formatSource .rebeca (some "   ".toList) (some ['\r']) out = .ok final ∧
      formatSource .rebeca (some "   ".toList) (some ['\r'])
        "x\x7b/* a\n   b */ y : \"z \n ".toList = .ok final := by
  have hu₁ : ∀ c ∈ ['\t'], Text.isBlank c = true := by simp [Text.isBlank]
  have hblank : "   ".toList.all Text.isBlank = true := by decide
  have hu₂ : ∀ c ∈ "   ".toList, Text.isBlank c = true := List.all_eq_true.mp hblank
  have hx : WeldFree (Token.significant
      (tokenize .property "x\x7b/* a\n   b */ y : \"z \n ".toList)) := by decide +kernel
  exact ⟨hu₁, hu₂, .feed, .carriageReturn, hx,
    formatSource_formatSource .property .rebeca _ _ _ _ _ hu₁ hu₂ .feed .carriageReturn hx⟩

end RebecaLayout
