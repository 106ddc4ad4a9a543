import RebecaLayout.Proofs.Neighbours
import RebecaLayout.Proofs.Region

/-!
Lines of a text that its layout leaves as it is.

* `Spot.along` -- what is decided behind several tokens; `pieces_append` -- **a row goes on from where
  its first part ends**;
* `Spot.afresh` -- the same decisions at the start of a line;
* `LaidOut` -- a text that is its own layout;
* `LaidOut.drop_lines`, `LaidOut.span_lines` -- **its last lines, and any lines of it, are the row of
  their tokens** from where they stand, and one terminator.
-/

namespace RebecaLayout

variable {style : Style} {d : Dialect} {p : Spot} {t l : Token} {a b ts : List Token}
  {row row₁ row₂ : List (Text × Token)} {x g nl : Text} {offset length k : Nat}

/-! ## 1. Rows that go on -/

/-- What is decided after several tokens more. -/
def Spot.along (dialect : Dialect) (p : Spot) (ts : List Token) : Spot :=
  ts.foldl (Spot.after dialect) p

/-- **A row goes on from where its first part ends.** -/
theorem pieces_append (style : Style) (p : Spot) (a b : List Token) :
    pieces style p (a ++ b) = pieces style p a ++ pieces style (p.along style.dialect a) b := by
  induction a generalizing p with
  | nil => rfl
  | cons t a ih => rw [List.cons_append, pieces_cons, ih, pieces_cons, List.cons_append]; rfl

/-- A part of a row is the row of a part of the tokens. -/
theorem exists_of_pieces {z : Token} (h : pieces style p ts = row₁ ++ (g, z) :: row₂) :
    ∃ front t us, ts = front ++ t :: us ∧ front.length = row₁.length ∧
      g = gap style (p.along style.dialect front) t ∧
      (g, z) :: row₂ = pieces style (p.along style.dialect front) (t :: us) := by
  induction row₁ generalizing p ts with
  | nil =>
    cases ts with
    | nil => cases h
    | cons t us => exact ⟨[], t, us, rfl, rfl, congrArg Prod.fst (List.cons.inj h).1.symm, h.symm⟩
  | cons a row₁ ih =>
    cases ts with
    | nil => cases h
    | cons t us =>
      obtain ⟨front, u, vs, rfl, hlength, hgap, hrow⟩ := ih (List.cons.inj h).2
      exact ⟨t :: front, u, vs, rfl, congrArg (· + 1) hlength, hgap, hrow⟩

theorem Recalls.along {depth : Nat} {before : List Token} (h : Recalls depth before p)
    (dialect : Dialect) (ts : List Token) :
    Recalls depth (before ++ ts) (p.along dialect ts) := by
  induction ts generalizing before p with
  | nil =>
    rw [List.append_nil]
    exact h
  | cons t ts ih =>
    rw [List.append_cons]
    exact ih (h.after dialect t)

/-- The same decisions at the start of a line. -/
def Spot.afresh (p : Spot) : Spot := { p with last := none, lineStart := true }

/-- At the start of a line, only indentation stands in front of the first token. -/
theorem pieces_afresh (style : Style) (p : Spot) (t : Token) (us : List Token) :
    pieces style p.afresh (t :: us) =
      (Text.times style.unit (p.depthAt t.kind), written style (p.depthAt t.kind) t) ::
        pieces style (p.after style.dialect t) us := rfl

theorem spread_append (row₁ row₂ : List (Text × Token)) :
    spread (row₁ ++ row₂) = spread row₁ ++ spread row₂ :=
  List.flatMap_append ..

theorem joined_tokensOf (d : Dialect) (row : List (Text × Token)) :
    Token.joined (tokensOf d row) = spread row := by
  induction row with
  | nil => rfl
  | cons a row ih =>
    rw [tokensOf_cons, joined_append, joined_tokenize, joined_cons, ih, spread_cons]

/-! ## 2. Where lines begin -/

/-- What ends with a terminator and has something behind it is a terminator. -/
theorem Reads.newline_of_last {rest : Text} (h : Reads d l rest) (hrest : rest ≠ [])
    (hlast : ∀ c ∈ l.text.getLast?, Text.isTerminator c = true) : l.kind = .newline := by
  obtain ⟨c, hc⟩ := Option.ne_none_iff_exists'.mp
    (List.getLast?_eq_none_iff.not.mpr h.text_ne_nil)
  have hterminator := hlast c hc
  cases hlayout : l.kind.isLayout with
  | false =>
    rw [h.last_not_terminator hlayout hrest c hc] at hterminator
    cases hterminator
  | true =>
    rcases h.layout_cases hlayout with ⟨-, -, all, -⟩ | ⟨hk, -, -⟩
    · have hblank := all c (List.mem_of_getLast? hc)
      rcases Text.isBlank_iff.mp hblank with rfl | rfl <;> cases hterminator
    · exact hk

theorem kind_of_blanks (hg : ∀ c ∈ g, Text.isBlank c = true) :
    ∀ t ∈ tokenize d g, t.kind = .whitespace := by
  intro t ht
  by_cases hnil : g = []
  · rw [hnil] at ht
    cases ht
  · rw [tokenize_blanks hnil hg] at ht
    rw [List.mem_singleton.mp ht]

/-- A terminator in a gap is its beginning, and the indentation stands behind it. -/
theorem gap_of_newline (ho : style.Orderly) (hl : l.kind = .newline)
    (h : tokenize d (gap style p t) = a ++ l :: b) : a = [] ∧
      gap style p t = style.terminator ++ Text.times style.unit (p.depthAt t.kind) ∧
      Token.joined b = Text.times style.unit (p.depthAt t.kind) := by
  have hnot : ∀ {g : Text} {a : List Token}, (∀ c ∈ g, Text.isBlank c = true) →
      tokenize d g ≠ a ++ l :: b := by
    intro g a hg e
    have hk := kind_of_blanks (d := d) hg l (by rw [e]; simp)
    rw [hl] at hk
    cases hk
  have hindent := ho.blank_indent (p.depthAt t.kind)
  unfold gap lineBreak at h ⊢
  split at h
  · split at h
    · exact absurd h (hnot hindent)
    · rw [tokenize_lineEnd_append ho.terminator hindent] at h
      cases a with
      | nil =>
        obtain ⟨-, hb⟩ := List.cons.inj h
        rw [if_pos ‹_›, if_neg ‹_›, ← hb, joined_tokenize]
        exact ⟨rfl, rfl, rfl⟩
      | cons c a => exact absurd (List.cons.inj h).2 (hnot hindent)
  · split at h
    · exact absurd h (hnot (by simp [Text.isBlank]))
    · cases a <;> cases h

/-- **A terminator among the tokens of a row stands in a gap**, or behind the row. -/
theorem cut_tokensOf {tail : List Token} (hrow : ∀ a ∈ row, a.2.kind.isLayout = false)
    (hl : l.kind = .newline) (h : tokensOf d row ++ tail = a ++ l :: b) :
    (∃ row₁ g z row₂ g₁ g₂, row = row₁ ++ (g, z) :: row₂ ∧ tokenize d g = g₁ ++ l :: g₂ ∧
      a = tokensOf d row₁ ++ g₁ ∧ b = g₂ ++ z :: (tokensOf d row₂ ++ tail)) ∨
    ∃ c, tail = c ++ l :: b := by
  induction row generalizing a with
  | nil => exact Or.inr ⟨a, h⟩
  | cons piece row ih =>
    obtain ⟨g, z⟩ := piece
    obtain ⟨hz, hrow⟩ := List.forall_mem_cons.mp hrow
    have hne : z ≠ l := by
      rintro rfl
      rw [hl] at hz
      cases hz
    rw [tokensOf_cons, List.append_assoc, List.cons_append] at h
    rcases List.append_eq_append_iff.mp h with ⟨c, rfl, e⟩ | ⟨c, hg, e⟩
    · cases c with
      | nil => exact absurd (List.cons.inj e).1 hne
      | cons z' c =>
        obtain ⟨hz', hrest⟩ := List.cons.inj e
        rcases ih hrow hrest with ⟨row₁, g', y, row₂, g₁, g₂, rfl, hg, rfl, hb⟩ | hb
        · refine Or.inl ⟨(g, z) :: row₁, g', y, row₂, g₁, g₂, rfl, hg, ?_, hb⟩
          rw [← hz', tokensOf_cons, List.append_assoc, List.cons_append]
        · exact Or.inr hb
    · cases c with
      | nil => exact absurd (List.cons.inj e).1.symm hne
      | cons l' c =>
        obtain ⟨rfl, rfl⟩ := List.cons.inj e
        exact Or.inl ⟨[], g, z, row, a, c, rfl, hg, rfl, rfl⟩

/-! ## 3. Texts that stay -/

/-- A text that is its own layout. -/
structure LaidOut (style : Style) (x : Text) : Prop where
  orderly : style.Orderly
  text : x = spread (pieces style (.start 0 true)
    (Token.significant (tokenize style.dialect x))) ++ style.terminator
  readable : Readable style.dialect style.terminator
    (pieces style (.start 0 true) (Token.significant (tokenize style.dialect x)))

/-- **A text that shows something and stays is its own layout.** -/
theorem laidOut_of_formatSource {unit : Text} (hu : ∀ c ∈ unit, Text.isBlank c = true)
    (hn : LineEnd nl) (hvoid : Text.isVoid x = false)
    (h : formatSource d (some unit) (some nl) x = .ok x) : LaidOut ⟨d, unit, nl⟩ x := by
  have hu' : ∀ u ∈ some unit, ∀ c ∈ u, Text.isBlank c = true := by simpa using hu
  have hn' : ∀ nl' ∈ some nl, LineEnd nl' := by simpa using hn
  have ho : Style.Orderly ⟨d, unit, nl⟩ := resolve_orderly hu' hn' d x
  have hlegible := legible_significant d x
  have hne := significant_ne_nil d hvoid
  have hcores := pieces_cores ho hlegible (.start 0 true)
  -- reading the text again gives the same tokens, so none of them weld
  have hfree : WeldFree ((pieces ⟨d, unit, nl⟩ (.start 0 true)
      (Token.significant (tokenize d x))).map Prod.snd) := by
    refine (cores_welded_iff d _).mp ?_
    rw [welded_congr hcores, ← stream_of_formatSource hu' hn' hvoid h]
    exact hcores.symm
  obtain ⟨hreadable, -⟩ := weldAll_readable ho hn.atLineEnd_self hlegible (Or.inl hn.layout) hne
    (.start 0 true)
  rw [weldAll_of_weldFree hfree] at hreadable
  refine ⟨ho, ?_, hreadable⟩
  have hout := Except.ok.inj (h.symm.trans (formatSource_eq_finished hu' hn' d hvoid))
  exact hout.trans (finished_rendered ho hlegible hne (.start 0 true))

/-- The text of a row is read as the row, but that the last token may take the terminator with it. -/
theorem Readable.exists_row (hn : LineEnd nl) (h : Readable d nl row) :
    ∃ init g z z' tail, row = init ++ [(g, z)] ∧
      (∀ piece ∈ init ++ [(g, z')], piece.2.kind.isLayout = false) ∧
      (tail = [] ∨ tail = [⟨.newline, nl⟩]) ∧ z'.text ++ Token.joined tail = z.text ++ nl ∧
      tokenize d (spread row ++ nl) = tokensOf d (init ++ [(g, z')]) ++ tail := by
  have hvisible : ∀ {init : List (Text × Token)} {g : Text} {z z' : Token}, row = init ++ [(g, z)] →
      z'.kind = z.kind → ∀ piece ∈ init ++ [(g, z')], piece.2.kind.isLayout = false := by
    intro init g z z' hrow hkind piece hmem
    rcases List.mem_append.mp hmem with hmem | hmem
    · exact (h.laid piece (by rw [hrow]; exact List.mem_append_left _ hmem)).2
    · rw [List.mem_singleton.mp hmem, hkind]
      exact (h.laid (g, z) (by rw [hrow]; simp)).2
  rcases h.tokenize_eq with e | ⟨init, g, z, hrow, spans, -, e⟩
  · have hne : row ≠ [] := by
      rintro rfl
      cases h
    obtain ⟨init, ⟨g, z⟩, hrow⟩ := (List.eq_nil_or_concat' row).resolve_left hne
    rw [tokenize_lineEnd hn, hrow] at e
    refine ⟨init, g, z, z, _, hrow, hvisible hrow rfl, Or.inr rfl, ?_, hrow ▸ e⟩
    exact congrArg (z.text ++ ·) (List.append_nil nl)
  · refine ⟨init, g, z, ⟨z.kind, z.text ++ nl⟩, [], hrow, hvisible hrow rfl, Or.inl rfl,
      List.append_nil _, ?_⟩
    rw [e, tokensOf_concat, List.append_nil]

/-- With another last token, a row is cut at the same places. -/
theorem cut_last {init : List (Text × Token)} {z z' z₀ : Token} {g₀ w w' : Text}
    (h : init ++ [(g, z')] = row₁ ++ (g₀, z₀) :: row₂) (hw : z'.text ++ w' = z.text ++ w) :
    ∃ z₁ row₂', init ++ [(g, z)] = row₁ ++ (g₀, z₁) :: row₂' ∧
      z₀.text ++ (spread row₂ ++ w') = z₁.text ++ (spread row₂' ++ w) := by
  rcases List.eq_nil_or_concat' row₂ with rfl | ⟨r, e, rfl⟩
  · obtain ⟨rfl, hlast⟩ := List.append_inj' h rfl
    obtain ⟨rfl, rfl⟩ : g = g₀ ∧ z' = z₀ := by simpa using hlast
    exact ⟨z, [], rfl, hw⟩
  · rw [← List.cons_append, ← List.append_assoc] at h
    obtain ⟨rfl, hlast⟩ := List.append_inj' h rfl
    obtain rfl : (g, z') = e := by simpa using hlast
    refine ⟨z₀, r ++ [(g, z)], by simp, ?_⟩
    have hspread : ∀ z : Token, spread [(g, z)] = g ++ z.text := fun z => List.append_nil _
    simp only [spread_append, hspread, List.append_assoc, hw]

/-! ## 4. Lines that stay -/

variable (h : LaidOut style x)

/-- The spot behind the tokens of a text. -/
def spotBehind (style : Style) (x : Text) : Spot :=
  (Spot.start 0 true).along style.dialect (Token.significant (tokenize style.dialect x))

include h in
/-- A text that stays is the row of its tokens. -/
theorem LaidOut.whole : ∃ t us, Token.significant (tokenize style.dialect x) = t :: us ∧
    x = spread (pieces style (.start 0 true) (t :: us)) ++ style.terminator := by
  have hreadable := h.readable
  have htext := h.text
  cases hts : Token.significant (tokenize style.dialect x) with
  | nil =>
    rw [hts] at hreadable
    cases hreadable
  | cons t us =>
    rw [hts] at htext
    exact ⟨t, us, rfl, htext⟩

include h in
/-- **The last lines of a text that stays are the row of their tokens** from where they stand, and the
    line in front of them ends right before them. -/
theorem LaidOut.drop_lines (hk : k ∈ boundaries style.dialect x)
    (hline : ∀ c ∈ (x.take k).getLast?, Text.isTerminator c = true) (hne : x.drop k ≠ []) :
    ∃ t us, Token.significant (tokenize style.dialect (x.drop k)) = t :: us ∧
      x.drop k = spread (pieces style (spotBehind style (x.take k)).afresh (t :: us)) ++
        style.terminator ∧
      (x.take k ≠ [] → gap style (spotBehind style (x.take k)) t = style.terminator ++
        Text.times style.unit ((spotBehind style (x.take k)).depthAt t.kind)) := by
  obtain ⟨hcut, hcomplete⟩ := tokenize_take_drop hk
  rcases List.eq_nil_or_concat' (tokenize style.dialect (x.take k)) with e | ⟨a, l, e⟩
  · have htake : x.take k = [] := by
      rw [← joined_tokenize style.dialect (x.take k), e]
      rfl
    have hdrop : x.drop k = x := by
      conv_rhs => rw [← List.take_append_drop k x, htake]
      rfl
    obtain ⟨t, us, hts, htext⟩ := h.whole
    rw [hdrop, htake]
    exact ⟨t, us, hts, htext, fun hnot => absurd rfl hnot⟩
  · obtain ⟨rest, hrest, hreads⟩ := hcomplete hne l (by rw [e]; simp)
    have hl : l.kind = .newline :=
      hreads.newline_of_last hrest fun c hc => hline c ((getLast?_of_tokenize e).trans hc)
    obtain ⟨init, g, z, z', tail, hrow, hvisible, htail, hlast, htokens⟩ :=
      h.readable.exists_row h.orderly.terminator
    rw [← h.text, hcut, e, List.append_assoc, List.singleton_append] at htokens
    rcases cut_tokensOf hvisible hl htokens.symm with
      ⟨row₁, g₀, z₀, row₂, g₁, g₂, hsplit, hg, ha, hb⟩ | ⟨c, hc⟩
    · obtain ⟨z₁, row₂', hsplit', hspread⟩ := cut_last hsplit hlast
      rw [← hrow] at hsplit'
      obtain ⟨front, t, us, hts, hlength, rfl, hpieces⟩ := exists_of_pieces hsplit'
      obtain ⟨rfl, hgap, hindent⟩ := gap_of_newline h.orderly hl hg
      -- the tokens in front of the cut are as many as the pieces in front of it
      have hfront : Token.significant (tokenize style.dialect (x.take k)) = row₁.map Prod.snd := by
        have hrow₁ := significant_tokensOf (d := style.dialect) fun piece hmem =>
          h.readable.laid piece (by rw [hsplit']; exact List.mem_append_left _ hmem)
        rw [e, ha, List.append_nil, significant_append, hrow₁, significant_cons, hl]
        exact List.append_nil _
      have hparts : Token.significant (tokenize style.dialect (x.take k)) ++
          Token.significant (tokenize style.dialect (x.drop k)) = front ++ t :: us := by
        rw [← significant_append, ← hcut, hts]
      obtain ⟨hfront', hus⟩ := List.append_inj hparts (by rw [hfront, List.length_map, hlength])
      refine ⟨t, us, hus, ?_, fun _ => ?_⟩
      · rw [pieces_cons] at hpieces
        obtain ⟨hpiece, hrest⟩ := List.cons.inj hpieces
        have hz₁ := congrArg Prod.snd hpiece
        dsimp only at hz₁
        rw [spotBehind, hfront', pieces_afresh, spread_cons, ← hrest, ← hz₁,
          ← joined_tokenize style.dialect (x.drop k), hb, joined_append, joined_cons, joined_append,
          joined_tokensOf, hindent, hspread]
        simp only [List.append_assoc]
      · rw [spotBehind, hfront']
        exact hgap
    · have hnil : tokenize style.dialect (x.drop k) = [] := by
        rcases htail with rfl | rfl
        · cases c <;> cases hc
        · cases c with
          | nil => exact (List.cons.inj hc).2.symm
          | cons _ c => cases c <;> cases hc
      refine absurd ?_ hne
      rw [← joined_tokenize style.dialect (x.drop k), hnil]
      rfl

include h in
/-- **Lines of a text that stays are the row of their tokens** from where they stand, and one
    terminator. -/
theorem LaidOut.span_lines (hstart : offset ∈ boundaries style.dialect x)
    (hend : offset + length ∈ boundaries style.dialect x)
    (hbegins : ∀ c ∈ (x.take offset).getLast?, Text.isTerminator c = true)
    (hends : ∃ c ∈ (x.take (offset + length)).getLast?, Text.isTerminator c = true)
    (hne : Token.significant (tokenize style.dialect (spanOf x offset length)) ≠ []) :
    spanOf x offset length = spread (pieces style (spotBehind style (x.take offset)).afresh
      (Token.significant (tokenize style.dialect (spanOf x offset length)))) ++ style.terminator := by
  obtain ⟨hregion, -⟩ := tokenize_region hstart hend
  have hregion' := congrArg Token.significant hregion
  rw [significant_append] at hregion'
  obtain ⟨t, us, hspan⟩ := List.exists_cons_of_ne_nil hne
  have hdrop : x.drop offset ≠ [] := by
    intro hnil
    rw [spanOf, hnil, List.take_nil] at hne
    exact hne rfl
  obtain ⟨t', us', hrest, htext, -⟩ := h.drop_lines hstart hbegins hdrop
  rw [hrest] at hregion'
  rw [hregion', hspan] at htext
  by_cases hnil : x.drop (offset + length) = []
  · rw [← spanOf_append x offset length, hnil, List.append_nil, tokenize_nil] at htext
    rw [hspan]
    exact htext.trans (by rw [Token.significant, List.filter_nil, List.append_nil])
  · obtain ⟨c, hc, hterminator⟩ := hends
    have htake : x.take (offset + length) ≠ [] := by
      intro e
      rw [e] at hc
      cases hc
    obtain ⟨u, vs, hbehind, hafter, hgap⟩ := h.drop_lines hend
      (fun c' hc' => Option.some.inj (hc.symm.trans hc') ▸ hterminator) hnil
    -- behind the region the row goes on from where the region ends
    have hspot : spotBehind style (x.take (offset + length)) =
        (spotBehind style (x.take offset)).afresh.along style.dialect (t :: us) := by
      have htokens : tokenize style.dialect (x.take (offset + length)) =
          tokenize style.dialect (x.take offset) ++
            tokenize style.dialect (spanOf x offset length) := by
        have hcut := (tokenize_take_drop hstart).1
        rw [hregion, ← List.append_assoc, (tokenize_take_drop hend).1] at hcut
        exact List.append_cancel_right hcut
      rw [spotBehind, htokens, significant_append, hspan, Spot.along, List.foldl_append]
      rfl
    have hbreak : spread (pieces style (spotBehind style (x.take (offset + length))) (u :: vs)) ++
        style.terminator = style.terminator ++ x.drop (offset + length) := by
      rw [hafter, pieces_cons, spread_cons, pieces_afresh, spread_cons, hgap htake]
      simp only [List.append_assoc]
    rw [hbehind, pieces_append, ← hspot, spread_append, List.append_assoc, hbreak,
      ← spanOf_append x offset length, ← List.append_assoc] at htext
    rw [hspan]
    exact List.append_cancel_right htext

end RebecaLayout
