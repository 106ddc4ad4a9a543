import RebecaLayout.Proofs.Region
import RebecaLayout.Proofs.Settings

/-!
What the layout of a text and of a region end in.

* `formatRegion_whole` -- the whole text as a region is laid out as the text is, but for a terminator
  that the text does not end with;
* `Secure` -- all that is looked up during a layout is there: a width of the unit, a character of each
  token, a first line of each comment, a character of each piece;
* `formatRegion_error_iff` -- so **a layout fails for nothing but a region that leaves its text**. What
  is reported then is the region, unless its numbers have too many digits.
-/

namespace RebecaLayout

/-! ## 1. The whole text as a region -/

theorem spanOf_whole (x : Text) : spanOf x 0 x.length = x := by
  rw [spanOf, List.drop_zero, List.take_length]

/-- The whole text as a region is the row of its tokens, and ends with a terminator if the text
    does. -/
theorem replacement_whole (style : Style) (depth : Nat) (x : Text) :
    replacement style depth x 0 x.length =
      spread (pieces style (.start depth true) (Token.significant (tokenize style.dialect x))) ++
        if x.getLast?.any Text.isTerminator then style.terminator else [] := by
  have hfollows : lineEndFollows x [] = !x.getLast?.any Text.isTerminator := Bool.and_true _
  rw [replacement, spanOf_whole, Nat.zero_add, List.drop_length, lineEnding, hfollows]
  cases x.getLast?.any Text.isTerminator <;> rfl

/-- A row does not end with layout. -/
theorem spread_last {style : Style} (ho : style.Orderly) {d : Dialect} {ts : List Token}
    (h : Legible d ts) (hne : ts ≠ []) (p : Spot) :
    ∀ c ∈ (spread (pieces style p ts)).getLast?, Text.isLayoutChar c = false := by
  rw [← (trimEnd_rendered ho h hne p).1]
  exact Text.trimEnd_last _ _

/-- **The whole text as a region is laid out as the text is**, in any dialect and with any unit of
    blanks and any terminator, given or taken from the text, if the lead of its first line that is
    not blank amounts to no depth. Only a terminator that ends the layout and not the text is left
    out. -/
theorem formatRegion_whole (d : Dialect) (unit? terminator? : Option Text) (x : Text)
    (hu : ∀ u ∈ unit?, ∀ c ∈ u, Text.isBlank c = true) (hn : ∀ nl ∈ terminator?, LineEnd nl)
    (hdepth : depthIn (firstLead x) (Style.resolve d unit? terminator? x).unit = .ok 0) :
    ∃ out, formatSource d unit? terminator? x = .ok out ∧
      ((Text.isVoid x = true ∨ x.getLast?.any Text.isTerminator = true) →
        formatRegion d unit? terminator? x 0 x.length = .ok out) ∧
      (¬ (Text.isVoid x = true ∨ x.getLast?.any Text.isTerminator = true) →
        ∃ text, out = text ++ (Style.resolve d unit? terminator? x).terminator ∧
          (∀ c ∈ text.getLast?, Text.isTerminator c = false) ∧
          formatRegion d unit? terminator? x 0 x.length = .ok text) := by
  have hinside : 0 + x.length ≤ x.length := (Nat.zero_add _).le
  have hregion := formatRegion_at hu hn d hinside hdepth
  rw [spanOf_whole, replacement_whole] at hregion
  cases hvoid : Text.isVoid x with
  | true =>
    rw [hvoid, if_pos rfl] at hregion
    refine ⟨x, ?_, fun _ => hregion, fun hn => absurd (Or.inl rfl) hn⟩
    rw [formatSource, hvoid, if_pos rfl]
  | false =>
    rw [hvoid, if_neg Bool.false_ne_true] at hregion
    refine ⟨_, formatSource_spread hu hn d hvoid, fun h => ?_, fun h => ⟨_, rfl, ?_, ?_⟩⟩
    · rw [if_pos (h.resolve_left Bool.false_ne_true)] at hregion
      exact hregion
    · have hlast := spread_last (resolve_orderly hu hn d x) (legible_significant d x)
        (significant_ne_nil d hvoid) (.start 0 true)
      exact fun c hc => (Bool.or_eq_false_iff.mp (hlast c hc)).2
    · rw [if_neg fun e => h (Or.inr e), List.append_nil] at hregion
      exact hregion

/-- Three spaces are no tab, the lines end with carriage returns, and the literal is never closed. -/
theorem formatRegion_whole_open_literal :
    (∀ u ∈ some ['\t'], ∀ c ∈ u, Text.isBlank c = true) ∧
    (∀ nl ∈ (none : Option Text), LineEnd nl) ∧
    depthIn (firstLead " \r   x\x7by=-1;\r\x7d\"a".toList) (Style.resolve .rebeca (some ['\t']) none
      " \r   x\x7by=-1;\r\x7d\"a".toList).unit = .ok 0 ∧
    ∃ text, formatSource .rebeca (some ['\t']) none " \r   x\x7by=-1;\r\x7d\"a".toList =
        .ok (text ++ ['\r']) ∧
      formatRegion .rebeca (some ['\t']) none " \r   x\x7by=-1;\r\x7d\"a".toList 0 16 = .ok text := by
  have hu : ∀ u ∈ some ['\t'], ∀ c ∈ u, Text.isBlank c = true := by simp [Text.isBlank]
  have hn : ∀ nl ∈ (none : Option Text), LineEnd nl := by simp
  have hdepth : depthIn (firstLead " \r   x\x7by=-1;\r\x7d\"a".toList)
      (Style.resolve .rebeca (some ['\t']) none " \r   x\x7by=-1;\r\x7d\"a".toList).unit = .ok 0 := by
    decide +kernel
  have hlength : (" \r   x\x7by=-1;\r\x7d\"a".toList.length : Int) = 16 := by decide +kernel
  obtain ⟨out, hout, -, hcut⟩ := formatRegion_whole .rebeca (some ['\t']) none _ hu hn hdepth
  obtain ⟨text, rfl, -, hregion⟩ := hcut (by decide +kernel)
  rw [hlength] at hregion
  exact ⟨hu, hn, hdepth, text, hout, hregion⟩

/-! ## 2. What is looked up is there -/

/-- All that is looked up during a layout is there. -/
structure Secure (style : Style) : Prop where
  /-- A depth is measured in units of some width. -/
  unit : style.unit ≠ []
  /-- A token has a first and a last character. -/
  token : ∀ (x : Text), ∀ t ∈ tokenize style.dialect x, t.text ≠ []
  /-- A comment has a first line. -/
  line : ∀ comment : Text, Text.splitLines comment ≠ []
  /-- A piece of the output has a last character. -/
  output : ∀ depth lineStart ts,
    layout style depth lineStart ts = layoutVia SolidPieces style depth lineStart ts

theorem secure_of_unit {style : Style} (h : style.unit ≠ []) : Secure style where
  unit := h
  token x t ht := by
    obtain ⟨rest, hreads⟩ := exists_reads_of_mem ht
    exact hreads.text_ne_nil
  line := Text.splitLines_ne_nil
  output := layoutVia_hom SolidPieces.toPieces style

/-! ## 3. Regions -/

/-- **A layout fails for nothing but a region that leaves its text**, in any dialect, with any unit
    that a setting can name and any terminator, given or taken from the text. The failure holds the
    region and the size of the text, unless one of their numbers has too many digits to be written.
    A whole text never fails, and nothing is looked up in vain. -/
theorem formatRegion_error_iff (machine : Machine) (d : Dialect) (unit? terminator? : Option Text)
    (x : Text) (offset length : Int) (hu : ∀ u ∈ unit?, ∃ v, readIndent machine v = .ok u)
    (hn : ∀ nl ∈ terminator?, LineEnd nl) :
    (∀ cause, formatRegion d unit? terminator? x offset length = .error cause ↔
      Outside x offset length ∧ cause = if isReportable offset length x.length then
        .outOfBounds offset length x.length else .unwritable) ∧
    (¬ Outside x offset length →
      ∃ out, formatRegion d unit? terminator? x offset length = .ok out) ∧
    (∃ out, formatSource d unit? terminator? x = .ok out) ∧
    Secure (.resolve d unit? terminator? x) := by
  have hunit : ∀ u ∈ unit?, u ≠ [] ∧ ∀ c ∈ u, Text.isBlank c = true := by
    intro u hmem
    obtain ⟨v, hv⟩ := hu u hmem
    exact ⟨ne_nil_of_unit (readIndent_unit hv), blank_of_unit (readIndent_unit hv)⟩
  have hinside : ¬ Outside x offset length →
      ∃ out, formatRegion d unit? terminator? x offset length = .ok out :=
    formatRegion_inside hunit hn d
  refine ⟨fun cause => ⟨fun h => ?_, fun h => ?_⟩, hinside, ?_, ?_⟩
  · by_cases hout : Outside x offset length
    · rw [formatRegion_outside d unit? terminator? hout] at h
      exact ⟨hout, (Except.error.inj h).symm⟩
    · obtain ⟨out, hok⟩ := hinside hout
      rw [hok] at h
      cases h
  · rw [formatRegion_outside d unit? terminator? h.1, h.2]
    rfl
  · exact ⟨_, formatSource_rendered (fun u hmem => (hunit u hmem).2) hn d x⟩
  · exact secure_of_unit (resolve_unit_ne_nil (fun u hmem => (hunit u hmem).1) d terminator? x)

/-- A region in front of the text is reported, and all of the text is laid out. -/
theorem formatRegion_error_iff_front :
    (∀ u ∈ some [' ', ' '], ∃ v, readIndent .small v = .ok u) ∧ (∀ nl ∈ some ['\r'], LineEnd nl) ∧
    formatRegion .rebeca (some [' ', ' ']) (some ['\r']) "x\x7b- -\"".toList (-1) 2 =
      .error (.outOfBounds (-1) 2 6) ∧
    ∃ out, formatRegion .rebeca (some [' ', ' ']) (some ['\r']) "x\x7b- -\"".toList 0 6 = .ok out := by
  have hu : ∀ u ∈ some [' ', ' '], ∃ v, readIndent .small v = .ok u := by
    intro u hmem
    exact ⟨.int 2, Option.some.inj hmem ▸ rfl⟩
  have hn : ∀ nl ∈ some ['\r'], LineEnd nl := by
    intro nl hmem
    exact Option.some.inj hmem ▸ .carriageReturn
  have hfront := formatRegion_error_iff .small .rebeca (some [' ', ' ']) (some ['\r'])
    "x\x7b- -\"".toList (-1) 2 hu hn
  have hwhole := formatRegion_error_iff .small .rebeca (some [' ', ' ']) (some ['\r'])
    "x\x7b- -\"".toList 0 6 hu hn
  exact ⟨hu, hn, (hfront.1 _).mpr ⟨by decide, by decide +kernel⟩, hwhole.2.1 (by decide)⟩

/-- **A region that leaves its text is not always reported**: here the number of its end has one digit
    more than can be written. -/
theorem formatRegion_unreported :
    Outside [] (leastUnwritable - 1 : Nat) 1 ∧
    formatRegion .rebeca none none [] (leastUnwritable - 1 : Nat) 1 = .error .unwritable := by
  have houtside : Outside [] (leastUnwritable - 1 : Nat) 1 := by decide +kernel
  refine ⟨houtside, ?_⟩
  rw [formatRegion_outside .rebeca none none houtside]
  decide +kernel

end RebecaLayout
