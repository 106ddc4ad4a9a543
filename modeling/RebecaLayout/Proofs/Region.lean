import RebecaLayout.Proofs.Boundary
import RebecaLayout.Proofs.Evidence

/-!
The layout of a region, put back into its text.

* `replacement` -- the row of the tokens of a region, and the end of its last line if none follows;
  `formatRegion_at`, `formatRegion_eq` -- this is what a region that shows something becomes, and it
  never fails; `formatRegion_outside` -- a region that leaves its text does;
* `stream_replacement` -- **behind a region nothing changes**: its replacement and what follows are
  read as the region and what follows;
* `stream_resume` -- in front of it only the last token can change;
* `stream_formatRegion_lineStart` -- so **a region that begins with a line keeps the program**.
-/

namespace RebecaLayout

variable {style : Style} {d : Dialect} {l : Token} {a b : List Token} {x y : Text}
  {offset length : Nat} {unit? terminator? : Option Text}

/-! ## 1. The replacement -/

/-- What ends the last line of a region, unless its end follows already. -/
def lineEnding (style : Style) (span following : Text) : Text :=
  if lineEndFollows span following then [] else style.terminator

/-- The replacement of a region whose first line stands at depth `depth`. -/
def replacement (style : Style) (depth : Nat) (x : Text) (offset length : Nat) : Text :=
  spread (pieces style (.start depth ((x.take offset).getLast?.all Text.isTerminator))
      (Token.significant (tokenize style.dialect (spanOf x offset length)))) ++
    lineEnding style (spanOf x offset length) (x.drop (offset + length))

theorem lastLineStart_beq (t : Text) :
    (Text.lastLineStart t == t.length) = t.getLast?.all Text.isTerminator := by
  rcases List.eq_nil_or_concat' t with rfl | ⟨init, c, rfl⟩
  · rfl
  · rw [List.getLast?_concat, Option.all_some, Text.lastLineStart, List.reverse_append]
    cases hc : Text.isTerminator c with
    | true => simp [hc]
    | false =>
      simp [hc]
      omega

theorem withoutEnding_append (t ending : Text) : withoutEnding ending (t ++ ending) = t := by
  have hsuffix : ending.isSuffixOf (t ++ ending) = true :=
    List.isSuffixOf_iff_suffix.mpr (List.suffix_append t ending)
  rw [withoutEnding, if_pos hsuffix, List.length_append, Nat.add_sub_cancel, List.take_left]

/-- A terminator that follows already is taken back. -/
theorem append_lineEnding (t : Text) (style : Style) (span following : Text) :
    (if lineEndFollows span following then withoutEnding style.terminator (t ++ style.terminator)
      else t ++ style.terminator) = t ++ lineEnding style span following := by
  unfold lineEnding
  split
  · rw [withoutEnding_append, List.append_nil]
  · rfl

theorem exists_depthIn {unit : Text} (h : unit ≠ []) (lead : Text) :
    ∃ n, depthIn lead unit = .ok n := by
  unfold depthIn
  split
  · exact ⟨_, rfl⟩
  · rw [if_neg (by simpa using h)]
    exact ⟨_, rfl⟩

/-- A unit that is not given is not empty either. -/
theorem resolve_unit_ne_nil (hu : ∀ u ∈ unit?, u ≠ []) (d : Dialect) (terminator? : Option Text)
    (x : Text) : (Style.resolve d unit? terminator? x).unit ≠ [] := by
  cases unit? with
  | some u => exact hu u rfl
  | none =>
    change detectUnit x ≠ []
    rcases detectUnit_cases x with e | ⟨k, e⟩ <;> rw [e] <;> simp

/-- The replacement of a region, if the lead of its first line that shows something amounts to
    `depth`. A region that holds only white space stays. -/
theorem formatRegion_at (hu : ∀ u ∈ unit?, ∀ c ∈ u, Text.isBlank c = true)
    (hn : ∀ nl ∈ terminator?, LineEnd nl) (d : Dialect) (hin : offset + length ≤ x.length)
    {depth : Nat} (hdepth : depthIn (firstLead (x.drop (Text.lastLineStart (x.take offset))))
      (Style.resolve d unit? terminator? x).unit = .ok depth) :
    formatRegion d unit? terminator? x offset length =
      .ok (if Text.isVoid (spanOf x offset length) then spanOf x offset length
        else replacement (.resolve d unit? terminator? x) depth x offset length) := by
  have ho := resolve_orderly hu hn d x
  have hbounds : ¬ ((decide ((offset : Int) < 0) || decide ((length : Int) < 0) ||
      decide ((x.length : Int) < offset + length)) = true) := by
    simp only [Bool.or_eq_true, decide_eq_true_eq]
    omega
  have hstart : ((offset : Int)).toNat = offset := rfl
  have hlength : ((length : Int)).toNat = length := rfl
  have hend : ((offset : Int) + length).toNat = offset + length := by omega
  unfold formatRegion
  rw [if_neg hbounds]
  simp only [hstart, hlength, hend]
  change (if Text.isVoid (spanOf x offset length) = true then _ else _) = _
  cases hvoid : Text.isVoid (spanOf x offset length) with
  | true => rfl
  | false =>
    have hlegible := legible_significant d (spanOf x offset length)
    have hlayout :=
      layout_rendered ho hlegible depth ((x.take offset).getLast?.all Text.isTerminator)
    rw [finished_rendered ho hlegible (significant_ne_nil d hvoid)] at hlayout
    rw [if_neg Bool.false_ne_true, if_neg Bool.false_ne_true, hdepth, lastLineStart_beq]
    change (do let laid ← layout _ depth _ (tokenize d (spanOf x offset length)); _) = _
    rw [hlayout]
    exact congrArg Except.ok (append_lineEnding _ _ _ _)

/-- **The replacement of a region.** A region within the text never fails, and one that holds only
    white space stays. -/
theorem formatRegion_eq (hu : ∀ u ∈ unit?, u ≠ [] ∧ ∀ c ∈ u, Text.isBlank c = true)
    (hn : ∀ nl ∈ terminator?, LineEnd nl) (d : Dialect) (hin : offset + length ≤ x.length) :
    ∃ depth, formatRegion d unit? terminator? x offset length =
      .ok (if Text.isVoid (spanOf x offset length) then spanOf x offset length
        else replacement (.resolve d unit? terminator? x) depth x offset length) := by
  have hunit := resolve_unit_ne_nil (fun u h => (hu u h).1) d terminator? x
  obtain ⟨depth, hdepth⟩ :=
    exists_depthIn hunit (firstLead (x.drop (Text.lastLineStart (x.take offset))))
  exact ⟨depth, formatRegion_at (fun u h => (hu u h).2) hn d hin hdepth⟩

/-- The region leaves the text. -/
def Outside (x : Text) (offset length : Int) : Prop :=
  offset < 0 ∨ length < 0 ∨ x.length < offset + length

instance (x : Text) (offset length : Int) : Decidable (Outside x offset length) :=
  inferInstanceAs (Decidable (_ ∨ _))

/-- A region that leaves its text fails. -/
theorem formatRegion_outside (d : Dialect) (unit? terminator? : Option Text) {offset length : Int}
    (h : Outside x offset length) : formatRegion d unit? terminator? x offset length =
      .error (.ofRegion offset length x.length) := by
  have hbounds : (decide (offset < 0) || decide (length < 0) ||
      decide ((x.length : Int) < offset + length)) = true := by
    simpa [Outside, or_assoc] using h
  unfold formatRegion
  rw [if_pos hbounds]

/-- Any other region is laid out. -/
theorem formatRegion_inside (hu : ∀ u ∈ unit?, u ≠ [] ∧ ∀ c ∈ u, Text.isBlank c = true)
    (hn : ∀ nl ∈ terminator?, LineEnd nl) (d : Dialect) {offset length : Int}
    (h : ¬ Outside x offset length) :
    ∃ out, formatRegion d unit? terminator? x offset length = .ok out := by
  unfold Outside at h
  obtain ⟨o, rfl⟩ := Int.eq_ofNat_of_zero_le (show 0 ≤ offset by omega)
  obtain ⟨n, rfl⟩ := Int.eq_ofNat_of_zero_le (show 0 ≤ length by omega)
  obtain ⟨depth, hout⟩ := formatRegion_eq hu hn d (show o + n ≤ x.length by omega)
  exact ⟨_, hout⟩

/-! ## 2. Behind a region -/

theorem lineEnding_atLineEnd (ho : style.Orderly) (span following : Text) :
    AtLineEnd (lineEnding style span following ++ following) := by
  unfold lineEnding
  split
  · next hfollows =>
    have hall := (Bool.and_eq_true_iff.mp hfollows).2
    intro c hc
    rw [List.nil_append] at hc
    rw [hc] at hall
    exact hall
  · exact ho.terminator.atLineEnd following

theorem lineEnding_layout (ho : style.Orderly) (span following : Text) :
    ∀ c ∈ lineEnding style span following, Text.isLayoutChar c = true := by
  unfold lineEnding
  split
  · intro c hc
    cases hc
  · exact ho.terminator.layout

/-- **Behind a region nothing changes**: if nothing in it welds, its replacement and what follows are
    read as the region and what follows. -/
theorem stream_replacement (ho : style.Orderly) (hstart : offset ∈ boundaries style.dialect x)
    (hend : offset + length ∈ boundaries style.dialect x)
    (hvoid : Text.isVoid (spanOf x offset length) = false)
    (hfree : WeldFree (Token.significant (tokenize style.dialect (spanOf x offset length))))
    (depth : Nat) :
    stream style.dialect (replacement style depth x offset length ++ x.drop (offset + length)) =
      stream style.dialect (x.drop offset) := by
  obtain ⟨hcut, hcomplete⟩ := tokenize_region hstart hend
  have hne := significant_ne_nil style.dialect hvoid
  have hclosed : Closes style.dialect
      (lineEnding style (spanOf x offset length) (x.drop (offset + length)) ++
        x.drop (offset + length))
      (Token.significant (tokenize style.dialect (spanOf x offset length))) := by
    by_cases hnil : x.drop (offset + length) = []
    · refine Or.inl ?_
      rw [hnil, List.append_nil]
      exact lineEnding_layout ho _ _
    · refine Or.inr fun t ht => hcomplete hnil t ?_
      exact (List.mem_filter.mp (List.mem_of_mem_getLast? ht)).1
  rw [replacement, List.append_assoc, stream, stream, hcut, significant_append, List.map_append,
    cores_spread ho (lineEnding_atLineEnd ho _ _) (legible_significant _ _) hclosed hne,
    welded_of_weldFree hfree, significant_layout_append (lineEnding_layout ho _ _)]

/-! ## 3. In front of a region -/

theorem spliced_span (x : Text) (offset length : Nat) :
    spliced x offset length (spanOf x offset length) = x := by
  rw [spliced, List.append_assoc, spanOf_append, List.take_append_drop]

/-- A text with something else behind the token `l`, up to the end of the region. -/
theorem spliced_eq {out : Text} (h : tokenize d (x.take offset) = a ++ [l]) :
    spliced x offset length out =
      Token.joined a ++ (l.text ++ (out ++ x.drop (offset + length))) := by
  rw [spliced, eq_of_tokenize_concat h]
  simp only [List.append_assoc]

/-- **In front of what is replaced, only the last token can change**: if it is layout or is read as
    before, so is everything. -/
theorem stream_resume (h : tokenize d x = a ++ l :: b) (hy : l.text = ['-'] → y.head? ≠ some '>')
    (hl : l.kind.isLayout = true ∨ Reads d l y)
    (hb : stream d y = (Token.significant b).map Token.core) :
    stream d (Token.joined a ++ (l.text ++ y)) = stream d x := by
  have hrest : (Token.significant (tokenize d (l.text ++ y))).map Token.core =
      (Token.significant (l :: b)).map Token.core := by
    rw [significant_cons]
    cases hlayout : l.kind.isLayout with
    | true =>
      obtain ⟨rest, hreads⟩ := exists_reads_of_append h
      rw [significant_layout_append (hreads.layout hlayout), if_pos rfl]
      exact hb
    | false =>
      have hreads : Reads d l y := hl.resolve_left (by simp [hlayout])
      rw [tokenize_append hreads, significant_cons, hlayout, if_neg Bool.false_ne_true,
        if_neg Bool.false_ne_true, List.map_cons, List.map_cons]
      exact congrArg (l.core :: ·) hb
  rw [stream, stream, tokenize_resume h hy, h, significant_append, significant_append,
    List.map_append, List.map_append, hrest]

/-- The last token of a text ends as the text does. -/
theorem getLast?_of_tokenize (h : tokenize d x = a ++ [l]) : x.getLast? = l.text.getLast? := by
  obtain ⟨rest, hreads⟩ := exists_reads_of_append h
  rw [eq_of_tokenize_concat h, List.getLast?_append_of_ne_nil _ hreads.text_ne_nil]

/-- The token in front of a region that shows something is not open. -/
theorem complete_of_region (hstart : offset ∈ boundaries d x)
    (hvoid : Text.isVoid (spanOf x offset length) = false)
    (h : tokenize d (x.take offset) = a ++ [l]) : Complete d l := by
  refine (tokenize_take_drop hstart).2 (fun hnil => ?_) l ?_
  · rw [spanOf, hnil, List.take_nil] at hvoid
    cases hvoid
  · rw [h]
    exact List.mem_append_right _ List.mem_cons_self

/-- **A replacement that is read as the region keeps the program** if the token in front of it is
    layout or is read in front of it. -/
theorem stream_spliced {out : Text} (hstart : offset ∈ boundaries d x)
    (hy : stream d (out ++ x.drop (offset + length)) = stream d (x.drop offset))
    (hl : ∀ a l, tokenize d (x.take offset) = a ++ [l] →
      (l.text = ['-'] → (out ++ x.drop (offset + length)).head? ≠ some '>') ∧
        (l.kind.isLayout = true ∨ Reads d l (out ++ x.drop (offset + length)))) :
    stream d (spliced x offset length out) = stream d x := by
  have hcut := (tokenize_take_drop hstart).1
  rcases List.eq_nil_or_concat' (tokenize d (x.take offset)) with e | ⟨a, l, e⟩
  · have hbefore : x.take offset = [] := by
      rw [← joined_tokenize d (x.take offset), e]
      rfl
    rw [e] at hcut
    rw [spliced, List.append_assoc, hbefore, stream, stream, hcut]
    exact hy
  · obtain ⟨hsign, hreads⟩ := hl a l e
    rw [e, List.append_assoc] at hcut
    rw [spliced_eq e]
    exact stream_resume hcut hsign hreads hy

/-! ## 4. Regions that begin with a line -/

/-- **A region that begins with a line keeps the program**: between two boundaries, in any dialect
    and with any unit of blanks and any terminator, given or taken from the text, the region is laid
    out, and the text has the same stream with the layout in its place, if no identifier, keyword or
    number in the region is followed by a character that continues words and is a token of its own. -/
theorem stream_formatRegion_lineStart (d : Dialect) (unit? terminator? : Option Text) (x : Text)
    (offset length : Nat) (hu : ∀ u ∈ unit?, u ≠ [] ∧ ∀ c ∈ u, Text.isBlank c = true)
    (hn : ∀ nl ∈ terminator?, LineEnd nl) (hstart : offset ∈ boundaries d x)
    (hend : offset + length ∈ boundaries d x)
    (hline : ∀ c ∈ (x.take offset).getLast?, Text.isTerminator c = true)
    (hfree : WeldFree (Token.significant (tokenize d (spanOf x offset length)))) :
    ∃ out, formatRegion d unit? terminator? x offset length = .ok out ∧
      stream d (spliced x offset length out) = stream d x := by
  obtain ⟨depth, hout⟩ := formatRegion_eq hu hn d (le_of_mem_boundaries hend)
  refine ⟨_, hout, ?_⟩
  cases hvoid : Text.isVoid (spanOf x offset length) with
  | true => rw [if_pos rfl, spliced_span]
  | false =>
    rw [if_neg Bool.false_ne_true]
    have ho := resolve_orderly (fun u h => (hu u h).2) hn d x
    have hy := stream_replacement ho hstart hend hvoid hfree depth
    refine stream_spliced hstart hy fun a l e => ?_
    -- what ends with a terminator in front of something is a terminator
    obtain ⟨rest, hrest, hreads⟩ := complete_of_region hstart hvoid e
    obtain ⟨c, hc⟩ := Option.ne_none_iff_exists'.mp
      (List.getLast?_eq_none_iff.not.mpr hreads.text_ne_nil)
    have hterminator : Text.isTerminator c = true :=
      hline c ((getLast?_of_tokenize e).trans hc)
    refine ⟨fun hminus => ?_, Or.inl ?_⟩
    · rw [hminus] at hc
      obtain rfl : '-' = c := Option.some.inj hc
      cases hterminator
    · cases hlayout : l.kind.isLayout with
      | true => rfl
      | false =>
        rw [hreads.last_not_terminator hlayout hrest c hc] at hterminator
        cases hterminator

/-- The line between two braces, with unit and terminator taken from the text. -/
theorem stream_formatRegion_lineStart_body :
    (∀ u ∈ (none : Option Text), u ≠ [] ∧ ∀ c ∈ u, Text.isBlank c = true) ∧
    (∀ nl ∈ (none : Option Text), LineEnd nl) ∧
    4 ∈ boundaries .rebeca "m\x7b\r\n  x=- -y;// c\r\n\x7d".toList ∧
    4 + 15 ∈ boundaries .rebeca "m\x7b\r\n  x=- -y;// c\r\n\x7d".toList ∧
    (∀ c ∈ ("m\x7b\r\n  x=- -y;// c\r\n\x7d".toList.take 4).getLast?, Text.isTerminator c = true) ∧
    WeldFree (Token.significant
      (tokenize .rebeca (spanOf "m\x7b\r\n  x=- -y;// c\r\n\x7d".toList 4 15))) ∧
    ∃ out, formatRegion .rebeca none none "m\x7b\r\n  x=- -y;// c\r\n\x7d".toList 4 15 = .ok out ∧
      stream .rebeca (spliced "m\x7b\r\n  x=- -y;// c\r\n\x7d".toList 4 15 out) =
        stream .rebeca "m\x7b\r\n  x=- -y;// c\r\n\x7d".toList := by
  have hu : ∀ u ∈ (none : Option Text), u ≠ [] ∧ ∀ c ∈ u, Text.isBlank c = true := by simp
  have hn : ∀ nl ∈ (none : Option Text), LineEnd nl := by simp
  have hstart : 4 ∈ boundaries .rebeca "m\x7b\r\n  x=- -y;// c\r\n\x7d".toList := by decide +kernel
  have hend : 4 + 15 ∈ boundaries .rebeca "m\x7b\r\n  x=- -y;// c\r\n\x7d".toList := by
    decide +kernel
  have hline : ∀ c ∈ ("m\x7b\r\n  x=- -y;// c\r\n\x7d".toList.take 4).getLast?,
      Text.isTerminator c = true := by
    intro c hc
    rw [← Option.some.inj hc]
    rfl
  have hfree : WeldFree (Token.significant
      (tokenize .rebeca (spanOf "m\x7b\r\n  x=- -y;// c\r\n\x7d".toList 4 15))) := by
    decide +kernel
  exact ⟨hu, hn, hstart, hend, hline, hfree,
    stream_formatRegion_lineStart .rebeca none none _ 4 15 hu hn hstart hend hline hfree⟩

end RebecaLayout
