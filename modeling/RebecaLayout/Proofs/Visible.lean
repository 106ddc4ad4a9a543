import RebecaLayout.Proofs.Rendering

/-!
**Layout keeps every visible character in its place.** All that is written beside the tokens is
layout, and all that is trimmed is white space.

* `shown_body` -- a token shows the same after it is written, a comment on several lines too;
* `shown_rendered` -- so do tokens in a row;
* `formatSource_shown` -- and so does a whole text.
-/

namespace RebecaLayout

variable {style : Style}

/-! ## 1. Lines -/

/-- Cutting a text into lines loses only terminators. -/
theorem shown_splitLines (x : Text) : (Text.splitLines x).flatMap Text.shown = Text.shown x := by
  have hterminator : ∀ {c : Char}, Text.isTerminator c = true → Text.shown [c] = [] := by
    intro c hc
    refine Text.shown_layout fun y hy => ?_
    rw [List.mem_singleton.mp hy]
    exact Text.isLayoutChar_of_isTerminator hc
  fun_induction Text.splitLines x with
  | case1 => rfl
  | case2 rest ih =>
    rw [List.flatMap_cons, ih, Text.shown_nil, List.nil_append]
    exact (Text.shown_append ['\r', '\n'] rest).symm
  | case3 c rest _ hc ih =>
    rw [List.flatMap_cons, ih, Text.shown_nil, List.nil_append, ← List.singleton_append,
      Text.shown_append, hterminator hc, List.nil_append]
  | case4 c rest _ hc ih =>
    obtain ⟨first, further, e⟩ := Text.exists_splitLines rest
    rw [e] at ih ⊢
    rw [List.flatMap_cons] at ih
    rw [Text.consFirst, List.flatMap_cons, ← List.singleton_append, Text.shown_append,
      List.append_assoc, ih, ← Text.shown_append, List.singleton_append]

/-- Lines that layout joins show what they show one by one. -/
theorem shown_intercalate {nl : Text} (h : LineEnd nl) : ∀ lines : List Text,
    Text.shown (nl.intercalate lines) = lines.flatMap Text.shown
  | [] => rfl
  | first :: further => by
    have hjoined : ∀ further : List Text, Text.shown (further.flatMap (nl ++ ·)) =
        further.flatMap Text.shown := by
      intro further
      induction further with
      | nil => rfl
      | cons line further ih =>
        rw [List.flatMap_cons, List.flatMap_cons, Text.shown_append, Text.shown_append, ih,
          Text.shown_layout h.layout, List.nil_append]
    rw [Text.intercalate_cons, Text.shown_append, hjoined, List.flatMap_cons]

/-! ## 2. Tokens -/

theorem isSpace_of_isBlank (c : Char) (h : Text.isBlank c = true) : Text.isSpace c = true :=
  Text.isSpace_of_isLayoutChar (Text.isLayoutChar_of_isBlank h)

theorem shown_furtherLine (ho : style.Orderly) (depth : Nat) (line : Text) :
    Text.shown (furtherLine style depth line) = Text.shown line := by
  have hcontent : Text.shown (Text.trim Text.isBlank line) = Text.shown line :=
    Text.shown_trim isSpace_of_isBlank line
  unfold furtherLine
  dsimp only
  split
  · rename_i hnil
    rw [← hcontent, List.isEmpty_iff.mp hnil]
  · have hindent : Text.shown (Text.times style.unit depth) = [] :=
      Text.shown_of_all fun c hc => isSpace_of_isBlank c (ho.blank_indent depth c hc)
    have hstar : Text.shown (if (Text.trim Text.isBlank line).head? == some '*' then [' '] else []) =
        [] := by
      split <;> rfl
    rw [Text.shown_append, Text.shown_append, hindent, hstar, hcontent]
    rfl

/-- **A token shows the same after it is written.** -/
theorem shown_body (ho : style.Orderly) (depth : Nat) (t : Token) :
    Text.shown (body style depth t) = Text.shown t.text := by
  unfold body
  split
  · exact Text.shown_trimEnd (fun _ h => h) t.text
  · rw [shown_intercalate ho.terminator, ← shown_splitLines t.text]
    unfold commentLines
    split
    · rename_i e
      rw [e]
    · rename_i first further e
      rw [e, List.flatMap_cons, List.flatMap_cons, Text.shown_trimEnd isSpace_of_isBlank,
        List.flatMap_map]
      simp only [shown_furtherLine ho]
  · rfl

theorem shown_rendered (ho : style.Orderly) (ts : List Token) (p : Spot) :
    Text.shown (rendered style p ts) = Text.shown (Token.joined ts) := by
  induction ts generalizing p with
  | nil => rfl
  | cons t ts ih =>
    have hjoined : Token.joined (t :: ts) = t.text ++ Token.joined ts := rfl
    rw [rendered_cons, Text.shown_append, Text.shown_append, Text.shown_layout (gap_layout ho p t),
      shown_body ho, ih, hjoined, Text.shown_append, List.nil_append]

/-- The tokens of a text that are layout show nothing. -/
theorem shown_significant (d : Dialect) (x : Text) :
    Text.shown (Token.joined (Token.significant (tokenize d x))) = Text.shown x := by
  induction x using text_induction d with
  | nil => rfl
  | step t rest h ih =>
    rw [significant_tokenize_append h, Text.shown_append]
    cases hl : t.kind.isLayout with
    | true =>
      rw [if_pos rfl, ih, Text.shown_layout (h.layout hl), List.nil_append]
    | false =>
      have hjoined : Token.joined (t :: Token.significant (tokenize d rest)) =
          t.text ++ Token.joined (Token.significant (tokenize d rest)) := rfl
      rw [if_neg Bool.false_ne_true, hjoined, Text.shown_append, ih]

/-! ## 3. Whole texts -/

theorem shown_finished (ho : style.Orderly) (x : Text) :
    Text.shown (finished style x) = Text.shown x := by
  have htrim : Text.shown (Text.trimEnd Text.isLayoutChar x) = Text.shown x :=
    Text.shown_trimEnd (fun _ h => Text.isSpace_of_isLayoutChar h) x
  unfold finished
  dsimp only
  split
  · exact htrim
  · rw [Text.shown_append, Text.shown_layout ho.terminator.layout, List.append_nil, htrim]

/-- What a layout shows. -/
theorem shown_of_formatSource {d : Dialect} {unit? terminator? : Option Text} {x out : Text}
    (hu : ∀ u ∈ unit?, ∀ c ∈ u, Text.isBlank c = true) (hn : ∀ nl ∈ terminator?, LineEnd nl)
    (h : formatSource d unit? terminator? x = .ok out) : Text.shown out = Text.shown x := by
  have ho := resolve_orderly hu hn d x
  rw [formatSource_rendered hu hn d x] at h
  rw [← Except.ok.inj h]
  split
  · rfl
  · rw [shown_finished ho, shown_rendered ho, shown_significant]

theorem shown_withoutEnding {ending : Text} (h : ∀ c ∈ ending, Text.isLayoutChar c = true)
    (x : Text) : Text.shown (withoutEnding ending x) = Text.shown x := by
  unfold withoutEnding
  split
  · rename_i hsuffix
    obtain ⟨front, rfl⟩ := List.isSuffixOf_iff_suffix.mp hsuffix
    rw [List.length_append, Nat.add_sub_cancel, List.take_left, Text.shown_append,
      Text.shown_layout h, List.append_nil]
  · rfl

/-- What the replacement of a region shows. -/
theorem shown_of_formatRegion {d : Dialect} {unit? terminator? : Option Text} {x out : Text}
    {offset length : Int} (hu : ∀ u ∈ unit?, ∀ c ∈ u, Text.isBlank c = true)
    (hn : ∀ nl ∈ terminator?, LineEnd nl)
    (h : formatRegion d unit? terminator? x offset length = .ok out) :
    Text.shown out = Text.shown ((x.drop offset.toNat).take length.toNat) := by
  have ho := resolve_orderly hu hn d x
  unfold formatRegion at h
  split at h
  · cases h
  dsimp only at h
  split at h
  · cases h
    rfl
  cases hdepth : depthIn (firstLead (x.drop (Text.lastLineStart (x.take offset.toNat))))
      (Style.resolve d unit? terminator? x).unit with
  | error cause =>
    rw [hdepth] at h
    cases h
  | ok depth =>
    rw [hdepth] at h
    dsimp only [bind, Except.bind] at h
    rw [layout_rendered ho (legible_significant d _)] at h
    cases h
    split
    · rw [shown_withoutEnding ho.terminator.layout, shown_finished ho, shown_rendered ho,
        shown_significant]
    · rw [shown_finished ho, shown_rendered ho, shown_significant]

/-- **No visible character is lost, doubled, altered or moved**: in any dialect, with any unit of
    blanks and any terminator, given or taken from the text, the layout of a text shows what the
    text shows. -/
theorem formatSource_shown (d : Dialect) (unit? terminator? : Option Text)
    (hu : ∀ u ∈ unit?, ∀ c ∈ u, Text.isBlank c = true) (hn : ∀ nl ∈ terminator?, LineEnd nl)
    (x : Text) :
    ∃ out, formatSource d unit? terminator? x = .ok out ∧ Text.shown out = Text.shown x :=
  ⟨_, formatSource_rendered hu hn d x, shown_of_formatSource hu hn (formatSource_rendered hu hn d x)⟩

/-- A comment on two lines and a literal that is never closed, indented with two spaces. -/
theorem formatSource_shown_comment :
    (∀ u ∈ some "  ".toList, ∀ c ∈ u, Text.isBlank c = true) ∧
    (∀ nl ∈ some ['\r', '\n'], LineEnd nl) ∧
    ∃ out, formatSource .rebeca (some "  ".toList) (some ['\r', '\n'])
        "if(a)\x7b/* b\n  * c */ d;\x7d else \"e \n".toList = .ok out ∧
      Text.shown out = "if(a)\x7b/*b*c*/d;\x7delse\"e".toList := by
  have hblank : "  ".toList.all Text.isBlank = true := by decide
  have hu : ∀ u ∈ some "  ".toList, ∀ c ∈ u, Text.isBlank c = true := by
    intro u hu
    rw [← Option.some.inj hu]
    exact List.all_eq_true.mp hblank
  have hn : ∀ nl ∈ some ['\r', '\n'], LineEnd nl := by
    rintro _ ⟨⟩
    exact .returnFeed
  exact ⟨hu, hn, formatSource_shown .rebeca _ _ hu hn _⟩

end RebecaLayout
