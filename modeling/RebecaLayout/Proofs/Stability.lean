import RebecaLayout.Proofs.Evidence
import RebecaLayout.Proofs.LastPass

/-!
When a second pass changes nothing, if each pass takes unit and terminator from the text before it.

* `depthsFrom` -- how deep tokens stand; `deep_or_flat` -- either a line of the layout stands at
  depth one, and so shows the unit, or no token stands deeper than the margin;
* `pieces_unit` -- in the second case the unit does not matter, so **a second pass never disagrees
  with the first about indents**;
* `legible_welded` -- what is read back can be laid out;
* `formatSource_stable_iff` -- a layout is stable exactly if the first terminator that stands in it
  is that of the text, and welding does not change it.
-/

namespace RebecaLayout

variable {α : Type} {style : Style} {d : Dialect} {t : Token} {ts us : List Token} {x : Text}
  {m : Bool}

/-! ## 1. Depths -/

/-- The depths at which tokens stand, with `depth` open braces before them. -/
def depthsFrom : Nat → List Token → List Nat
  | _, [] => []
  | depth, t :: ts =>
    let here := if t.kind == .rightBrace then depth - 1 else depth
    here :: depthsFrom (if t.kind == .leftBrace then depth + 1 else here) ts

theorem depthsFrom_cons (dialect : Dialect) (p : Spot) (t : Token) (ts : List Token) :
    depthsFrom p.depth (t :: ts) =
      p.depthAt t.kind :: depthsFrom (p.after dialect t).depth ts := rfl

/-- **Either a line stands at depth one, or every token stands at the margin**: what follows an
    opening brace opens a line. -/
theorem deep_or_flat (dialect : Dialect) (ts : List Token) (p : Spot)
    (hp : p.depth = 0 ∨ (p.depth = 1 ∧ p.lineStart = true)) :
    1 ∈ lineDepths dialect p ts ∨ ∀ n ∈ depthsFrom p.depth ts, n = 0 := by
  induction ts generalizing p with
  | nil => exact Or.inr (by simp [depthsFrom])
  | cons t ts ih =>
    rw [lineDepths, depthsFrom_cons dialect]
    by_cases hzero : p.depthAt t.kind = 0
    · have hnext : (p.after dialect t).depth = 0 ∨
          ((p.after dialect t).depth = 1 ∧ (p.after dialect t).lineStart = true) := by
        by_cases hbrace : t.kind = .leftBrace
        · have hdepth : p.depth = 0 := by
            rw [hbrace] at hzero
            exact hzero
          refine Or.inr ⟨?_, by simp [Spot.after, hbrace]⟩
          simp [Spot.after, hbrace, hdepth]
        · refine Or.inl ?_
          simp [Spot.after, hbrace, hzero]
      rcases ih (p.after dialect t) hnext with hone | hflat
      · exact Or.inl (List.mem_append_right _ hone)
      · exact Or.inr (List.forall_mem_cons.mpr ⟨hzero, hflat⟩)
    · left
      rcases hp with hdepth | ⟨hdepth, hline⟩
      · refine absurd ?_ hzero
        unfold Spot.depthAt
        split <;> omega
      · have hopens : p.opensLine dialect t = true := by
          simp [Spot.opensLine, Spot.broken, hline]
        have hone : p.depthAt t.kind = 1 := by
          unfold Spot.depthAt at hzero ⊢
          split <;> rename_i hk
          · rw [if_pos hk, hdepth] at hzero
            exact absurd rfl hzero
          · exact hdepth
        rw [hopens, if_pos rfl, hone]
        exact List.mem_append_left _ List.mem_cons_self

theorem written_margin (style : Style) (unit : Text) (t : Token) :
    written { style with unit } 0 t = written style 0 t := by
  have hline : furtherLine { style with unit } 0 = furtherLine style 0 := by
    funext line
    simp only [furtherLine, times_zero]
  unfold written body commentLines
  rw [hline]

/-- At the margin the unit does not matter. -/
theorem pieces_unit (style : Style) (unit : Text) (ts : List Token) (p : Spot)
    (h : ∀ n ∈ depthsFrom p.depth ts, n = 0) :
    pieces { style with unit } p ts = pieces style p ts := by
  induction ts generalizing p with
  | nil => rfl
  | cons t ts ih =>
    rw [depthsFrom_cons style.dialect] at h
    obtain ⟨hzero, hrest⟩ := List.forall_mem_cons.mp h
    have hgap : gap { style with unit } p t = gap style p t := by
      simp only [gap, hzero, times_zero]
      rfl
    rw [pieces_cons, pieces_cons, hgap, hzero, written_margin, ih _ hrest]

/-! ## 2. Welded tokens -/

/-- Welding moves no token. -/
theorem depthsFrom_weldOnto {a : α × Token} (hm : m = true → a.2.kind.isUnquoted = true)
    (l : List (α × Token)) (depth : Nat) : ∀ n ∈ depthsFrom depth ((weldOnto d a m l).map Prod.snd),
      n ∈ depthsFrom depth (a.2 :: l.map Prod.snd) := by
  induction l generalizing a m depth with
  | nil => exact fun n hn => hn
  | cons b l ih =>
    intro n hn
    rw [weldOnto] at hn
    cases hj : a.2.joinsTo m b.2 with
    | false =>
      rw [hj, if_neg Bool.false_ne_true, List.map_cons] at hn
      rcases List.mem_cons.mp hn with rfl | hn
      · exact List.mem_cons_self
      · exact List.mem_cons_of_mem _ (ih (by simp) _ n hn)
    | true =>
      obtain ⟨ha, hb⟩ := joinsTo_kinds hm hj
      -- none of the three is a brace
      have hword : ∀ {t : Token} {ts : List Token}, t.kind.isUnquoted = true ∨ t.kind = .other →
          depthsFrom depth (t :: ts) = depth :: depthsFrom depth ts := by
        intro t ts ht
        rcases ht with ht | ht
        · rcases isUnquoted_cases ht with hk | hk | hk <;> simp [depthsFrom, hk]
        · simp [depthsFrom, ht]
      have hb' : b.2.kind.isUnquoted = true ∨ b.2.kind = .other := by
        rcases hb with hb | ⟨-, hb⟩
        · exact Or.inr (extendsWord_kind hb)
        · exact Or.inl hb
      rw [hj, if_pos rfl] at hn
      have hmem := ih (fun _ => fused_isUnquoted d _ _) depth n hn
      rw [hword (Or.inl (fused_isUnquoted d _ _))] at hmem
      rw [List.map_cons, hword (Or.inl ha), hword hb']
      exact List.mem_cons_of_mem _ hmem

theorem depthsFrom_welded (d : Dialect) (ts : List Token) (depth : Nat) :
    ∀ n ∈ depthsFrom depth (welded d ts), n ∈ depthsFrom depth ts := by
  cases ts with
  | nil => exact fun n hn => hn
  | cons t ts =>
    intro n hn
    have hmem := depthsFrom_weldOnto (by simp) (ts.map fun t => ((), t)) depth n hn
    rwa [map_snd_bare] at hmem

/-- A word that grows stands in the place of the word. -/
theorem Legible.fused {u : Token} (h : Legible d (t :: u :: ts))
    (hm : m = true → t.kind.isUnquoted = true) (hj : t.joinsTo m u = true) :
    Legible d (t.fused d u :: ts) := by
  obtain ⟨ht, hu⟩ := joinsTo_kinds hm hj
  obtain ⟨-, r, hreads⟩ := h.head
  obtain ⟨-, r', hreads'⟩ := h.tail.head
  have hfused : ∀ {rest : Text}, (∀ c ∈ rest.head?, isWordChar c = false) →
      Reads d (t.fused d u) rest :=
    fun hrest => hreads.fused ht (hreads'.wordChars (hu.imp_right And.right)) hrest
  have hv : (t.fused d u).kind.isLayout = false := by
    rcases isUnquoted_cases (fused_isUnquoted d t u) with hk | hk | hk <;> rw [hk] <;> rfl
  cases ts with
  | nil =>
    have hend : Reads d (t.fused d u) [] := hfused (by simp)
    exact .last hv hend
  | cons w ts =>
    have hspace : ∀ c ∈ [' '].head?, isWordChar c = false := by
      intro c hc
      rw [← Option.some.inj hc]
      exact not_wordChar_of_layoutChar rfl
    exact .cons hv ⟨[' '], by simp, hfused hspace⟩ h.tail.tail

theorem legible_weldOnto {a : α × Token} (hm : m = true → a.2.kind.isUnquoted = true)
    {l : List (α × Token)} (h : Legible d (a.2 :: l.map Prod.snd)) :
    Legible d ((weldOnto d a m l).map Prod.snd) := by
  induction l generalizing a m with
  | nil => exact h
  | cons b l ih =>
    rw [weldOnto]
    cases hj : a.2.joinsTo m b.2 with
    | true =>
      rw [if_pos rfl]
      exact ih (fun _ => fused_isUnquoted d _ _) (h.fused hm hj)
    | false =>
      have htail : Legible d ((weldOnto d b false l).map Prod.snd) := ih (by simp) h.tail
      obtain ⟨z, row, e, -⟩ := weldOnto_head d b false l
      rw [if_neg Bool.false_ne_true, List.map_cons, e, List.map_cons]
      rw [e, List.map_cons] at htail
      cases h with
      | cons visible complete _ => exact .cons visible complete htail

/-- **What is read back can be laid out.** -/
theorem legible_welded (h : Legible d ts) : Legible d (welded d ts) := by
  cases ts with
  | nil => exact .nil
  | cons t ts => exact legible_weldOnto (by simp) (by rw [map_snd_bare]; exact h)

theorem Legible.significant_eq (h : Legible d ts) : Token.significant ts = ts := by
  induction h with
  | nil => rfl
  | last visible _ => rw [significant_cons, visible, if_neg Bool.false_ne_true]; rfl
  | cons visible _ _ ih => rw [significant_cons, visible, if_neg Bool.false_ne_true, ih]

theorem welded_ne_nil (d : Dialect) (hne : ts ≠ []) : welded d ts ≠ [] := by
  cases ts with
  | nil => exact absurd rfl hne
  | cons t ts =>
    obtain ⟨z, row, e, -⟩ := weldOnto_head d ((), t) false (ts.map fun t => ((), t))
    rw [welded, List.map_cons, weldAll, e]
    simp

/-! ## 3. Two passes -/

theorem trimEnd_finished (ho : style.Orderly) (h : Legible d ts) (hne : ts ≠ []) (p : Spot) :
    Text.trimEnd Text.isLayoutChar (finished style (rendered style p ts)) =
      spread (pieces style p ts) := by
  rw [finished_rendered ho h hne, Text.trimEnd_append_of_all ho.terminator.layout,
    ← (trimEnd_rendered ho h hne p).1, Text.trimEnd_trimEnd]

/-- Layouts are equal if and only if what is written and the last terminators are. -/
theorem finished_eq_iff {style' : Style} {d' : Dialect} (ho : style.Orderly) (ho' : style'.Orderly)
    (ht : Legible d ts) (hu : Legible d' us) (hts : ts ≠ []) (hus : us ≠ []) (p : Spot) :
    finished style (rendered style p ts) = finished style' (rendered style' p us) ↔
      spread (pieces style p ts) = spread (pieces style' p us) ∧
        style.terminator = style'.terminator := by
  constructor
  · intro h
    have hspread : spread (pieces style p ts) = spread (pieces style' p us) := by
      rw [← trimEnd_finished ho ht hts, ← trimEnd_finished ho' hu hus, h]
    rw [finished_rendered ho ht hts, finished_rendered ho' hu hus, hspread] at h
    exact ⟨hspread, List.append_cancel_left h⟩
  · rintro ⟨hspread, hend⟩
    rw [finished_rendered ho ht hts, finished_rendered ho' hu hus, hspread, hend]

/-- **The unit found in a layout lays out what is read back as the unit of the layout does.** -/
theorem pieces_detectUnit (ho : style.Orderly)
    (hu : style.unit = ['\t'] ∨ ∃ k, style.unit = List.replicate (k + 1) ' ')
    (h : Legible style.dialect ts) (hne : ts ≠ []) :
    pieces { style with unit := detectUnit (finished style (rendered style (.start 0 true) ts)) }
        (.start 0 true) (welded style.dialect ts) =
      pieces style (.start 0 true) (welded style.dialect ts) := by
  rcases deep_or_flat style.dialect ts (.start 0 true) (Or.inl rfl) with hone | hflat
  · rw [detectUnit_layout ho hu h hne hone]
  · exact pieces_unit style _ _ _ fun n hn => hflat n (depthsFrom_welded _ _ _ n hn)

theorem detected_orderly (d : Dialect) (x : Text) : (Style.resolve d none none x).Orderly :=
  resolve_orderly (by simp) (by simp) d x

theorem formatSource_detected (d : Dialect) (hx : Text.isVoid x = false) :
    formatSource d none none x = .ok (finished (.resolve d none none x)
      (rendered (.resolve d none none x) (.start 0 true) (Token.significant (tokenize d x)))) :=
  formatSource_eq_finished (by simp) (by simp) d hx

/-- A second pass lays out the welded tokens. -/
theorem formatSource_again {out : Text} (hx : Text.isVoid x = false)
    (h : formatSource d none none x = .ok out) : formatSource d none none out =
      .ok (finished (.resolve d none none out) (rendered (.resolve d none none out) (.start 0 true)
        (welded d (Token.significant (tokenize d x))))) := by
  have hvoid := isVoid_of_shown (shown_of_formatSource (by simp) (by simp) h) hx
  rw [formatSource_detected d hvoid]
  exact congrArg Except.ok (finished_congr (detected_orderly d out) (legible_significant d out)
    (legible_welded (legible_significant d x)) (significant_ne_nil d hvoid)
    (stream_of_formatSource (by simp) (by simp) hx h) (.start 0 true))

/-- With the terminator of the text, the style that a layout shows lays out the welded tokens as the
    style of the text does. -/
theorem pieces_again {out : Text} (hx : Text.isVoid x = false)
    (h : formatSource d none none x = .ok out)
    (hend : detectTerminator ['\n'] out = detectTerminator ['\n'] x) :
    pieces (.resolve d none none out) (.start 0 true) (welded d (Token.significant (tokenize d x))) =
      pieces (.resolve d none none x) (.start 0 true)
        (welded d (Token.significant (tokenize d x))) := by
  have hout := Except.ok.inj (h.symm.trans (formatSource_detected d hx))
  have hstyle : Style.resolve d none none out =
      { Style.resolve d none none x with unit := detectUnit out } :=
    congrArg (Style.mk d (detectUnit out)) hend
  rw [hstyle, hout]
  exact pieces_detectUnit (detected_orderly d x) (detectUnit_cases x) (legible_significant d x)
    (significant_ne_nil d hx)

/-- The second pass of a text that shows something, beside the first. -/
theorem formatSource_again_iff {out : Text} (hx : Text.isVoid x = false)
    (h : formatSource d none none x = .ok out) :
    formatSource d none none out = .ok out ↔
      detectTerminator ['\n'] out = detectTerminator ['\n'] x ∧
        layout (.resolve d none none x) 0 true (welded d (Token.significant (tokenize d x))) =
          .ok out := by
  have ho := detected_orderly d x
  have hlegible := legible_significant d x
  have hwelded := legible_welded hlegible
  have hne := significant_ne_nil d hx
  have hne' := welded_ne_nil d hne
  have hlayout := layout_rendered ho (hwelded.significant_eq.symm ▸ hwelded) 0 true
  rw [hwelded.significant_eq] at hlayout
  have hsecond :=
    finished_eq_iff (detected_orderly d out) ho hwelded hlegible hne' hne (.start 0 true)
  have hfirst := finished_eq_iff ho ho hwelded hlegible hne' hne (.start 0 true)
  have hout := Except.ok.inj (h.symm.trans (formatSource_detected d hx))
  rw [← hout] at hsecond hfirst
  rw [formatSource_again hx h, hlayout, Except.ok.injEq, Except.ok.injEq, hsecond, hfirst]
  constructor
  · rintro ⟨hspread, hend⟩
    rw [pieces_again hx h hend] at hspread
    exact ⟨hend, hspread, rfl⟩
  · rintro ⟨hend, hspread, -⟩
    rw [pieces_again hx h hend]
    exact ⟨hspread, hend⟩

theorem layout_significant (ho : style.Orderly) (d : Dialect) (x : Text) (depth : Nat)
    (lineStart : Bool) : layout style depth lineStart (Token.significant (tokenize d x)) =
      layout style depth lineStart (tokenize d x) := by
  have hlegible := legible_significant d x
  have hsignificant := hlegible.significant_eq
  rw [layout_rendered ho hlegible, layout_rendered ho (hsignificant.symm ▸ hlegible), hsignificant]

/-- **When a second pass changes nothing**, each pass taking unit and terminator from the text before
    it. A text that shows nothing stays. Otherwise the layout is stable if and only if the first
    terminator that stands in it is that of the text, and the text is laid out the same once the
    tokens that weld are welded. Where no two tokens weld, the terminators alone decide: the unit is
    always found again. -/
theorem formatSource_stable_iff (d : Dialect) (x : Text) :
    ∃ out, formatSource d none none x = .ok out ∧
      (formatSource d none none out = .ok out ↔ Text.isVoid x = true ∨
        (detectTerminator ['\n'] out = detectTerminator ['\n'] x ∧
          layout (.resolve d none none x) 0 true (welded d (Token.significant (tokenize d x))) =
            .ok out)) ∧
      (WeldFree (Token.significant (tokenize d x)) → (formatSource d none none out = .ok out ↔
        detectTerminator ['\n'] out = detectTerminator ['\n'] x)) := by
  cases hx : Text.isVoid x with
  | true =>
    have hstay : formatSource d none none x = .ok x := by
      rw [formatSource, hx, if_pos rfl]
    exact ⟨x, hstay, by simp [hstay], fun _ => by simp [hstay]⟩
  | false =>
    have h := formatSource_detected d hx
    refine ⟨_, h, ?_, fun hfree => ?_⟩
    · rw [formatSource_again_iff hx h]
      simp
    · have hsame : layout (.resolve d none none x) 0 true
          (welded d (Token.significant (tokenize d x))) = formatSource d none none x := by
        rw [welded_of_weldFree hfree, layout_significant (detected_orderly d x), formatSource, hx,
          if_neg Bool.false_ne_true]
      rw [formatSource_again_iff hx h, hsame, h]
      simp

/-- Two layouts that are not stable. The first terminator of a layout may be that of a literal: the
    line feed is gone, and a second pass ends lines as the string does. And a superscript two stands
    close to a string, but a word that ends with it does not. -/
theorem formatSource_unstable :
    (formatSource .rebeca none none "x\n\"a\r\nb\"".toList = .ok "x \"a\r\nb\"\n".toList ∧
      formatSource .rebeca none none "x \"a\r\nb\"\n".toList =
        .ok "x \"a\r\nb\"\r\n".toList) ∧
    formatSource .rebeca none none "x \u00B2\"a\"".toList = .ok "x\u00B2\"a\"\n".toList ∧
      formatSource .rebeca none none "x\u00B2\"a\"\n".toList = .ok "x\u00B2 \"a\"\n".toList := by
  decide +kernel

end RebecaLayout
