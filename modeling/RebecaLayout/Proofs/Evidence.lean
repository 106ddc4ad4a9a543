import RebecaLayout.Indent.Detect
import RebecaLayout.Proofs.Reread

/-!
What a text shows of its unit, token by token. A line gives evidence if it begins outside comments
and literals and holds more than blanks; its lead is then what stands between the terminator before
it and its first token.

* `leadsFrom` -- the leads that a row of tokens shows;
* `leads_codeLinesIn` -- **these are the leads of the lines that detection looks at**;
* `detectUnit_eq` -- so the unit of a text depends on its tokens, in whatever dialect;
* `lineDepths`, `leads_layout` -- the leads of a layout are the unit, as often as its lines are deep;
* `detectUnit_layout` -- **so the unit of a layout is found again**, if a line stands at depth one.
-/

namespace RebecaLayout

variable {style : Style} {d : Dialect} {t : Token} {ts : List Token} {rest : Text}

/-! ## 1. Leads of tokens -/

/-- What stands in a line up to the end of a token, if it is only blanks and the line begins outside
    comments and literals. `start?` is the same up to the token. -/
def leadAfter (start? : Option Text) (t : Token) : Option Text :=
  match t.kind with
  | .newline => some []
  | .whitespace => start?.map (· ++ t.text)
  | _ => none

/-- The leads that tokens show. -/
def leadsFrom : Option Text → List Token → List Text
  | _, [] => []
  | start?, t :: ts =>
    (if t.kind.isLayout then [] else start?.toList) ++ leadsFrom (leadAfter start? t) ts

theorem leadAfter_visible (hv : t.kind.isLayout = false) (start? : Option Text) :
    leadAfter start? t = none := by
  unfold leadAfter
  split
  · next hk =>
    rw [hk] at hv
    cases hv
  · next hk =>
    rw [hk] at hv
    cases hv
  · rfl

theorem leadsFrom_visible (hv : t.kind.isLayout = false) (start? : Option Text) (ts : List Token) :
    leadsFrom start? (t :: ts) = start?.toList ++ leadsFrom none ts := by
  rw [leadsFrom, leadAfter_visible hv, hv, if_neg Bool.false_ne_true]

theorem leadsFrom_layout (hl : t.kind.isLayout = true) (start? : Option Text) (ts : List Token) :
    leadsFrom start? (t :: ts) = leadsFrom (leadAfter start? t) ts := by
  rw [leadsFrom, hl, if_pos rfl, List.nil_append]

/-! ## 2. Lines within tokens -/

theorem lt_of_mem_linesWithin (ts : List Token) (line i : Nat) (h : i ∈ linesWithin line ts) :
    line < i := by
  induction ts generalizing line with
  | nil => cases h
  | cons t ts ih =>
    rw [linesWithin] at h
    split at h
    · exact Nat.lt_of_succ_lt (ih (line + 1) h)
    · split at h
      · rcases List.mem_append.mp h with h | h
        · exact (List.mem_range'_1.mp h).1
        · exact Nat.lt_of_le_of_lt (Nat.le_add_right _ _) (ih _ h)
      · exact ih line h

theorem not_mem_linesWithin (ts : List Token) (line : Nat) : line ∉ linesWithin line ts :=
  fun h => Nat.lt_irrefl line (lt_of_mem_linesWithin ts line line h)

/-- A token that spans no lines stands in one. -/
theorem Reads.oneLine (h : Reads d t rest) (hv : t.kind.isLayout = false)
    (hs : t.kind.spansLines = false) : Text.OneLine t.text := by
  have hsolid : ∀ {x : Text}, (∀ c ∈ x, isWordChar c = true) → Text.OneLine x := by
    intro x hx c hc
    exact (Bool.or_eq_false_iff.mp (not_layoutChar_of_wordChar (hx c hc))).2
  cases h with
  | blanks => cases hv
  | lineEnd => cases hv
  | lineComment oneLine _ =>
    intro c hc
    rcases List.mem_cons.mp hc with rfl | hc
    · rfl
    · rcases List.mem_cons.mp hc with rfl | hc
      · rfl
      · exact oneLine c hc
  | blockComment => cases hs
  | literal opens _ => rcases literalKind?_cases opens with ⟨-, rfl⟩ | ⟨-, rfl⟩ <;> cases hs
  | word start all _ => exact hsolid (List.forall_mem_cons.mpr ⟨isWordChar_of_start start, all⟩)
  | number start all _ => exact hsolid (List.forall_mem_cons.mpr ⟨isWordChar_of_digit start, all⟩)
  | mark isMark =>
    intro c hc
    rw [List.mem_singleton.mp hc]
    exact (Bool.or_eq_false_iff.mp (punctuation_start isMark).1).2
  | operator longest _ =>
    have hall : ∀ op ∈ operators, op.all (fun c => !Text.isTerminator c) = true := by decide
    intro c hc
    simpa using List.all_eq_true.mp (hall _ (operatorAt?_spec longest).1) c hc
  | stray hstray =>
    intro c hc
    rw [List.mem_singleton.mp hc]
    simp only [isStray, Bool.and_eq_true, Bool.not_eq_true'] at hstray
    exact (Bool.or_eq_false_iff.mp hstray.1.1.1.1.1).2

/-- The lines within a token are all but its first. -/
theorem linesWithin_visible (h : Reads d t rest) (hv : t.kind.isLayout = false) (line : Nat)
    (ts : List Token) : linesWithin line (t :: ts) =
      List.range' (line + 1) ((Text.splitLines t.text).length - 1) ++
        linesWithin (line + ((Text.splitLines t.text).length - 1)) ts := by
  have hline : (t.kind == .newline) = false := by
    rw [beq_eq_false_iff_ne]
    intro e
    rw [e] at hv
    cases hv
  rw [linesWithin, hline, if_neg Bool.false_ne_true]
  cases hs : t.kind.spansLines with
  | true => rfl
  | false =>
    rw [Text.splitLines_oneLine (h.oneLine hv hs)]
    rfl

/-- What may span lines is closed if something follows it. -/
theorem Reads.last_of_spansLines (h : Reads d t rest) (hs : t.kind.spansLines = true)
    (hrest : rest ≠ []) : ∀ c ∈ t.text.getLast?, Text.isLayoutChar c = false := by
  intro c hlast
  rcases h.comment_or_literal hs with ⟨x, rfl, reach⟩ | ⟨quote, kind, x, opens, rfl, reach⟩
  · rcases throughClose_cases reach with ⟨y, rfl, -⟩ | ⟨hnil, -⟩
    · rw [List.getLast?_cons, List.getLast?_cons, List.getLast?_append] at hlast
      obtain rfl : '/' = c := Option.some.inj hlast
      rfl
    · exact absurd hnil hrest
  · rcases throughQuote_cases reach with ⟨-, hquote⟩ | ⟨hnil, -⟩
    · rw [List.getLast?_cons, hquote] at hlast
      obtain rfl : quote = c := Option.some.inj hlast
      rcases literalKind?_cases opens with ⟨rfl, -⟩ | ⟨rfl, -⟩ <;> rfl
    · exact absurd hnil hrest

/-- A token that something follows does not end with a terminator. -/
theorem Reads.last_not_terminator (h : Reads d t rest) (hv : t.kind.isLayout = false)
    (hrest : rest ≠ []) : ∀ c ∈ t.text.getLast?, Text.isTerminator c = false := by
  intro c hlast
  cases hs : t.kind.spansLines with
  | false => exact h.oneLine hv hs c (List.mem_of_mem_getLast? hlast)
  | true => exact (Bool.or_eq_false_iff.mp (h.last_of_spansLines hs hrest c hlast)).2

theorem Reads.last_not_return (h : Reads d t rest) (hv : t.kind.isLayout = false) :
    t.text.getLast? = some '\r' → rest.head? ≠ some '\n' := by
  rintro hlast hhead
  have hnot := h.last_not_terminator hv (by rintro rfl; cases hhead) '\r' hlast
  cases hnot

/-! ## 3. Leads of lines -/

/-- The leads of lines, the first of them numbered `line`, without those numbered in `within`. -/
def leadsOutside (within : List Nat) (line : Nat) (lines : List Text) : List Text :=
  ((lines.zipIdx line).filter fun l => !within.contains l.2).filterMap fun l => Text.lead? l.1

theorem leadsOutside_skip {within : List Nat} {line : Nat} (h : line ∈ within) (first : Text)
    (lines : List Text) :
    leadsOutside within line (first :: lines) = leadsOutside within (line + 1) lines := by
  unfold leadsOutside
  rw [List.zipIdx_cons, List.filter_cons_of_neg (by simpa using h)]

theorem leadsOutside_keep {within : List Nat} {line : Nat} (h : line ∉ within) (first : Text)
    (lines : List Text) : leadsOutside within line (first :: lines) =
      (Text.lead? first).toList ++ leadsOutside within (line + 1) lines := by
  unfold leadsOutside
  rw [List.zipIdx_cons, List.filter_cons_of_pos (by simpa using h), List.filterMap_cons]
  cases Text.lead? first <;> rfl

theorem leadsOutside_congr {within within' : List Nat} (lines : List Text) (line : Nat)
    (h : ∀ i, line ≤ i → (i ∈ within ↔ i ∈ within')) :
    leadsOutside within line lines = leadsOutside within' line lines := by
  induction lines generalizing line with
  | nil => rfl
  | cons first lines ih =>
    have hrest := ih (line + 1) fun i hi => h i (by omega)
    by_cases hm : line ∈ within
    · rw [leadsOutside_skip hm, leadsOutside_skip ((h line le_rfl).mp hm), hrest]
    · rw [leadsOutside_keep hm, leadsOutside_keep (mt (h line le_rfl).mpr hm), hrest]

/-- Lines that all begin within a token show nothing. -/
theorem leadsOutside_range (within : List Nat) (skipped lines : List Text) (line : Nat) :
    leadsOutside (List.range' line skipped.length ++ within) line (skipped ++ lines) =
      leadsOutside within (line + skipped.length) lines := by
  induction skipped generalizing line with
  | nil => rfl
  | cons first skipped ih =>
    have hmem : line ∈ List.range' line (skipped.length + 1) ++ within :=
      List.mem_append_left _ (List.mem_range'_1.mpr ⟨le_rfl, by omega⟩)
    have hrest : ∀ i, line + 1 ≤ i → (i ∈ List.range' line (skipped.length + 1) ++ within ↔
        i ∈ List.range' (line + 1) skipped.length ++ within) := by
      intro i hi
      rw [List.mem_append, List.mem_append, List.mem_range'_1, List.mem_range'_1]
      exact or_congr_left (by omega)
    rw [List.length_cons, List.cons_append, leadsOutside_skip hmem, leadsOutside_congr _ _ hrest, ih]
    congr 1
    omega

theorem lead?_blank {b : Text} (h : ∀ c ∈ b, Text.isBlank c = true) : Text.lead? b = none := by
  unfold Text.lead?
  rw [if_pos (List.all_eq_true.mpr h)]

theorem lead?_append {b : Text} (h : ∀ c ∈ b, Text.isBlank c = true) {c : Char}
    (hc : Text.isBlank c = false) (x : Text) : Text.lead? (b ++ c :: x) = some b := by
  unfold Text.lead?
  rw [if_neg (by simp [hc]), takeWhile_append_stop h (by simpa using hc)]

/-- **What the tokens of a text show is what its lines show**: those behind the first, and the first
    as well if only blanks stand before it. -/
def ShowsLeads (d : Dialect) (x : Text) : Prop :=
  ∀ (line : Nat) (first : Text) (further : List Text), Text.splitLines x = first :: further →
    leadsFrom none (tokenize d x) =
        leadsOutside (linesWithin line (tokenize d x)) (line + 1) further ∧
      ∀ b : Text, (∀ c ∈ b, Text.isBlank c = true) → leadsFrom (some b) (tokenize d x) =
        (Text.lead? (b ++ first)).toList ++
          leadsOutside (linesWithin line (tokenize d x)) (line + 1) further

namespace ShowsLeads

/-- Blanks lengthen what stands before the first token of the line. -/
theorem blanks (ih : ShowsLeads d rest) (h : Reads d t rest) (hk : t.kind = .whitespace)
    (hall : ∀ c ∈ t.text, Text.isBlank c = true) : ShowsLeads d (t.text ++ rest) := by
  intro line first further e
  obtain ⟨next, later, hrest⟩ := Text.exists_splitLines rest
  have hone : Text.OneLine t.text := by
    intro c hc
    rcases Text.isBlank_iff.mp (hall c hc) with rfl | rfl <;> rfl
  have hv : t.kind.isLayout = true := by rw [hk]; rfl
  have hwithin : linesWithin line (t :: tokenize d rest) = linesWithin line (tokenize d rest) := by
    simp [linesWithin, hk, Kind.spansLines]
  rw [Text.splitLines_append hone hrest] at e
  obtain ⟨rfl, rfl⟩ := List.cons.inj e
  obtain ⟨hnone, hsome⟩ := ih line next later hrest
  rw [tokenize_append h, hwithin]
  simp only [leadsFrom_layout hv, leadAfter, hk]
  refine ⟨hnone, fun b hb => ?_⟩
  rw [← List.append_assoc]
  refine hsome (b ++ t.text) fun c hc => ?_
  exact (List.mem_append.mp hc).elim (hb c) (hall c)

/-- A terminator begins a line. -/
theorem lineEnd (ih : ShowsLeads d rest) (h : Reads d t rest) (hk : t.kind = .newline)
    (hnl : LineEnd t.text) (whole : t.text = ['\r'] → rest.head? ≠ some '\n') :
    ShowsLeads d (t.text ++ rest) := by
  intro line first further e
  obtain ⟨next, later, hrest⟩ := Text.exists_splitLines rest
  have hv : t.kind.isLayout = true := by rw [hk]; rfl
  have hwithin : linesWithin line (t :: tokenize d rest) =
      linesWithin (line + 1) (tokenize d rest) := by
    simp [linesWithin, hk]
  rw [Text.splitLines_lineEnd hnl whole, hrest] at e
  obtain ⟨rfl, rfl⟩ := List.cons.inj e
  have hsome := (ih (line + 1) next later hrest).2 [] (by simp)
  rw [tokenize_append h, hwithin, leadsOutside_keep (not_mem_linesWithin _ _)]
  simp only [leadsFrom_layout hv, leadAfter, hk]
  refine ⟨hsome, fun b hb => ?_⟩
  rw [List.append_nil, lead?_blank hb]
  exact hsome

/-- Any other token ends what stands before it, and the lines within it show nothing. -/
theorem visible (ih : ShowsLeads d rest) (h : Reads d t rest) (hv : t.kind.isLayout = false) :
    ShowsLeads d (t.text ++ rest) := by
  intro line first further e
  obtain ⟨next, later, hrest⟩ := Text.exists_splitLines rest
  obtain ⟨init, last, hlines⟩ := Text.exists_lastLine t.text
  have hall := Text.splitLines_append_lines hrest (h.last_not_return hv) hlines
  have hcount : (Text.splitLines t.text).length - 1 = init.length := by
    rw [hlines, List.length_append]
    rfl
  obtain ⟨within, hfurther, hlength⟩ : ∃ within, further = within ++ later ∧
      within.length = init.length := by
    rw [e] at hall
    cases init with
    | nil => exact ⟨[], (List.cons.inj hall).2, rfl⟩
    | cons l init =>
      refine ⟨init ++ [last ++ next], ?_, by simp⟩
      rw [(List.cons.inj hall).2]
      simp
  have hlater := (ih (line + init.length) next later hrest).1
  have hnone : leadsFrom none (tokenize d rest) =
      leadsOutside (linesWithin line (t :: tokenize d rest)) (line + 1) further := by
    rw [hlater, linesWithin_visible h hv, hcount, hfurther, ← hlength, leadsOutside_range]
    congr 1
    omega
  rw [tokenize_append h, leadsFrom_visible hv]
  refine ⟨hnone, fun b hb => ?_⟩
  obtain ⟨c, y, htext, hsolid⟩ := h.head_solid hv
  have hblank := Bool.or_eq_false_iff.mp hsolid
  have hfirst : ∃ x, first = c :: x := by
    obtain ⟨first', further', hsplit⟩ := Text.exists_splitLines (y ++ rest)
    rw [htext, List.cons_append, Text.splitLines_cons hblank.2, hsplit] at e
    exact ⟨first', (List.cons.inj e).1.symm⟩
  obtain ⟨x, rfl⟩ := hfirst
  rw [leadsFrom_visible hv, hnone, lead?_append hb hblank.1]

end ShowsLeads

theorem showsLeads (d : Dialect) (x : Text) : ShowsLeads d x := by
  induction x using text_induction d with
  | nil =>
    intro line first further e
    obtain ⟨rfl, rfl⟩ := List.cons.inj (show [[]] = first :: further from e)
    refine ⟨rfl, fun b hb => ?_⟩
    rw [List.append_nil, lead?_blank hb]
    rfl
  | step t rest h ih =>
    cases hv : t.kind.isLayout with
    | false => exact ih.visible h hv
    | true =>
      rcases h.layout_cases hv with ⟨hk, -, hall, -⟩ | ⟨hk, hnl, whole⟩
      · exact ih.blanks h hk hall
      · exact ih.lineEnd h hk hnl whole

/-- **The leads of the lines that detection looks at are those of the tokens.** -/
theorem leads_codeLinesIn (d : Dialect) (x : Text) :
    (codeLinesIn d x).filterMap Text.lead? = leadsFrom (some []) (tokenize d x) := by
  obtain ⟨first, further, e⟩ := Text.exists_splitLines x
  rw [(showsLeads d x 0 first further e).2 [] (by simp), List.nil_append,
    ← leadsOutside_keep (not_mem_linesWithin _ _), ← e]
  unfold codeLinesIn leadsOutside
  rw [List.filterMap_map]
  rfl

theorem leadsFrom_inDialect (d : Dialect) (start? : Option Text) (ts : List Token) :
    leadsFrom start? (ts.map (Token.inDialect d)) = leadsFrom start? ts := by
  induction ts generalizing start? with
  | nil => rfl
  | cons t ts ih =>
    rw [List.map_cons]
    cases hl : t.kind.isLayout with
    | false =>
      have hl' : (t.inDialect d).kind.isLayout = false := by rw [inDialect_isLayout, hl]
      rw [leadsFrom_visible hl, leadsFrom_visible hl', ih]
    | true =>
      have hname : t.kind.isName = false := by
        cases hk : t.kind <;> rw [hk] at hl <;> first | rfl | cases hl
      have hsame : t.inDialect d = t := by
        rw [Token.inDialect, hname, if_neg Bool.false_ne_true]
      rw [hsame, leadsFrom_layout hl, leadsFrom_layout hl, ih]

/-! ## 4. Units of leads -/

/-- The unit that leads show. -/
def unitOf (leads : List Text) : Text :=
  if leads.any fun lead => lead.contains '\t' then ['\t']
  else match leads.foldl (fun width lead => Nat.gcd width lead.length) 0 with
    | 0 => defaultUnit
    | width => List.replicate width ' '

/-- **The unit of a text is that of the leads of its tokens**, in any dialect. -/
theorem detectUnit_eq (d : Dialect) (x : Text) :
    detectUnit x = unitOf (leadsFrom (some []) (tokenize d x)) := by
  rw [← leadsFrom_inDialect .rebeca, ← tokenize_inDialect, ← leads_codeLinesIn]
  rfl

theorem unitOf_cases (leads : List Text) :
    unitOf leads = ['\t'] ∨ ∃ k, unitOf leads = List.replicate (k + 1) ' ' := by
  unfold unitOf
  split
  · exact Or.inl rfl
  · split
    · exact Or.inl rfl
    · next width hwidth =>
      obtain ⟨k, hk⟩ := Nat.exists_eq_succ_of_ne_zero hwidth
      exact Or.inr ⟨k, congrArg (List.replicate · ' ') hk⟩

/-- The unit of a text is a tab or some spaces. -/
theorem detectUnit_cases (x : Text) :
    detectUnit x = ['\t'] ∨ ∃ k, detectUnit x = List.replicate (k + 1) ' ' := by
  rw [detectUnit_eq .rebeca]
  exact unitOf_cases _

theorem foldl_gcd_dvd (leads : List Text) (width : Nat) :
    leads.foldl (fun width lead => Nat.gcd width lead.length) width ∣ width ∧
      ∀ lead ∈ leads,
        leads.foldl (fun width lead => Nat.gcd width lead.length) width ∣ lead.length := by
  induction leads generalizing width with
  | nil => exact ⟨Nat.dvd_refl _, by simp⟩
  | cons lead leads ih =>
    obtain ⟨hwidth, hall⟩ := ih (Nat.gcd width lead.length)
    refine ⟨Nat.dvd_trans hwidth (Nat.gcd_dvd_left _ _), fun l hl => ?_⟩
    rcases List.mem_cons.mp hl with rfl | hl
    · exact Nat.dvd_trans hwidth (Nat.gcd_dvd_right _ _)
    · exact hall l hl

theorem dvd_foldl_gcd {k : Nat} (leads : List Text) (hall : ∀ lead ∈ leads, k ∣ lead.length)
    (width : Nat) (hwidth : k ∣ width) :
    k ∣ leads.foldl (fun width lead => Nat.gcd width lead.length) width := by
  induction leads generalizing width with
  | nil => exact hwidth
  | cons lead leads ih =>
    refine ih (fun l hl => hall l (List.mem_cons_of_mem _ hl)) _ ?_
    exact Nat.dvd_gcd hwidth (hall lead List.mem_cons_self)

theorem length_times (u : Text) (n : Nat) : u.length ∣ (Text.times u n).length := by
  unfold Text.times
  split
  · exact Nat.dvd_zero _
  · rw [List.length_flatten, List.map_replicate, List.sum_replicate_nat]
    exact Nat.dvd_mul_left _ _

/-- **Lines indented by depth show the unit they are indented with**, if one of them stands at
    depth one. -/
theorem unitOf_times {unit : Text} (hu : unit = ['\t'] ∨ ∃ k, unit = List.replicate (k + 1) ' ')
    {depths : List Nat} (h : 1 ∈ depths) : unitOf (depths.map (Text.times unit)) = unit := by
  have hone : Text.times unit 1 = unit := by
    rcases hu with rfl | ⟨k, rfl⟩
    · rfl
    · simp [Text.times, List.replicate_succ]
  have hmem : unit ∈ depths.map (Text.times unit) := List.mem_map.mpr ⟨1, h, hone⟩
  unfold unitOf
  rcases hu with rfl | ⟨k, rfl⟩
  · rw [if_pos (List.any_eq_true.mpr ⟨_, hmem, rfl⟩)]
  · have htab : ¬ (depths.map (Text.times (List.replicate (k + 1) ' '))).any
        (fun lead => lead.contains '\t') = true := by
      intro hany
      obtain ⟨lead, hlead, htab⟩ := List.any_eq_true.mp hany
      obtain ⟨n, -, rfl⟩ := List.mem_map.mp hlead
      have hc := List.eq_of_mem_replicate (mem_times (List.contains_iff_mem.mp htab))
      cases hc
    have hgcd : (depths.map (Text.times (List.replicate (k + 1) ' '))).foldl
        (fun width lead => Nat.gcd width lead.length) 0 = k + 1 := by
      refine Nat.dvd_antisymm ?_ ?_
      · have hdvd := (foldl_gcd_dvd _ 0).2 _ hmem
        rwa [List.length_replicate] at hdvd
      · refine dvd_foldl_gcd _ (fun lead hlead => ?_) 0 (Nat.dvd_zero _)
        obtain ⟨n, -, rfl⟩ := List.mem_map.mp hlead
        have hdvd := length_times (List.replicate (k + 1) ' ') n
        rwa [List.length_replicate] at hdvd
    rw [if_neg htab, hgcd]
    rfl

/-! ## 5. Leads of layouts -/

/-- The depths of the lines of a layout. -/
def lineDepths (dialect : Dialect) : Spot → List Token → List Nat
  | _, [] => []
  | p, t :: ts => (if p.opensLine dialect t then [p.depthAt t.kind] else []) ++
      lineDepths dialect (p.after dialect t) ts

/-- The leads that tokens behind gaps show. -/
def gapLeads (d : Dialect) : Option Text → List Text → List Text
  | _, [] => []
  | start?, g :: gaps => ((tokenize d g).foldl leadAfter start?).toList ++ gapLeads d none gaps

theorem leadsFrom_append_layout {g : Text} (hg : ∀ c ∈ g, Text.isLayoutChar c = true)
    (start? : Option Text) (ts : List Token) : leadsFrom start? (tokenize d g ++ ts) =
      leadsFrom ((tokenize d g).foldl leadAfter start?) ts := by
  have hall : ∀ t ∈ tokenize d g, t.kind.isLayout = true := by
    intro t ht
    have hnot := List.filter_eq_nil_iff.mp (significant_layout (d := d) hg) t ht
    simpa using hnot
  generalize tokenize d g = us at hall ⊢
  induction us generalizing start? with
  | nil => rfl
  | cons t us ih =>
    rw [List.cons_append, leadsFrom_layout (hall t List.mem_cons_self), List.foldl_cons,
      ih _ fun u hu => hall u (List.mem_cons_of_mem _ hu)]

theorem leadsFrom_tokensOf {row : List (Text × Token)} (h : ∀ a ∈ row,
      (∀ c ∈ a.1, Text.isLayoutChar c = true) ∧ a.2.kind.isLayout = false)
    (start? : Option Text) (ts : List Token) : leadsFrom start? (tokensOf d row ++ ts) =
      gapLeads d start? (row.map Prod.fst) ++
        leadsFrom (if row = [] then start? else none) ts := by
  induction row generalizing start? with
  | nil => rfl
  | cons a row ih =>
    obtain ⟨hlayout, hvisible⟩ := h a List.mem_cons_self
    rw [tokensOf_cons, List.append_assoc, leadsFrom_append_layout hlayout, List.cons_append,
      leadsFrom_visible hvisible, ih fun b hb => h b (List.mem_cons_of_mem _ hb), ite_self,
      if_neg (List.cons_ne_nil _ _), ← List.append_assoc]
    rfl

/-- The text of a readable row shows what its gaps show. -/
theorem Readable.leads {nl : Text} {row : List (Text × Token)} (h : Readable d nl row)
    (hn : LineEnd nl) : leadsFrom (some []) (tokenize d (spread row ++ nl)) =
      gapLeads d (some []) (row.map Prod.fst) := by
  rcases h.tokenize_eq with e | ⟨init, g, z, rfl, -, -, e⟩
  · have htail : ∀ start? : Option Text, leadsFrom start? [⟨.newline, nl⟩] = [] := fun _ => rfl
    rw [e, tokenize_lineEnd hn, leadsFrom_tokensOf h.laid, htail, List.append_nil]
  · -- the token that takes the terminator is of the kind that it was
    have hlaid : ∀ a ∈ init ++ [(g, (⟨z.kind, z.text ++ nl⟩ : Token))],
        (∀ c ∈ a.1, Text.isLayoutChar c = true) ∧ a.2.kind.isLayout = false := by
      intro a ha
      rcases List.mem_append.mp ha with ha | ha
      · exact h.laid a (List.mem_append_left _ ha)
      · rw [List.mem_singleton.mp ha]
        exact h.laid (g, z) (List.mem_append_right _ List.mem_cons_self)
    rw [e, ← tokensOf_concat, ← List.append_nil (tokensOf d _), leadsFrom_tokensOf hlaid, leadsFrom,
      List.append_nil, List.map_append, List.map_append]
    rfl

/-- Nothing stands where tokens are welded, so welding hides no lead. -/
theorem gapLeads_weldOnto {w : Text} (ho : style.Orderly) (hw : AtLineEnd w) (ts : List Token) :
    ∀ {g : Text} {a : Token} {m : Bool} {p : Spot}, Legible style.dialect ts →
      Closes style.dialect w ts → Carried style w ts a m p → ∀ start? : Option Text,
      gapLeads d start? ((weldOnto style.dialect (g, a) m (pieces style p ts)).map Prod.fst) =
        gapLeads d start? (g :: (pieces style p ts).map Prod.fst) := by
  induction ts with
  | nil =>
    intro g a m p _ _ _ start?
    rfl
  | cons u us ih =>
    intro g a m p hlegible hc h start?
    obtain ⟨hv, r, hu⟩ := hlegible.head
    have hcore := hu.core_written hv ho (p.depthAt u.kind)
    rw [pieces_cons, weldOnto, List.map_cons]
    dsimp only
    rw [joinsTo_congr rfl hcore]
    cases hj : a.joinsTo m u with
    | true =>
      have hjoined := (joinsTo_kinds h.tip.unquoted_of_mark hj).2
      have hself := written_of_joinsTo hu hv (hjoined.imp_right And.right) style (p.depthAt u.kind)
      rw [if_pos rfl, hself, ih hlegible.tail hc.tail (h.join hw hu hj), (h.tip.join hj).1]
      rfl
    | false =>
      rw [if_neg Bool.false_ne_true, List.map_cons, gapLeads,
        ih hlegible.tail hc.tail (.fresh ho hw hlegible hc p)]
      rfl

theorem foldl_leadAfter_lineEnd {nl b : Text} (hn : LineEnd nl) (hb : ∀ c ∈ b, Text.isBlank c = true)
    (start? : Option Text) : (tokenize d (nl ++ b)).foldl leadAfter start? = some b := by
  rw [tokenize_lineEnd_append hn hb]
  cases b with
  | nil => rfl
  | cons c b =>
    rw [tokenize_blanks (List.cons_ne_nil c b) hb]
    rfl

/-- Behind a token, a gap shows a lead if it ends a line. -/
theorem foldl_leadAfter_gap (ho : style.Orderly) (q : Spot) (l t : Token) :
    ((tokenize d (gap style (q.after style.dialect l) t)).foldl leadAfter none).toList =
      (if (q.after style.dialect l).opensLine style.dialect t
        then [(q.after style.dialect l).depthAt t.kind] else []).map (Text.times style.unit) := by
  unfold gap
  split
  · rw [lineBreak_after, foldl_leadAfter_lineEnd ho.terminator (ho.blank_indent _)]
    rfl
  · split
    · rw [tokenize_blanks (List.cons_ne_nil _ _) (by simp [Text.isBlank])]
      rfl
    · rfl

theorem gapLeads_pieces (ho : style.Orderly) (ts : List Token) (q : Spot) (l : Token) :
    gapLeads d none ((pieces style (q.after style.dialect l) ts).map Prod.fst) =
      (lineDepths style.dialect (q.after style.dialect l) ts).map (Text.times style.unit) := by
  induction ts generalizing q l with
  | nil => rfl
  | cons t ts ih =>
    rw [pieces_cons, List.map_cons, gapLeads, foldl_leadAfter_gap ho, ih, lineDepths,
      List.map_append]

/-- **A layout shows its indents**: the leads of its lines are the unit, repeated as deep as each
    line stands. -/
theorem leads_layout (ho : style.Orderly) (h : Legible style.dialect ts) (hne : ts ≠ []) :
    leadsFrom (some [])
        (tokenize style.dialect (finished style (rendered style (.start 0 true) ts))) =
      (lineDepths style.dialect (.start 0 true) ts).map (Text.times style.unit) := by
  have hend := ho.terminator.atLineEnd_self
  have hc : Closes style.dialect style.terminator ts := Or.inl ho.terminator.layout
  obtain ⟨hreadable, hspread⟩ := weldAll_readable ho hend h hc hne (.start 0 true)
  rw [finished_rendered ho h hne, ← hspread, hreadable.leads ho.terminator]
  cases ts with
  | nil => exact absurd rfl hne
  | cons t ts =>
    have hdepth : Spot.depthAt (.start 0 true) t.kind = 0 := by
      unfold Spot.depthAt
      split <;> rfl
    have hopens : Spot.opensLine style.dialect (.start 0 true) t = true := rfl
    have hfresh := Carried.fresh ho hend h hc (.start 0 true)
    rw [pieces_cons, weldAll, gapLeads_weldOnto ho hend ts h.tail hc.tail hfresh, gapLeads,
      gap_margin, gapLeads_pieces ho, lineDepths, hdepth, hopens, if_pos rfl, List.map_append]
    simp [times_zero]

/-- **The unit of a layout is found again**, if a line stands at depth one. -/
theorem detectUnit_layout (ho : style.Orderly)
    (hu : style.unit = ['\t'] ∨ ∃ k, style.unit = List.replicate (k + 1) ' ')
    (h : Legible style.dialect ts) (hne : ts ≠ [])
    (hone : 1 ∈ lineDepths style.dialect (.start 0 true) ts) :
    detectUnit (finished style (rendered style (.start 0 true) ts)) = style.unit := by
  rw [detectUnit_eq style.dialect, leads_layout ho h hne, unitOf_times hu hone]

end RebecaLayout
