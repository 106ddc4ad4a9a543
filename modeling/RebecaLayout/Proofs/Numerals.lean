import Mathlib.Data.Nat.Digits.Defs
import RebecaLayout.Command.Run
import RebecaLayout.Proofs.Reading
import RebecaLayout.Proofs.Settings

/-!
Digits and the numbers they write, in the texts of settings.

* `Writes t n` -- **the text `t` writes the number `n`**: decimal digits of any script, not too many of
  them, the first the most significant;
* `Unreadable t` -- the text has digits only, and yet writes no number;
* `readNumeral_of_writes`, `readNumeral_of_unreadable` -- reading finds the number or fails;
* `NamesUnit` -- the texts that name an indent unit;
* `readIndentText_cases`, `readRegion_cases` -- what becomes of a text that is read as an indent or as a
  region;
* `readIndent_readRegion_iff` -- so **a text is accepted or rejected, unless it is unreadable**.
-/

namespace RebecaLayout

variable {t a b unit : Text} {n : Nat} {machine : Machine}

/-! ## 1. Numbers -/

/-- **The text writes the number.** -/
structure Writes (t : Text) (n : Nat) : Prop where
  ne_nil : t ≠ []
  /-- There are no more digits than are read. -/
  short : t.length ≤ numeralLimit
  /-- Each character is a digit, and the last of them counts the ones. -/
  value : ∃ digits : List Nat, t.map Text.decimalValue? = digits.map some ∧
    n = Nat.ofDigits 10 digits.reverse

/-- Digits that write no number: there are too many, or one of them forms no numbers. -/
def Unreadable (t : Text) : Prop :=
  isNumeral t = true ∧ (numeralLimit < t.length ∨ ∃ c ∈ t, Text.decimalValue? c = none)

theorem isNumeral_iff : isNumeral t = true ↔ t ≠ [] ∧ ∀ c ∈ t, Text.isDigit c = true := by
  simp [isNumeral]

theorem decimalNumber_eq (digits : List Nat) :
    decimalNumber digits = Nat.ofDigits 10 digits.reverse := by
  rw [Nat.ofDigits_eq_foldr, List.foldr_reverse, decimalNumber]
  congr 1
  funext n d
  exact Nat.add_comm _ _

/-- Characters that all have a value are digits. -/
theorem exists_digits (h : ∀ c ∈ t, Text.decimalValue? c ≠ none) :
    t.map Text.decimalValue? = (t.filterMap Text.decimalValue?).map some := by
  induction t with
  | nil => rfl
  | cons c t ih =>
    obtain ⟨d, hd⟩ := Option.ne_none_iff_exists'.mp (h c List.mem_cons_self)
    rw [List.map_cons, List.filterMap_cons_some hd, List.map_cons, hd,
      ih fun x hx => h x (List.mem_cons_of_mem c hx)]

theorem Writes.decimal (h : Writes t n) : ∀ c ∈ t, (Text.decimalValue? c).isSome = true := by
  obtain ⟨digits, hdigits, -⟩ := h.value
  intro c hc
  have hmem : Text.decimalValue? c ∈ digits.map some := hdigits ▸ List.mem_map_of_mem hc
  obtain ⟨d, -, hd⟩ := List.mem_map.mp hmem
  rw [← hd]
  rfl

theorem Writes.isNumeral (h : Writes t n) : isNumeral t = true :=
  isNumeral_iff.mpr ⟨h.ne_nil, fun c hc => Bool.or_eq_true_iff.mpr (Or.inl (h.decimal c hc))⟩

/-- **Digits write a number or are unreadable.** -/
theorem writes_or_unreadable (h : isNumeral t = true) : (∃ n, Writes t n) ∨ Unreadable t := by
  by_cases hbad : numeralLimit < t.length ∨ ∃ c ∈ t, Text.decimalValue? c = none
  · exact Or.inr ⟨h, hbad⟩
  · obtain ⟨hshort, hall⟩ := not_or.mp hbad
    refine Or.inl ⟨_, (isNumeral_iff.mp h).1, Nat.not_lt.mp hshort, _, exists_digits ?_, rfl⟩
    exact fun c hc hnone => hall ⟨c, hc, hnone⟩

/-- **What a text writes is read.** -/
theorem readNumeral_of_writes (h : Writes t n) : readNumeral t = .ok n := by
  obtain ⟨digits, hdigits, rfl⟩ := h.value
  have hall : t.takeWhile (fun c => (Text.decimalValue? c).isSome) = t :=
    List.takeWhile_eq_self_iff.mpr h.decimal
  have hvalues : t.filterMap Text.decimalValue? = digits := by
    have hid := congrArg (List.filterMap id) hdigits
    simpa using hid
  unfold readNumeral
  dsimp only
  rw [hall, if_neg (Nat.not_lt.mpr h.short), if_neg (Nat.lt_irrefl _), hvalues, decimalNumber_eq]

/-- **What is unreadable is not read.** -/
theorem readNumeral_of_unreadable (h : Unreadable t) : ∃ cause, readNumeral t = .error cause := by
  unfold readNumeral
  dsimp only
  split
  · exact ⟨_, rfl⟩
  next hshort =>
    refine ⟨_, if_pos ?_⟩
    have hprefix := List.takeWhile_prefix (l := t) fun c => (Text.decimalValue? c).isSome
    refine Nat.lt_of_le_of_ne hprefix.length_le fun hlength => ?_
    -- nothing is left out, so all digits are decimal and there are not too many
    have hwhole := hprefix.eq_of_length hlength
    rcases h.2 with hlong | ⟨c, hc, hnone⟩
    · exact hshort (hlength ▸ hlong)
    · have hsome := List.takeWhile_eq_self_iff.mp hwhole c hc
      rw [hnone] at hsome
      cases hsome

/-! ## 2. Indents -/

/-- **The texts that name an indent unit**: the name of the tab, the tab, the number of spaces, or the
    spaces themselves. -/
inductive NamesUnit (machine : Machine) (t : Text) : Text → Prop
  | tab (name : Text.folded t = "tab".toList ∨ Text.folded t = ['\\', 't'] ∨ t = ['\t']) :
      NamesUnit machine t ['\t']
  | width {n : Nat} (writes : Writes t n) (pos : 1 ≤ n) (fits : n < machine.memory) :
      NamesUnit machine t (List.replicate n ' ')
  | spaces {n : Nat} (pos : 1 ≤ n) (text : t = List.replicate n ' ') :
      NamesUnit machine t (List.replicate n ' ')

/-- Digits beyond ASCII lie beyond ASCII. -/
theorem isDigit_range {c : Char} (h : Text.isDigit c = true) :
    (48 ≤ c.toNat ∧ c.toNat ≤ 57) ∨ 128 ≤ c.toNat := by
  rcases Bool.or_eq_true_iff.mp h with hdecimal | hlone
  · unfold Text.decimalValue? at hdecimal
    split at hdecimal
    · split at hdecimal
      · next hdigit => exact Or.inl (digit_range hdigit)
      · cases hdecimal
    · exact Or.inr (by omega)
  · obtain ⟨r, hr, hwithin⟩ := List.any_eq_true.mp hlone
    have hfrom : Text.loneDigitRanges.all (fun r => 128 ≤ r.1) = true := by decide
    have hlow := List.all_eq_true.mp hfrom r hr
    simp only [Bool.and_eq_true, decide_eq_true_eq] at hwithin hlow
    exact Or.inr (hlow.trans hwithin.1)

theorem toLower_of_isDigit {c : Char} (h : Text.isDigit c = true) : c.toLower = c := by
  have hrange := isDigit_range h
  have hnot : ¬ (c.val ≥ 'A'.val ∧ c.val ≤ 'Z'.val) := by
    rintro ⟨hlow, hhigh⟩
    have hlow' : 65 ≤ c.toNat := UInt32.le_iff_toNat_le.mp hlow
    have hhigh' : c.toNat ≤ 90 := UInt32.le_iff_toNat_le.mp hhigh
    omega
  unfold Char.toLower
  rw [dif_neg hnot]

/-- Digits name no tab. -/
theorem not_numeral_of_tab
    (h : Text.folded t = "tab".toList ∨ Text.folded t = ['\\', 't'] ∨ t = ['\t']) :
    isNumeral t = false := by
  cases hnumeral : isNumeral t with
  | false => rfl
  | true =>
    have hfolded : Text.folded t = t := by
      refine (List.map_congr_left fun c hc => ?_).trans (List.map_id t)
      exact toLower_of_isDigit ((isNumeral_iff.mp hnumeral).2 c hc)
    rw [hfolded] at h
    rcases h with rfl | rfl | rfl <;> revert hnumeral <;> decide

theorem readIndentText_tab
    (h : Text.folded t = "tab".toList ∨ Text.folded t = ['\\', 't'] ∨ t = ['\t']) :
    readIndentText machine t = .ok ['\t'] := by
  unfold readIndentText
  rw [if_pos (by simpa [or_assoc] using h)]

/-- What is not named a tab is read as digits if it has digits only. -/
theorem readIndentText_numeral (h : isNumeral t = true) :
    (∀ n, readNumeral t = .ok n → readIndentText machine t = unitOfWidth machine n) ∧
    ∀ cause, readNumeral t = .error cause → readIndentText machine t = .error (.numeral cause) := by
  have hname : ¬ (Text.folded t = "tab".toList ∨ Text.folded t = ['\\', 't'] ∨ t = ['\t']) := by
    intro htab
    rw [not_numeral_of_tab htab] at h
    cases h
  unfold readIndentText
  rw [if_neg (by simpa [or_assoc] using hname), if_pos h]
  constructor
  · intro n hn
    rw [hn]
  · intro cause hcause
    rw [hcause]

theorem readIndentText_spaces (hpos : 1 ≤ n) :
    readIndentText machine (List.replicate n ' ') = .ok (List.replicate n ' ') := by
  have hmem : ∀ c ∈ List.replicate n ' ', c = ' ' := fun c hc => List.eq_of_mem_replicate hc
  have hne : List.replicate n ' ' ≠ [] := by
    simp only [ne_eq, List.replicate_eq_nil_iff]
    omega
  have hfolded : Text.folded (List.replicate n ' ') = List.replicate n ' ' := List.map_replicate
  have hname : ∀ name : Text, (∃ c ∈ name, c ≠ ' ') → List.replicate n ' ' ≠ name := by
    rintro name ⟨c, hc, hspace⟩ rfl
    exact hspace (hmem c hc)
  have hdigits : isNumeral (List.replicate n ' ') = false := by
    rw [isNumeral, List.all_eq_false.mpr ⟨' ', List.mem_replicate.mpr ⟨by omega, rfl⟩, by decide⟩,
      Bool.and_false]
  have hall : (List.replicate n ' ').all (· == ' ') = true :=
    List.all_eq_true.mpr fun c hc => beq_iff_eq.mpr (hmem c hc)
  unfold readIndentText
  rw [hfolded, if_neg, hdigits, if_neg Bool.false_ne_true, if_pos]
  · rw [hall, Bool.and_true, Bool.not_eq_true', List.isEmpty_eq_false_iff]
    exact hne
  · simp only [Bool.or_eq_true, beq_iff_eq]
    rintro ((htab | htab) | htab)
    · exact hname _ ⟨'t', by simp, by decide⟩ htab
    · exact hname _ ⟨'t', by simp, by decide⟩ htab
    · exact hname _ ⟨'\t', by simp, by decide⟩ htab

theorem unitOfWidth_zero :
    unitOfWidth machine (0 : Nat) = .error (.rejected (.indentTooNarrow 0)) := by
  have hshort : Rejection.isWritable (.indentTooNarrow 0) = true := by decide +kernel
  unfold unitOfWidth
  rw [if_pos (by decide), SettingError.ofRejection, Int.ofNat_zero, hshort, if_pos rfl]

theorem unitOfWidth_fits (hpos : 1 ≤ n) (hfits : n < machine.memory) :
    unitOfWidth machine n = .ok (List.replicate n ' ') := by
  have hlimit := machine.memory_le
  have hrepeat : repeatError? machine 1 n = none := by
    unfold repeatError?
    rw [if_neg (by omega), if_neg (by omega), if_neg (by omega)]
  unfold unitOfWidth
  rw [if_neg (by omega), Int.toNat_natCast, hrepeat]

theorem unitOfWidth_wide (hwide : machine.memory ≤ n) :
    ∃ cause, unitOfWidth machine n = .error (.tooWide cause) := by
  have hpos : 1 ≤ n := le_trans machine.memory_pos hwide
  have hrepeat : ∃ cause, repeatError? machine 1 n = some cause := by
    unfold repeatError?
    split
    · exact ⟨_, rfl⟩
    split
    · exact ⟨_, rfl⟩
    · exact ⟨_, if_pos (by omega)⟩
  obtain ⟨cause, hcause⟩ := hrepeat
  refine ⟨cause, ?_⟩
  unfold unitOfWidth
  rw [if_neg (by omega), Int.toNat_natCast, hcause]

/-- What a text names is read. -/
theorem readIndentText_of_names (h : NamesUnit machine t unit) :
    readIndentText machine t = .ok unit := by
  cases h with
  | tab name => exact readIndentText_tab name
  | width writes pos fits =>
    rw [(readIndentText_numeral writes.isNumeral).1 _ (readNumeral_of_writes writes)]
    exact unitOfWidth_fits pos fits
  | spaces pos text =>
    rw [text]
    exact readIndentText_spaces pos

/-- Digits that write no number make reading fail. -/
theorem readIndentText_of_unreadable (h : Unreadable t) :
    ∃ cause, readIndentText machine t = .error (.numeral cause) := by
  obtain ⟨cause, hcause⟩ := readNumeral_of_unreadable h
  exact ⟨cause, (readIndentText_numeral h.1).2 cause hcause⟩

theorem readIndentText_of_wide (h : Writes t n) (hwide : machine.memory ≤ n) :
    ∃ cause, readIndentText machine t = .error (.tooWide cause) := by
  rw [(readIndentText_numeral h.isNumeral).1 n (readNumeral_of_writes h)]
  exact unitOfWidth_wide hwide

/-- **Every text names a unit, has unreadable digits, writes too great a width, or is rejected.** -/
theorem readIndentText_cases (machine : Machine) (t : Text) :
    (∃ unit, NamesUnit machine t unit ∧ readIndentText machine t = .ok unit) ∨
    (Unreadable t ∧ ∃ cause, readIndentText machine t = .error (.numeral cause)) ∨
    ((∃ n, Writes t n ∧ machine.memory ≤ n) ∧
      ∃ cause, readIndentText machine t = .error (.tooWide cause)) ∨
    ∃ cause, readIndentText machine t = .error (.rejected cause) := by
  have hnamed : ∀ unit, NamesUnit machine t unit →
      ∃ unit, NamesUnit machine t unit ∧ readIndentText machine t = .ok unit :=
    fun unit h => ⟨unit, h, readIndentText_of_names h⟩
  by_cases htab : Text.folded t = "tab".toList ∨ Text.folded t = ['\\', 't'] ∨ t = ['\t']
  · exact Or.inl (hnamed _ (.tab htab))
  cases hdigits : isNumeral t with
  | true =>
    rcases writes_or_unreadable hdigits with ⟨n, hn⟩ | hbad
    · by_cases hwide : machine.memory ≤ n
      · exact Or.inr (Or.inr (Or.inl ⟨⟨n, hn, hwide⟩, readIndentText_of_wide hn hwide⟩))
      cases n with
      | zero =>
        refine Or.inr (Or.inr (Or.inr ⟨.indentTooNarrow 0, ?_⟩))
        rw [(readIndentText_numeral hdigits).1 0 (readNumeral_of_writes hn)]
        exact unitOfWidth_zero
      | succ n => exact Or.inl (hnamed _ (.width hn (Nat.succ_pos n) (Nat.lt_of_not_le hwide)))
    · exact Or.inr (Or.inl ⟨hbad, readIndentText_of_unreadable hbad⟩)
  | false =>
    by_cases hspaces : t ≠ [] ∧ ∀ c ∈ t, c = ' '
    · have ht : t = List.replicate t.length ' ' := List.eq_replicate_iff.mpr ⟨rfl, hspaces.2⟩
      exact Or.inl (hnamed _ (.spaces (List.length_pos_iff.mpr hspaces.1) ht))
    · refine Or.inr (Or.inr (Or.inr ⟨.badIndentText t, ?_⟩))
      unfold readIndentText
      rw [if_neg (by simpa [or_assoc] using htab), hdigits, if_neg Bool.false_ne_true,
        if_neg (by simpa using hspaces)]

/-- **A text is accepted as an indent if it names a unit.** -/
theorem readIndentText_ok_iff : readIndentText machine t = .ok unit ↔ NamesUnit machine t unit := by
  refine ⟨fun h => ?_, readIndentText_of_names⟩
  rcases readIndentText_cases machine t with
    ⟨unit', hnames, e⟩ | ⟨-, cause, e⟩ | ⟨-, cause, e⟩ | ⟨cause, e⟩
  · obtain rfl := Except.ok.inj (e.symm.trans h)
    exact hnames
  all_goals cases e.symm.trans h

theorem readIndentText_numeral_iff :
    (∃ cause, readIndentText machine t = .error (.numeral cause)) ↔ Unreadable t := by
  refine ⟨fun ⟨cause, h⟩ => ?_, readIndentText_of_unreadable⟩
  rcases readIndentText_cases machine t with ⟨_, -, e⟩ | ⟨hbad, -⟩ | ⟨-, _, e⟩ | ⟨_, e⟩
  · cases e.symm.trans h
  · exact hbad
  all_goals cases e.symm.trans h

theorem readIndentText_tooWide_iff : (∃ cause, readIndentText machine t = .error (.tooWide cause)) ↔
    ∃ n, Writes t n ∧ machine.memory ≤ n := by
  refine ⟨fun ⟨cause, h⟩ => ?_, fun ⟨n, hn, hwide⟩ => readIndentText_of_wide hn hwide⟩
  rcases readIndentText_cases machine t with ⟨_, -, e⟩ | ⟨-, _, e⟩ | ⟨hwide, -⟩ | ⟨_, e⟩
  · cases e.symm.trans h
  · cases e.symm.trans h
  · exact hwide
  · cases e.symm.trans h

/-- **A text is rejected as an indent if it is none of the others.** -/
theorem readIndentText_rejected_iff : (∃ cause, readIndentText machine t = .error (.rejected cause)) ↔
    ¬ ((∃ unit, NamesUnit machine t unit) ∨ Unreadable t ∨ ∃ n, Writes t n ∧ machine.memory ≤ n) := by
  rw [← readIndentText_numeral_iff, ← readIndentText_tooWide_iff]
  constructor
  · rintro ⟨cause, h⟩ (⟨unit, hnames⟩ | ⟨_, e⟩ | ⟨_, e⟩)
    · cases h.symm.trans (readIndentText_of_names hnames)
    all_goals cases h.symm.trans e
  · intro h
    rcases readIndentText_cases machine t with ⟨unit, hnames, -⟩ | ⟨-, hbad⟩ | ⟨-, hwide⟩ | hrejected
    · exact absurd (Or.inl ⟨unit, hnames⟩) h
    · exact absurd (Or.inr (Or.inl hbad)) h
    · exact absurd (Or.inr (Or.inr hwide)) h
    · exact hrejected

/-! ## 3. Regions -/

theorem colon_notMem (h : isNumeral a = true) : ':' ∉ a := by
  intro hmem
  have hdigit := (isNumeral_iff.mp h).2 ':' hmem
  revert hdigit
  decide

/-- A region without a colon has no form. -/
theorem readRegion_whole (h : ':' ∉ t) : readRegion t = .error (.badFormat t) := by
  have hrest : t.dropWhile (· != ':') = [] := by
    refine List.dropWhile_eq_nil_iff.mpr fun c hc => bne_iff_ne.mpr ?_
    rintro rfl
    exact h hc
  unfold readRegion
  rw [hrest]

/-- The first colon divides a region into two numbers. -/
theorem readRegion_append (h : ':' ∉ a) (b : Text) : readRegion (a ++ ':' :: b) =
    if isNumeral a && isNumeral b then
      (do return (← readNumeral a, ← readNumeral b)).mapError RegionTextError.numeral
    else .error (.badFormat (a ++ ':' :: b)) := by
  have hfront : ∀ c ∈ a, (c != ':') = true := by
    intro c hc
    refine bne_iff_ne.mpr ?_
    rintro rfl
    exact h hc
  have htake : (a ++ ':' :: b).takeWhile (· != ':') = a := by
    rw [List.takeWhile_append_of_pos hfront, List.takeWhile_cons_of_neg (by decide), List.append_nil]
  have hdrop : (a ++ ':' :: b).dropWhile (· != ':') = ':' :: b := by
    rw [List.dropWhile_append_of_pos hfront, List.dropWhile_cons_of_neg (by decide)]
  unfold readRegion
  rw [htake, hdrop]
  dsimp only
  cases readNumeral a <;> cases readNumeral b <;> rfl

/-- Two numbers with a colon between them are read. -/
theorem readRegion_of_writes {o l : Nat} (ha : Writes a o) (hb : Writes b l) :
    readRegion (a ++ ':' :: b) = .ok (o, l) := by
  rw [readRegion_append (colon_notMem ha.isNumeral), ha.isNumeral, hb.isNumeral,
    readNumeral_of_writes ha, readNumeral_of_writes hb]
  rfl

/-- Digits that write no number make reading fail, on either side of the colon. -/
theorem readRegion_of_unreadable (ha : isNumeral a = true) (hb : isNumeral b = true)
    (h : Unreadable a ∨ Unreadable b) :
    ∃ cause, readRegion (a ++ ':' :: b) = .error (.numeral cause) := by
  rw [readRegion_append (colon_notMem ha), ha, hb]
  cases hfirst : readNumeral a with
  | error cause => exact ⟨cause, rfl⟩
  | ok o =>
    rcases h with h | h
    · obtain ⟨cause, hcause⟩ := readNumeral_of_unreadable h
      rw [hfirst] at hcause
      cases hcause
    · obtain ⟨cause, hcause⟩ := readNumeral_of_unreadable h
      rw [hcause]
      exact ⟨cause, rfl⟩

/-- Digits on both sides of a colon are two numbers, or some of them are unreadable. -/
theorem readRegion_digits (ha : isNumeral a = true) (hb : isNumeral b = true) :
    (∃ o l, Writes a o ∧ Writes b l ∧ readRegion (a ++ ':' :: b) = .ok (o, l)) ∨
    ((Unreadable a ∨ Unreadable b) ∧
      ∃ cause, readRegion (a ++ ':' :: b) = .error (.numeral cause)) := by
  by_cases hbad : Unreadable a ∨ Unreadable b
  · exact Or.inr ⟨hbad, readRegion_of_unreadable ha hb hbad⟩
  · obtain ⟨hfirst, hsecond⟩ := not_or.mp hbad
    obtain ⟨o, ho⟩ := (writes_or_unreadable ha).resolve_right hfirst
    obtain ⟨l, hl⟩ := (writes_or_unreadable hb).resolve_right hsecond
    exact Or.inl ⟨o, l, ho, hl, readRegion_of_writes ho hl⟩

/-- **Every text is digits on both sides of a colon, or is rejected.** -/
theorem readRegion_cases (t : Text) :
    (∃ a b, t = a ++ ':' :: b ∧ isNumeral a = true ∧ isNumeral b = true) ∨
      readRegion t = .error (.badFormat t) := by
  by_cases hcolon : ':' ∈ t
  · obtain ⟨a, b, rfl, ha⟩ := List.eq_append_cons_of_mem hcolon
    rw [readRegion_append ha]
    cases hdigits : isNumeral a && isNumeral b with
    | true => exact Or.inl ⟨a, b, rfl, Bool.and_eq_true_iff.mp hdigits⟩
    | false => exact Or.inr rfl
  · exact Or.inr (readRegion_whole hcolon)

/-- **A text is accepted as a region if it is two numbers with a colon between them.** -/
theorem readRegion_ok_iff {o l : Nat} : readRegion t = .ok (o, l) ↔
    ∃ a b, t = a ++ ':' :: b ∧ Writes a o ∧ Writes b l := by
  refine ⟨fun h => ?_, fun ⟨a, b, ht, ha, hb⟩ => ht ▸ readRegion_of_writes ha hb⟩
  rcases readRegion_cases t with ⟨a, b, rfl, ha, hb⟩ | e
  · rcases readRegion_digits ha hb with ⟨o', l', ho, hl, e⟩ | ⟨-, cause, e⟩
    · obtain ⟨rfl, rfl⟩ := Prod.mk.inj (Except.ok.inj (e.symm.trans h))
      exact ⟨a, b, rfl, ho, hl⟩
    · cases e.symm.trans h
  · cases e.symm.trans h

theorem readRegion_numeral_iff : (∃ cause, readRegion t = .error (.numeral cause)) ↔
    ∃ a b, t = a ++ ':' :: b ∧ isNumeral a = true ∧ isNumeral b = true ∧
      (Unreadable a ∨ Unreadable b) := by
  refine ⟨fun ⟨cause, h⟩ => ?_, fun ⟨a, b, ht, ha, hb, hbad⟩ =>
    ht ▸ readRegion_of_unreadable ha hb hbad⟩
  rcases readRegion_cases t with ⟨a, b, rfl, ha, hb⟩ | e
  · rcases readRegion_digits ha hb with ⟨_, _, -, -, e⟩ | ⟨hbad, -⟩
    · cases e.symm.trans h
    · exact ⟨a, b, rfl, ha, hb, hbad⟩
  · cases e.symm.trans h

/-- **A text is rejected as a region if it is not digits on both sides of a colon.** -/
theorem readRegion_badFormat_iff {u : Text} : readRegion t = .error (.badFormat u) ↔
    u = t ∧ ¬ ∃ a b, t = a ++ ':' :: b ∧ isNumeral a = true ∧ isNumeral b = true := by
  have hdigits : ∀ a b, t = a ++ ':' :: b → isNumeral a = true → isNumeral b = true →
      ∀ u, readRegion t ≠ .error (.badFormat u) := by
    rintro a b rfl ha hb u h
    rcases readRegion_digits ha hb with ⟨_, _, -, -, e⟩ | ⟨-, _, e⟩ <;> cases e.symm.trans h
  constructor
  · intro h
    rcases readRegion_cases t with ⟨a, b, ht, ha, hb⟩ | e
    · exact absurd h (hdigits a b ht ha hb u)
    · refine ⟨(RegionTextError.badFormat.inj (Except.error.inj (e.symm.trans h))).symm, ?_⟩
      exact fun ⟨a, b, ht, ha, hb⟩ => hdigits a b ht ha hb u h
  · rintro ⟨rfl, hnone⟩
    exact (readRegion_cases u).resolve_left hnone

/-! ## 4. Texts of settings -/

/-- **What becomes of a text that is read as an indent or as a region.** As an indent it is accepted if
    it names a unit, which is then a tab or at least one space; as a region if it is two numbers with a
    colon between them. Apart from a width that the machine has no memory for, what is not accepted is
    rejected, unless it has digits in the place of a number and they write none: then reading fails. -/
theorem readIndent_readRegion_iff (machine : Machine) (t : Text) :
    ((∀ unit, readIndent machine (.text t) = .ok unit ↔
        NamesUnit machine t unit ∧ (unit = ['\t'] ∨ ∃ k, 1 ≤ k ∧ unit = List.replicate k ' ')) ∧
      ((∃ cause, readIndent machine (.text t) = .error (.rejected cause)) ↔
        ¬ ((∃ unit, NamesUnit machine t unit) ∨ Unreadable t ∨ ∃ n, Writes t n ∧ machine.memory ≤ n)) ∧
      ((∃ cause, readIndent machine (.text t) = .error (.numeral cause)) ↔ Unreadable t) ∧
      ((∃ cause, readIndent machine (.text t) = .error (.tooWide cause)) ↔
        ∃ n, Writes t n ∧ machine.memory ≤ n)) ∧
    ((∀ offset length, readRegion t = .ok (offset, length) ↔
        ∃ a b, t = a ++ ':' :: b ∧ Writes a offset ∧ Writes b length) ∧
      (∀ u, readRegion t = .error (.badFormat u) ↔
        u = t ∧ ¬ ∃ a b, t = a ++ ':' :: b ∧ isNumeral a = true ∧ isNumeral b = true) ∧
      ((∃ cause, readRegion t = .error (.numeral cause)) ↔
        ∃ a b, t = a ++ ':' :: b ∧ isNumeral a = true ∧ isNumeral b = true ∧
          (Unreadable a ∨ Unreadable b))) :=
  ⟨⟨fun _ => ⟨fun h => ⟨readIndentText_ok_iff.mp h, readIndent_unit h⟩,
      fun h => readIndentText_ok_iff.mpr h.1⟩,
    readIndentText_rejected_iff, readIndentText_numeral_iff, readIndentText_tooWide_iff⟩,
  fun _ _ => readRegion_ok_iff, fun _ => readRegion_badFormat_iff, readRegion_numeral_iff⟩

/-- **Digits that write no number are neither accepted nor rejected**: a superscript is a digit and forms
    no numbers. A run that is asked for it ends without a status. -/
theorem readIndent_superscript :
    readIndent .small (.text ['\u00B2']) = .error (.numeral (.notDecimal ['\u00B2'])) ∧
    readRegion ['\u00B2', ':', '1'] = .error (.numeral (.notDecimal ['\u00B2'])) ∧
    Command.run .small { tree := {} } (["--indent", "\u00B2", "-"].map String.toList) =
      ({ tree := {} }, .escaped (.numeral (.notDecimal ['\u00B2']))) :=
  ⟨rfl, rfl, rfl⟩

end RebecaLayout
