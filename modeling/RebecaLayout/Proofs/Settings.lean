import RebecaLayout.Command.Options
import RebecaLayout.Proofs.Lines

/-!
**The options that a run ends up with.**

* `readIndent_unit`, `readNewline_lineEnd` -- what is accepted as a setting: a tab or at least one
  space, and one of the three terminators;
* `chosen_read` -- a setting that is chosen was read from a value;
* `Command.resolve_settings` -- so a layout can use the settings of every run;
* `Command.resolve_flags` -- **whether a run checks or rewrites decides nothing else**;
* `Command.Sound`, `Command.resolve_sound` -- what the checks make of the options: a region or an
  output goes with one input, and what is rewritten is a file.
-/

namespace RebecaLayout

/-! ## 1. Settings -/

variable {machine : Machine}

theorem unitOfWidth_spaces {width : Int} {unit : Text}
    (h : unitOfWidth machine width = .ok unit) : ∃ k, 1 ≤ k ∧ unit = List.replicate k ' ' := by
  unfold unitOfWidth at h
  split at h
  · cases h
  split at h
  · cases h
  · exact ⟨width.toNat, by omega, (Except.ok.inj h).symm⟩

theorem readIndentText_unit {t unit : Text} (h : readIndentText machine t = .ok unit) :
    unit = ['\t'] ∨ ∃ k, 1 ≤ k ∧ unit = List.replicate k ' ' := by
  unfold readIndentText at h
  split at h
  · exact Or.inl (Except.ok.inj h).symm
  split at h
  · split at h
    · exact Or.inr (unitOfWidth_spaces h)
    · cases h
  split at h
  · next hspaces =>
    obtain ⟨hne, hall⟩ : t ≠ [] ∧ ∀ c ∈ t, c = ' ' := by simpa using hspaces
    rw [← Except.ok.inj h]
    exact Or.inr ⟨t.length, List.length_pos_iff.mpr hne, List.eq_replicate_iff.mpr ⟨rfl, hall⟩⟩
  · cases h

/-- **An accepted indent is a tab or at least one space.** -/
theorem readIndent_unit {v : Value} {unit : Text} (h : readIndent machine v = .ok unit) :
    unit = ['\t'] ∨ ∃ k, 1 ≤ k ∧ unit = List.replicate k ' ' := by
  unfold readIndent at h
  split at h
  · exact Or.inr (unitOfWidth_spaces h)
  · exact readIndentText_unit h
  · cases h

theorem lineEnd_of_terminators : ∀ entry ∈ terminators, LineEnd entry.2 := by
  intro entry hentry
  simp only [terminators, List.mem_cons, List.not_mem_nil, or_false] at hentry
  rcases hentry with rfl | rfl | rfl
  · exact .feed
  · exact .returnFeed
  · exact .carriageReturn

/-- **An accepted terminator is one of the three.** -/
theorem readNewline_lineEnd {v : Value} {nl? : Option Text} (h : readNewline v = .ok nl?) :
    ∀ nl ∈ nl?, LineEnd nl := by
  unfold readNewline at h
  split at h
  · next t =>
    dsimp only at h
    split at h
    · rw [← Except.ok.inj h]
      exact fun nl hnl => by cases hnl
    split at h
    · next terminator hfound =>
      rw [← Except.ok.inj h]
      intro nl hnl
      obtain ⟨before, behind, hlist, -⟩ := List.lookup_eq_some_iff.mp hfound
      have hentry := lineEnd_of_terminators _ (hlist ▸ List.mem_append_right _ List.mem_cons_self)
      exact Option.some.inj hnl ▸ hentry
    · cases h
  · cases h

namespace Command

variable {args : Arguments} {options : Options} {inputs : List Path} {tree : FileTree}
  {entries : Document.Entries} {origin : Path}

/-- What succeeds after something else has succeeded. -/
theorem bind_eq_ok {ε α β : Type} {x : Except ε α} {f : α → Except ε β} {b : β}
    (h : (x >>= f) = .ok b) : ∃ a, x = .ok a ∧ f a = .ok b := by
  cases x with
  | error cause => cases h
  | ok a => exact ⟨a, rfl, h⟩

/-- A setting that is chosen was read from a value. -/
theorem chosen_read {α : Type} {readSetting : Value → Except SettingError α} {name : Text}
    {flag : Option Value} {a? : Option α}
    (h : chosen readSetting entries origin name flag = .ok a?) :
    ∀ a ∈ a?, ∃ v, readSetting v = .ok a := by
  have hread : ∀ {v : Value} {a' : α}, readSetting v = .ok a' →
      ∀ a ∈ some a', ∃ v, readSetting v = .ok a := fun {v} _ hv a ha =>
    ⟨v, hv.trans (congrArg _ (Option.some.inj ha))⟩
  unfold chosen at h
  obtain ⟨v?, -, h⟩ := bind_eq_ok h
  dsimp only at h
  cases flag with
  | none =>
    split at h
    · rw [← Except.ok.inj h]
      exact fun a ha => by cases ha
    · split at h
      · next a' hv => exact Except.ok.inj h ▸ hread hv
      · cases h
  | some v =>
    -- what the document gives is read, and then the flag wins
    have hflag : ∃ a', readSetting v = .ok a' ∧ a? = some a' := by
      cases hv : readSetting v with
      | ok a' =>
        simp only [hv] at h
        split at h
        · exact ⟨a', rfl, (Except.ok.inj h).symm⟩
        · split at h
          · exact ⟨a', rfl, (Except.ok.inj h).symm⟩
          · cases h
      | error cause =>
        simp only [hv] at h
        split at h
        · cases h
        · split at h <;> cases h
    obtain ⟨a', hv, rfl⟩ := hflag
    exact hread hv

/-! ## 2. Options -/

/-- Settings that a layout can use. -/
structure Usable (options : Options) : Prop where
  indent : ∀ u ∈ options.indent, ∀ c ∈ u, Text.isBlank c = true
  newline : ∀ nl ∈ options.newline, LineEnd nl

theorem merge_settings (h : merge machine args inputs entries origin = .ok options) :
    options.inputs = inputs ∧ Usable options := by
  unfold merge at h
  obtain ⟨dialect, -, h⟩ := bind_eq_ok h
  obtain ⟨indent, hindent, h⟩ := bind_eq_ok h
  obtain ⟨newline, hnewline, h⟩ := bind_eq_ok h
  obtain ⟨region, -, h⟩ := bind_eq_ok h
  rw [← Except.ok.inj h]
  refine ⟨rfl, ?_, ?_⟩
  · intro u hu
    obtain ⟨v, hv⟩ := chosen_read hindent u hu
    exact blank_of_unit (readIndent_unit hv)
  · intro nl hnl
    obtain ⟨v, hv⟩ := chosen_read hnewline (some nl) (Option.join_eq_some_iff.mp hnl)
    exact readNewline_lineEnd hv nl rfl

theorem resolve_settings (h : resolve machine tree args = .ok options) :
    options.inputs = args.inputs.map Path.ofText ∧ Usable options := by
  unfold resolve at h
  dsimp only at h
  split at h
  · cases h
  · obtain ⟨entries, -, hmerge⟩ := bind_eq_ok h
    exact merge_settings hmerge

/-- What is merged but the two flags does not depend on them. -/
theorem merge_flags (check inPlace : Bool) :
    merge machine { args with check, inPlace } inputs entries origin =
      (merge machine args inputs entries origin).map fun options =>
        { options with check, inPlace } := by
  unfold merge
  dsimp only
  cases chosen readDialect entries origin "dialect".toList ((given? args.dialect).map Value.text) with
  | error cause => rfl
  | ok dialect =>
  cases chosen (readIndent machine) entries origin "indent".toList args.indent with
  | error cause => rfl
  | ok indent =>
  cases chosen readNewline entries origin "newline".toList args.newline with
  | error cause => rfl
  | ok newline =>
  cases chosenRegion (given? args.region) <;> rfl

theorem conflict?_flags (h : standardInput ∉ inputs) (check inPlace : Bool) :
    conflict? { args with check, inPlace } inputs = conflict? args inputs := by
  have hcontains : inputs.contains standardInput = false := by simpa using h
  simp only [conflict?, hcontains, Bool.and_false]

/-- **Whether a run over files checks or rewrites decides nothing else.** -/
theorem resolve_flags (h : standardInput ∉ args.inputs.map Path.ofText) (check inPlace : Bool) :
    resolve machine tree { args with check, inPlace } =
      (resolve machine tree args).map fun options => { options with check, inPlace } := by
  unfold resolve
  dsimp only
  rw [conflict?_flags h]
  cases conflict? args (args.inputs.map Path.ofText) with
  | some cause => rfl
  | none =>
    change (loadConfig machine tree (configPath args (args.inputs.map Path.ofText)) >>= _) = _
    cases loadConfig machine tree (configPath args (args.inputs.map Path.ofText)) with
    | error cause => rfl
    | ok entries => exact merge_flags check inPlace

/-! ## 3. Requests that go together -/

/-- What holds of the options of every run. -/
structure Sound (options : Options) : Prop where
  indent : ∀ u ∈ options.indent, u = ['\t'] ∨ ∃ k, 1 ≤ k ∧ u = List.replicate k ' '
  newline : ∀ nl ∈ options.newline, LineEnd nl
  /-- A region or an output goes with one input. -/
  several : (options.region = none ∧ options.output = none) ∨ options.inputs.length ≤ 1
  /-- What is rewritten is a file. -/
  file : options.inPlace = true → standardInput ∉ options.inputs

theorem conflict?_eq_none {args : Arguments} (h : conflict? args inputs = none) :
    ((given? args.region = none ∧ given? args.output = none) ∨ inputs.length ≤ 1) ∧
      (args.inPlace = true → standardInput ∉ inputs) := by
  unfold conflict? at h
  dsimp only at h
  split at h
  · cases h
  split at h
  · cases h
  split at h
  · cases h
  next houtput hregion hfile =>
    refine ⟨?_, fun hinPlace hstdin => hfile ?_⟩
    · by_cases hsingle : inputs.length ≤ 1
      · exact Or.inr hsingle
      · simp only [decide_eq_true (Nat.lt_of_not_le hsingle), Bool.and_true, Bool.not_eq_true,
          Option.isSome_eq_false_iff, Option.isNone_iff_eq_none] at houtput hregion
        exact Or.inl ⟨hregion, houtput⟩
    · rw [hinPlace, Bool.true_and, List.contains_iff_mem]
      exact hstdin

/-- **Options that are resolved are sound.** -/
theorem resolve_sound {tree : FileTree} {args : Arguments}
    (h : resolve machine tree args = .ok options) : Sound options := by
  have husable := (resolve_settings h).2
  unfold resolve at h
  dsimp only at h
  split at h
  · cases h
  next hconflict =>
    obtain ⟨hseveral, hfile⟩ := conflict?_eq_none hconflict
    obtain ⟨entries, -, h⟩ := bind_eq_ok h
    unfold merge at h
    obtain ⟨dialect, -, h⟩ := bind_eq_ok h
    obtain ⟨indent, hindent, h⟩ := bind_eq_ok h
    obtain ⟨newline, -, h⟩ := bind_eq_ok h
    obtain ⟨region, hregion, h⟩ := bind_eq_ok h
    obtain rfl := Except.ok.inj h
    refine ⟨fun u hu => ?_, husable.newline, hseveral.imp_left fun hnone => ⟨?_, ?_⟩, hfile⟩
    · obtain ⟨v, hv⟩ := chosen_read hindent u hu
      exact readIndent_unit hv
    · rw [hnone.1] at hregion
      exact (Except.ok.inj hregion).symm
    · rw [hnone.2]
      rfl

end Command

end RebecaLayout
