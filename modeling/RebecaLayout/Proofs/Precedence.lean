import RebecaLayout.Proofs.Files
import RebecaLayout.Proofs.Settings

/-!
Where settings come from, and who is to blame for a bad one.

* `Setting` -- the settings that both a document and the command line can give;
* `stated`, `Setting.flag` -- what the document gives and what the command line gives;
* `Offer`, `offers` -- all values that are given, in the order in which they are read: **the
  document's before the flag's**, and each with the document that it stands in;
* `Takes`, `Prevails` -- a setting is the flag's, else the document's, else open;
* `chosen_cases`, `merge_merged`, `resolve_resolved` -- what can come of one setting, of all of them
  and of a run's arguments;
* `Listed` -- what holds of the dialect flag at every word of a command line;
* `resolve_precedence` -- so **a flag wins, but no bad value of the document passes, and what is
  blamed on the document is its own**.
-/

namespace RebecaLayout.Command

variable {args : Arguments} {options : Options} {inputs : List Path} {tree : FileTree}
  {entries : Document.Entries} {origin : Path} {machine : Machine}

/-! ## 1. Settings -/

/-- A setting that both a document and the command line can give. -/
inductive Setting where
  | dialect
  | indent
  | newline
  deriving DecidableEq, Repr

/-- Why a value is refused, if it is. -/
def refused? {α : Type} : Except SettingError α → Option SettingError
  | .ok _ => none
  | .error cause => some cause

namespace Setting

/-- The settings in the order in which they are read. -/
def all : List Setting := [dialect, indent, newline]

/-- The name of a setting in a document. -/
def name : Setting → Text
  | dialect => "dialect".toList
  | indent => "indent".toList
  | newline => "newline".toList

/-- What the command line gives for a setting. -/
def flag (args : Arguments) : Setting → Option Value
  | dialect => (given? args.dialect).map Value.text
  | indent => args.indent
  | newline => args.newline

/-- Why a value is refused as a setting, if it is. -/
def refusal? (machine : Machine) : Setting → Value → Option SettingError
  | dialect, v => refused? (readDialect v)
  | indent, v => refused? (readIndent machine v)
  | newline, v => refused? (readNewline v)

end Setting

/-- Whether the section of settings, if there is one, is a table. -/
def sectionFits (entries : Document.Entries) : Bool :=
  match valueOf entries "format".toList with
  | none | some (.table _) => true
  | some _ => false

/-- What a document gives for the setting with a name. -/
def stated (entries : Document.Entries) (name : Text) : Option Value :=
  match valueOf entries "format".toList with
  | some (.table settings) => valueOf settings name
  | _ => none

theorem documentSetting_eq (entries : Document.Entries) (origin : Path) (name : Text) :
    documentSetting entries origin name = if sectionFits entries then .ok (stated entries name)
      else .error (.rejected .sectionNotTable (some origin)) := by
  unfold documentSetting sectionFits stated
  cases valueOf entries "format".toList with
  | none => rfl
  | some v => cases v <;> rfl

/-! ## 2. Offers -/

/-- A value that is given for a setting, and the document it stands in if it is no flag's. -/
structure Offer where
  setting : Setting
  value : Value
  place : Option Path

/-- Why an offer is refused, if it is. -/
def Offer.refusal? (machine : Machine) (o : Offer) : Option SettingError :=
  o.setting.refusal? machine o.value

/-- What is given for a setting: by the document, then by the flag. -/
def Setting.offers (args : Arguments) (entries : Document.Entries) (origin : Path) (s : Setting) :
    List Offer :=
  ((stated entries s.name).map fun v => ⟨s, v, some origin⟩).toList ++
    ((s.flag args).map fun v => ⟨s, v, none⟩).toList

/-- All values that are given, in the order in which they are read. -/
def offers (args : Arguments) (entries : Document.Entries) (origin : Path) : List Offer :=
  Setting.all.flatMap (Setting.offers args entries origin)

/-- The error of the first of some offers that is refused. -/
def blame? (machine : Machine) (os : List Offer) : Option ResolveError :=
  os.findSome? fun o => (o.refusal? machine).map (.ofSetting o.place)

theorem blame?_append (a b : List Offer) :
    blame? machine (a ++ b) = (blame? machine a).or (blame? machine b) :=
  List.findSome?_append

theorem Setting.blame?_offers (s : Setting) : blame? machine (s.offers args entries origin) =
    ((stated entries s.name).bind fun v => (s.refusal? machine v).map (.ofSetting (some origin))).or
      ((s.flag args).bind fun v => (s.refusal? machine v).map (.ofSetting none)) := by
  unfold Setting.offers
  rw [blame?_append]
  congr 1
  · cases stated entries s.name <;> simp [blame?, Offer.refusal?]
  · cases s.flag args <;> simp [blame?, Offer.refusal?]

/-- What a setting becomes: **what the flag says, else what the document says, else nothing.** -/
inductive Takes {α : Type} (readSetting : Value → Except SettingError α)
    (flag document : Option Value) : Option α → Prop
  | flag {v : Value} {a : α} (hv : flag = some v) (ha : readSetting v = .ok a) :
    Takes readSetting flag document (some a)
  | document {v : Value} {a : α} (hflag : flag = none) (hv : document = some v)
    (ha : readSetting v = .ok a) : Takes readSetting flag document (some a)
  | neither (hflag : flag = none) (hdocument : document = none) :
    Takes readSetting flag document none

/-- What a setting becomes is decided. -/
theorem Takes.unique {α : Type} {readSetting : Value → Except SettingError α}
    {flag document : Option Value} {a? b? : Option α} (ha : Takes readSetting flag document a?)
    (hb : Takes readSetting flag document b?) : a? = b? := by
  cases ha <;> cases hb <;> simp_all

/-- **One setting**: the first of its offers that is refused is to blame, and if none is, the flag's
    wins. -/
theorem chosen_cases {α : Type} {readSetting : Value → Except SettingError α} (args : Arguments)
    (origin : Path) (s : Setting) (hread : ∀ v, s.refusal? machine v = refused? (readSetting v))
    (hfits : sectionFits entries = true) :
    (∃ e, blame? machine (s.offers args entries origin) = some e ∧
      chosen readSetting entries origin s.name (s.flag args) = .error e) ∨
    (blame? machine (s.offers args entries origin) = none ∧
      ∃ a?, chosen readSetting entries origin s.name (s.flag args) = .ok a? ∧
        Takes readSetting (s.flag args) (stated entries s.name) a?) := by
  unfold chosen
  rw [documentSetting_eq, if_pos hfits, Setting.blame?_offers]
  simp only [hread]
  cases hdocument : stated entries s.name with
  | none =>
    cases hflag : s.flag args with
    | none => exact Or.inr ⟨rfl, none, rfl, .neither rfl rfl⟩
    | some v =>
      cases hv : readSetting v with
      | ok a => exact Or.inr ⟨by simp [hv, refused?], some a, by simp [hv]; rfl, .flag rfl hv⟩
      | error cause =>
        exact Or.inl ⟨.ofSetting none cause, by simp [hv, refused?], by simp [hv]; rfl⟩
  | some w =>
    dsimp only [bind, Except.bind]
    cases hw : readSetting w with
    | error cause =>
      -- whatever the flag says
      exact Or.inl ⟨.ofSetting (some origin) cause, by simp [hw, refused?], rfl⟩
    | ok b =>
      cases hflag : s.flag args with
      | none => exact Or.inr ⟨by simp [hw, refused?], some b, rfl, .document rfl rfl hw⟩
      | some v =>
        cases hv : readSetting v with
        | ok a => exact Or.inr ⟨by simp [hw, hv, refused?], some a, by simp [hv]; rfl, .flag rfl hv⟩
        | error cause =>
          exact Or.inl ⟨.ofSetting none cause, by simp [hw, hv, refused?], by simp [hv]; rfl⟩

/-! ## 3. All settings -/

/-- **What the settings become, each from its own flag and its own entry.** -/
structure Prevails (machine : Machine) (args : Arguments) (entries : Document.Entries)
    (options : Options) : Prop where
  dialect : Takes readDialect (Setting.dialect.flag args) (stated entries Setting.dialect.name)
    options.dialect
  indent : Takes (readIndent machine) (Setting.indent.flag args) (stated entries Setting.indent.name)
    options.indent
  /-- A setting that leaves the terminator open is as good as none. -/
  newline : ∃ nl?, Takes readNewline (Setting.newline.flag args)
    (stated entries Setting.newline.name) nl? ∧ options.newline = nl?.join

/-- What comes of merging: the section is no table, an offer is refused, the region cannot be read,
    or there are options. -/
inductive Merged (machine : Machine) (args : Arguments) (entries : Document.Entries) (origin : Path) :
    Except ResolveError Options → Prop
  | unfit (hfits : sectionFits entries = false) :
    Merged machine args entries origin (.error (.rejected .sectionNotTable (some origin)))
  | refused {e : ResolveError} (hfits : sectionFits entries = true)
    (hblame : blame? machine (offers args entries origin) = some e) :
    Merged machine args entries origin (.error e)
  | badRegion {e : ResolveError} (hfits : sectionFits entries = true)
    (hblame : blame? machine (offers args entries origin) = none)
    (hregion : chosenRegion (given? args.region) = .error e) :
    Merged machine args entries origin (.error e)
  | settled {region : Option (Nat × Nat)} {options : Options} (hfits : sectionFits entries = true)
    (hblame : blame? machine (offers args entries origin) = none)
    (hregion : chosenRegion (given? args.region) = .ok region)
    (hprevails : Prevails machine args entries options) :
    Merged machine args entries origin (.ok options)

theorem blame?_offers : blame? machine (offers args entries origin) =
    (blame? machine (Setting.dialect.offers args entries origin)).or
      ((blame? machine (Setting.indent.offers args entries origin)).or
        (blame? machine (Setting.newline.offers args entries origin))) := by
  simp [offers, Setting.all, blame?_append]

/-- The settings are read one after the other. -/
theorem merge_eq : merge machine args inputs entries origin = do
    let dialect ← chosen readDialect entries origin Setting.dialect.name (Setting.dialect.flag args)
    let indent ← chosen (readIndent machine) entries origin Setting.indent.name
      (Setting.indent.flag args)
    let newline ← chosen readNewline entries origin Setting.newline.name (Setting.newline.flag args)
    let region ← chosenRegion (given? args.region)
    return {
      inputs
      output := (given? args.output).map Path.ofText
      inPlace := args.inPlace
      check := args.check
      dialect
      indent
      newline := newline.join
      region
      debug := args.debug } := rfl

theorem merge_merged :
    Merged machine args entries origin (merge machine args inputs entries origin) := by
  rw [merge_eq]
  cases hfits : sectionFits entries with
  | false =>
    have hchosen : chosen readDialect entries origin Setting.dialect.name
        (Setting.dialect.flag args) = .error (.rejected .sectionNotTable (some origin)) := by
      unfold chosen
      rw [documentSetting_eq, hfits]
      rfl
    rw [hchosen]
    exact .unfit hfits
  | true =>
    obtain ⟨e, hd, hdialect⟩ | ⟨hd, dialect, hdialect, htakesDialect⟩ :=
      chosen_cases args origin Setting.dialect (fun _ => rfl) hfits
    · rw [hdialect]
      exact .refused hfits (by rw [blame?_offers, hd]; rfl)
    obtain ⟨e, hi, hindent⟩ | ⟨hi, indent, hindent, htakesIndent⟩ :=
      chosen_cases args origin Setting.indent (fun _ => rfl) hfits
    · rw [hdialect, hindent]
      exact .refused hfits (by rw [blame?_offers, hd, hi]; rfl)
    obtain ⟨e, hn, hnewline⟩ | ⟨hn, newline, hnewline, htakesNewline⟩ :=
      chosen_cases args origin Setting.newline (fun _ => rfl) hfits
    · rw [hdialect, hindent, hnewline]
      exact .refused hfits (by rw [blame?_offers, hd, hi, hn]; rfl)
    have hblame : blame? machine (offers args entries origin) = none := by
      rw [blame?_offers, hd, hi, hn]
      rfl
    rw [hdialect, hindent, hnewline]
    cases hregion : chosenRegion (given? args.region) with
    | error e => exact .badRegion hfits hblame hregion
    | ok region =>
      exact .settled hfits hblame hregion ⟨htakesDialect, htakesIndent, newline, htakesNewline, rfl⟩

namespace Merged

variable {r : Except ResolveError Options} (h : Merged machine args entries origin r)

include h

theorem eq_of_unfit (hunfit : sectionFits entries = false) :
    r = .error (.rejected .sectionNotTable (some origin)) := by
  cases h <;> simp_all

theorem eq_of_refused {e : ResolveError} (hfits : sectionFits entries = true)
    (hblame : blame? machine (offers args entries origin) = some e) : r = .error e := by
  cases h <;> simp_all

theorem exists_of_settled {region : Option (Nat × Nat)} (hfits : sectionFits entries = true)
    (hblame : blame? machine (offers args entries origin) = none)
    (hregion : chosenRegion (given? args.region) = .ok region) : ∃ options, r = .ok options := by
  cases h <;> simp_all

end Merged

/-! ## 4. Blame -/

theorem ResolveError.ofSetting_eq_rejected_iff {cause : SettingError} {rejection : Rejection}
    {place place' : Option Path} : ofSetting place cause = .rejected rejection place' ↔
      cause = .rejected rejection ∧ place = place' := by
  cases cause <;> simp [ofSetting]

theorem blame?_eq_none_iff {os : List Offer} :
    blame? machine os = none ↔ ∀ o ∈ os, o.refusal? machine = none := by
  simp [blame?]

/-- **The first offer that is refused is to blame.** -/
theorem blame?_eq_rejected_iff {os : List Offer} {cause : Rejection} {place : Option Path} :
    blame? machine os = some (.rejected cause place) ↔ ∃ before o behind, os = before ++ o :: behind ∧
      (∀ b ∈ before, b.refusal? machine = none) ∧ o.refusal? machine = some (.rejected cause) ∧
        o.place = place := by
  unfold blame?
  rw [List.findSome?_eq_some_iff]
  simp only [Option.map_eq_some_iff, Option.map_eq_none_iff, ResolveError.ofSetting_eq_rejected_iff]
  constructor
  · rintro ⟨before, o, behind, hos, ⟨cause, ho, rfl, hplace⟩, hbefore⟩
    exact ⟨before, o, behind, hos, hbefore, ho, hplace⟩
  · rintro ⟨before, o, behind, hos, hbefore, ho, hplace⟩
    exact ⟨before, o, behind, hos, ⟨_, ho, rfl, hplace⟩, hbefore⟩

/-- A bad region is blamed on no setting. -/
theorem chosenRegion_ne_rejected {t? : Option Text} {cause : Rejection} {place : Option Path} :
    chosenRegion t? ≠ .error (.rejected cause place) := by
  unfold chosenRegion
  split
  · simp
  · split <;> simp

/-- What is wrong with a document as such is blamed on the document. -/
theorem loadConfig_rejected {path : Path} {cause : Rejection} {place : Option Path}
    (h : loadConfig machine tree path = .error (.rejected cause place)) :
    (∃ fault, cause = .badDocument fault) ∧ place = some path := by
  unfold loadConfig at h
  split at h
  · cases h
  · cases h
  split at h
  · cases h
  split at h
  · cases h
  split at h
  · cases h
  · cases h
  · cases h
  · cases h
    exact ⟨⟨_, rfl⟩, rfl⟩

/-! ## 5. The whole -/

/-- The document of a run. -/
def documentPath (args : Arguments) : Path := configPath args (args.inputs.map Path.ofText)

/-- Whether requests exclude each other. -/
def atOdds? (args : Arguments) : Option Conflict := conflict? args (args.inputs.map Path.ofText)

/-- What comes of a run's arguments: they are at odds, the document cannot be loaded, or it is
    merged with them. -/
inductive Resolved (machine : Machine) (tree : FileTree) (args : Arguments) :
    Except ResolveError Options → Prop
  | atOdds {cause : Conflict} (hodds : atOdds? args = some cause) :
    Resolved machine tree args (.error (.conflict cause))
  | unloaded {e : ResolveError} (hodds : atOdds? args = none)
    (hload : loadConfig machine tree (documentPath args) = .error e) :
    Resolved machine tree args (.error e)
  | merged {entries : Document.Entries} {r : Except ResolveError Options}
    (hodds : atOdds? args = none) (hload : loadConfig machine tree (documentPath args) = .ok entries)
    (hmerged : Merged machine args entries (documentPath args) r) : Resolved machine tree args r

theorem resolve_eq (hodds : atOdds? args = none) : resolve machine tree args =
    loadConfig machine tree (documentPath args) >>= fun entries =>
      merge machine args (args.inputs.map Path.ofText) entries (documentPath args) := by
  unfold atOdds? at hodds
  simp only [resolve, hodds]
  rfl

theorem resolve_of_error {e : ResolveError} (hodds : atOdds? args = none)
    (hload : loadConfig machine tree (documentPath args) = .error e) :
    resolve machine tree args = .error e := by
  rw [resolve_eq hodds, hload]
  rfl

theorem resolve_of_ok (hodds : atOdds? args = none)
    (hload : loadConfig machine tree (documentPath args) = .ok entries) :
    resolve machine tree args =
      merge machine args (args.inputs.map Path.ofText) entries (documentPath args) := by
  rw [resolve_eq hodds, hload]
  rfl

theorem resolve_resolved (machine : Machine) (tree : FileTree) (args : Arguments) :
    Resolved machine tree args (resolve machine tree args) := by
  cases hodds : atOdds? args with
  | some cause =>
    have hconflict : resolve machine tree args = .error (.conflict cause) := by
      unfold atOdds? at hodds
      simp only [resolve, hodds]
    exact hconflict ▸ .atOdds hodds
  | none =>
    cases hload : loadConfig machine tree (documentPath args) with
    | error e => exact resolve_of_error hodds hload ▸ .unloaded hodds hload
    | ok entries => exact resolve_of_ok hodds hload ▸ .merged hodds hload merge_merged

/-- A document without a fault: it can be loaded, and no offer is refused, **not even one of the
    document that a flag overrides**. -/
structure Faultless (machine : Machine) (tree : FileTree) (args : Arguments)
    (entries : Document.Entries) : Prop where
  loaded : loadConfig machine tree (documentPath args) = .ok entries
  fits : sectionFits entries = true
  offers : ∀ o ∈ offers args entries (documentPath args), o.refusal? machine = none

/-- Who is to blame for what: the document if it is no document or has no table of settings, else
    **the place of the first offer that is refused**. -/
inductive Blamed (machine : Machine) (tree : FileTree) (args : Arguments) :
    Rejection → Option Path → Prop
  | document {fault : Document.Fault}
    (hload : loadConfig machine tree (documentPath args) =
      .error (.rejected (.badDocument fault) (some (documentPath args)))) :
    Blamed machine tree args (.badDocument fault) (some (documentPath args))
  | unfit {entries : Document.Entries}
    (hload : loadConfig machine tree (documentPath args) = .ok entries)
    (hfits : sectionFits entries = false) :
    Blamed machine tree args .sectionNotTable (some (documentPath args))
  | offer {entries : Document.Entries} {before behind : List Offer} {o : Offer} {cause : Rejection}
    (hload : loadConfig machine tree (documentPath args) = .ok entries)
    (hfits : sectionFits entries = true)
    (hoffers : offers args entries (documentPath args) = before ++ o :: behind)
    (hbefore : ∀ b ∈ before, b.refusal? machine = none)
    (ho : o.refusal? machine = some (.rejected cause)) :
    Blamed machine tree args cause o.place

theorem resolve_prevails (h : resolve machine tree args = .ok options) :
    ∃ entries, Faultless machine tree args entries ∧ Prevails machine args entries options := by
  have hresolved := resolve_resolved machine tree args
  rw [h] at hresolved
  cases hresolved with
  | merged hodds hload hmerged =>
    cases hmerged with
    | settled hfits hblame hregion hprevails =>
      exact ⟨_, ⟨hload, hfits, blame?_eq_none_iff.mp hblame⟩, hprevails⟩

/-- Where nothing is wrong there are options. -/
theorem resolve_of_faultless {region : Option (Nat × Nat)} (hodds : atOdds? args = none)
    (hregion : chosenRegion (given? args.region) = .ok region)
    (h : Faultless machine tree args entries) :
    ∃ options, resolve machine tree args = .ok options := by
  rw [resolve_of_ok hodds h.loaded]
  exact merge_merged.exists_of_settled h.fits (blame?_eq_none_iff.mpr h.offers) hregion

theorem blamed_of_resolve {cause : Rejection} {place : Option Path}
    (h : resolve machine tree args = .error (.rejected cause place)) :
    atOdds? args = none ∧ Blamed machine tree args cause place := by
  have hresolved := resolve_resolved machine tree args
  rw [h] at hresolved
  cases hresolved with
  | unloaded hodds hload =>
    obtain ⟨⟨fault, rfl⟩, rfl⟩ := loadConfig_rejected hload
    exact ⟨hodds, .document hload⟩
  | merged hodds hload hmerged =>
    refine ⟨hodds, ?_⟩
    cases hmerged with
    | unfit hfits => exact .unfit hload hfits
    | refused hfits hblame =>
      obtain ⟨before, o, behind, hoffers, hbefore, ho, rfl⟩ := blame?_eq_rejected_iff.mp hblame
      exact .offer hload hfits hoffers hbefore ho
    | badRegion _ _ hregion => exact absurd hregion chosenRegion_ne_rejected

theorem resolve_of_blamed {cause : Rejection} {place : Option Path} (hodds : atOdds? args = none)
    (h : Blamed machine tree args cause place) :
    resolve machine tree args = .error (.rejected cause place) := by
  cases h with
  | document hload => exact resolve_of_error hodds hload
  | unfit hload hfits =>
    rw [resolve_of_ok hodds hload]
    exact merge_merged.eq_of_unfit hfits
  | offer hload hfits hoffers hbefore ho =>
    rw [resolve_of_ok hodds hload]
    exact merge_merged.eq_of_refused hfits
      (blame?_eq_rejected_iff.mpr ⟨_, _, _, hoffers, hbefore, ho, rfl⟩)

/-! ## 6. Flags that were read -/

/-- The dialect that is asked for is one of those that can be asked for. -/
def Listed (args : Arguments) : Prop := ∀ t ∈ args.dialect, t ∈ Flag.dialect.choices

namespace Listed

variable {args' : Arguments}

theorem act {given : Given} (h : args.act given = .ok args') (hargs : Listed args) :
    Listed args' := by
  obtain ⟨flag, given⟩ := given
  unfold Arguments.act at h
  dsimp only at h
  split at h
  · cases h
  next hchoice =>
    cases flag with
    | help => cases h
    | dialect =>
      obtain rfl := Except.ok.inj h
      intro t ht
      have hvalue : (given.filter fun t => t != ['-', '-']) = some t := ht
      rw [hvalue] at hchoice
      simpa [Flag.choices, or_iff_not_imp_left] using hchoice
    | _ =>
      obtain rfl := Except.ok.inj h
      exact hargs

theorem actAll {givens : List Given} (h : args.actAll givens = .ok args') (hargs : Listed args) :
    Listed args' := by
  induction givens generalizing args with
  | nil => exact Except.ok.inj h ▸ hargs
  | cons given rest ih =>
    obtain ⟨next, hnext, hrest⟩ := bind_eq_ok h
    exact ih hrest (act hnext hargs)

theorem takeOptions {r r' : Reading} {givens : List Given} (h : r.takeOptions givens = .ok r')
    (hargs : Listed r.args) : Listed r'.args := by
  unfold Reading.takeOptions at h
  cases hall : r.args.actAll givens with
  | error halt => rw [hall] at h; cases h
  | ok next =>
    rw [hall] at h
    exact Except.ok.inj h ▸ actAll hall hargs

theorem endGroup {r : Reading} (hargs : Listed r.args) : Listed r.endGroup.args := by
  unfold Reading.endGroup
  split <;> exact hargs

theorem takePlain {r : Reading} (t : Text) (hargs : Listed r.args) :
    Listed (r.takePlain t).args := by
  unfold Reading.takePlain
  split <;> exact hargs

theorem takeSeparator {r : Reading} (hargs : Listed r.args) : Listed r.takeSeparator.args := by
  unfold Reading.takeSeparator
  split <;> exact hargs

theorem readAll {r r' : Reading} {words : List Word} (h : r.readAll words = .ok r')
    (hargs : Listed r.args) : Listed r'.args := by
  fun_induction Reading.readAll r words with
  | case1 r => exact Except.ok.inj h ▸ hargs
  | case2 r t rest ih => exact ih h (hargs.takePlain t)
  | case3 r rest ih => exact ih h hargs.takeSeparator
  | case4 r t rest ih => exact ih h hargs.endGroup
  | case5 => cases h
  | case6 r flag short attached rest givens hgivens hneeds ih =>
    obtain ⟨next, hnext, hrest⟩ := bind_eq_ok h
    exact ih next hrest (takeOptions hnext hargs.endGroup)
  | case7 r flag short attached givens hgivens last t rest hneeds ih =>
    obtain ⟨next, hnext, hrest⟩ := bind_eq_ok h
    exact ih next hrest (takeOptions hnext hargs.endGroup)
  | case8 => cases h

theorem ofWords {words : List Text} (h : Arguments.ofWords words = .ok args) : Listed args := by
  unfold Arguments.ofWords at h
  split at h
  · cases h
  · obtain ⟨r, hr, h⟩ := bind_eq_ok h
    have hlisted : Listed r.args := readAll hr (fun t ht => by cases ht)
    split at h
    · cases h
    split at h
    · exact Except.ok.inj h ▸ hlisted
    · cases h

/-- What is asked for is not empty, so it is given. -/
theorem flag_dialect (h : Listed args) :
    Setting.dialect.flag args = args.dialect.map Value.text := by
  have hgiven : given? args.dialect = args.dialect := by
    cases ht : args.dialect with
    | none => rfl
    | some t =>
      have hne : ∀ t ∈ Flag.dialect.choices, (!t.isEmpty) = true := by simp [Flag.choices]
      exact Option.filter_some_pos (hne t (h t ht))
  exact congrArg (Option.map Value.text) hgiven

end Listed

/-! ## 7. The order of precedence -/

/-- **A flag wins over the document, no bad value of the document passes, and the document is blamed
    for what is wrong with the document and for nothing else.** A dialect flag that was read is
    always given. -/
theorem resolve_precedence (machine : Machine) (tree : FileTree) (args : Arguments) :
    (∀ options, resolve machine tree args = .ok options →
      ∃ entries, Faultless machine tree args entries ∧ Prevails machine args entries options) ∧
    (∀ entries region, atOdds? args = none → chosenRegion (given? args.region) = .ok region →
      Faultless machine tree args entries → ∃ options, resolve machine tree args = .ok options) ∧
    (∀ cause place, resolve machine tree args = .error (.rejected cause place) ↔
      atOdds? args = none ∧ Blamed machine tree args cause place) ∧
    ∀ words, Arguments.ofWords words = .ok args →
      Setting.dialect.flag args = args.dialect.map Value.text := by
  refine ⟨fun options => resolve_prevails, fun entries region => resolve_of_faultless,
    fun cause place => ⟨blamed_of_resolve, ?_⟩,
    fun words hwords => (Listed.ofWords hwords).flag_dialect⟩
  rintro ⟨hodds, hblamed⟩
  exact resolve_of_blamed hodds hblamed

/-- A document and nothing else. -/
def lone (document : Text) : FileTree where
  files := [([configName], encodeText document)]

/-- The arguments that ask for an indent. -/
def indenting (unit : Text) : Arguments where
  inputs := [['m']]
  indent := some (.text unit)

theorem loadConfig_lone {t : Text} (unit : Text) 
    (hread : Document.read machine.nesting t = .ok entries) :
    loadConfig machine (lone t) (documentPath (indenting unit)) = .ok entries := by
  have hfile : (lone t).hasFile (documentPath (indenting unit)) = .ok true := rfl
  have hcontent : (lone t).read (documentPath (indenting unit)) = .ok (encodeText t) := rfl
  simp only [loadConfig, hfile, hcontent, decodeText?_encodeText, hread]

/-- The document's indent is overridden; a bad flag is the flag's fault; the same bad value in the
    document is the document's, although it is overridden. -/
theorem resolve_precedence_indent :
    (∃ options, resolve .small (lone "[format]\nindent=3\nnewline='lf'".toList)
        (indenting "tab".toList) = .ok options ∧
      options.dialect = none ∧ options.indent = some ['\t'] ∧ options.newline = some ['\n']) ∧
    resolve .small (lone "[format]\nindent=3\nnewline='lf'".toList) (indenting ['x']) =
      .error (.rejected (.badIndentText ['x']) none) ∧
    resolve .small (lone "[format]\nindent='x'".toList) (indenting "tab".toList) =
      .error (.rejected (.badIndentText ['x']) (some (.ofText configName))) := by
  -- a literal is unfolded byte by byte, so the reader is given the characters themselves
  have hgood : Document.read Machine.small.nesting "[format]\nindent=3\nnewline='lf'".toList =
      .ok [("format".toList,
        .table [("indent".toList, .int 3), ("newline".toList, .text "lf".toList)])] := by
    have hchars : "[format]\nindent=3\nnewline='lf'".toList =
        ['[', 'f', 'o', 'r', 'm', 'a', 't', ']', '\n', 'i', 'n', 'd', 'e', 'n', 't', '=', '3',
          '\n', 'n', 'e', 'w', 'l', 'i', 'n', 'e', '=', '\x27', 'l', 'f', '\x27'] := by
      decide +kernel
    rw [hchars]
    rfl
  have hbad : Document.read Machine.small.nesting "[format]\nindent='x'".toList =
      .ok [("format".toList, .table [("indent".toList, .text ['x'])])] := by
    have hchars : "[format]\nindent='x'".toList =
        ['[', 'f', 'o', 'r', 'm', 'a', 't', ']', '\n', 'i', 'n', 'd', 'e', 'n', 't', '=',
          '\x27', 'x', '\x27'] := by
      decide +kernel
    rw [hchars]
    rfl
  refine ⟨?_, ?_, ?_⟩
  · have hload := loadConfig_lone "tab".toList hgood
    obtain ⟨options, hoptions⟩ := (resolve_precedence _ _ _).2.1 _ none rfl rfl
      ⟨hload, rfl, blame?_eq_none_iff.mp rfl⟩
    obtain ⟨entries, hfaultless, hprevails⟩ := (resolve_precedence _ _ _).1 options hoptions
    obtain rfl := Except.ok.inj (hload.symm.trans hfaultless.loaded)
    obtain ⟨nl?, hnl, hnewline⟩ := hprevails.newline
    refine ⟨options, hoptions, hprevails.dialect.unique (.neither rfl rfl),
      hprevails.indent.unique (.flag rfl rfl), hnewline.trans ?_⟩
    rw [hnl.unique (.document rfl rfl rfl)]
    rfl
  · have hbefore : ∀ o ∈ [Offer.mk .indent (.int 3) (some (.ofText configName))],
        o.refusal? .small = none := List.forall_mem_singleton.mpr rfl
    have ho : (Offer.mk .indent (.text ['x']) none).refusal? .small =
        some (.rejected (.badIndentText ['x'])) := rfl
    exact ((resolve_precedence _ _ _).2.2.1 _ _).mpr
      ⟨rfl, .offer (loadConfig_lone ['x'] hgood) rfl (by rfl) hbefore ho⟩
  · have ho : (Offer.mk .indent (.text ['x']) (some (.ofText configName))).refusal? .small =
        some (.rejected (.badIndentText ['x'])) := rfl
    exact ((resolve_precedence _ _ _).2.2.1 _ _).mpr
      ⟨rfl, .offer (loadConfig_lone "tab".toList hbad) rfl (by rfl) (List.forall_mem_nil _) ho⟩

end RebecaLayout.Command
