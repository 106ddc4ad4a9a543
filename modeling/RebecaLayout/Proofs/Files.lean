import RebecaLayout.FileTree

/-!
**Reading and writing files.**

* `decodeText?_eq_some_iff` -- bytes that decode to a text are the ones that encode it;
* `FileTree.fileAt?_put` -- a write changes one file;
* `FileTree.SameShape` -- the same directories, and files at the same places: **every path leads
  where it led**, and reads the same if the file there holds the same;
* `FileTree.write_of_read` -- what can be read can be written; `FileTree.write_cases` -- whatever is
  written, the path decides whether it can be;
* `FileTree.Kept` -- the same shape, and the same files are texts: `FileTree.kept_put`, so it stays
  if a text is written in place of a text.
-/

namespace RebecaLayout

/-! ## 1. Texts as bytes -/

theorem decodeText?_encodeText (t : Text) : decodeText? (encodeText t) = some t := by
  have hvalid : (encodeText t).IsValidUTF8 := (String.ofList t).isValidUTF8
  have hstring : String.fromUTF8 (encodeText t) hvalid = String.ofList t := rfl
  rw [decodeText?, String.fromUTF8?, dif_pos hvalid, hstring, Option.map_some, String.toList_ofList]

/-- **Bytes that decode to a text are the ones that encode it.** -/
theorem decodeText?_eq_some_iff {bytes : ByteArray} {t : Text} :
    decodeText? bytes = some t ↔ bytes = encodeText t := by
  constructor
  · intro h
    obtain ⟨string, hstring, rfl⟩ := Option.map_eq_some_iff.mp h
    rw [encodeText, String.ofList_toList]
    unfold String.fromUTF8? at hstring
    split at hstring
    · rw [← Option.some.inj hstring]
      rfl
    · cases hstring
  · rintro rfl
    exact decodeText?_encodeText t

theorem encodeText_inj {t u : Text} : encodeText t = encodeText u ↔ t = u := by
  constructor
  · intro h
    have hdecode := decodeText?_encodeText t
    rw [h, decodeText?_encodeText] at hdecode
    exact (Option.some.inj hdecode).symm
  · exact congrArg encodeText

namespace FileTree

variable {tree tree' : FileTree} {path : Path} {place : Place} {content : ByteArray}

/-! ## 2. One write -/

theorem lookup_replace (files : List (Place × ByteArray)) (place other : Place)
    (content : ByteArray) :
    (files.map fun f => if f.1 == place then (place, content) else f).lookup other =
      if other = place then (files.lookup place).map fun _ => content else files.lookup other := by
  induction files with
  | nil => split <;> rfl
  | cons f files ih =>
    obtain ⟨name, old⟩ := f
    by_cases hname : name = place
    · subst hname
      by_cases hother : other = name
      · simp [hother]
      · have hne : (other == name) = false := beq_eq_false_iff_ne.mpr hother
        simpa [List.lookup_cons, hne, hother] using ih
    · by_cases hother : other = name
      · simp [hother, hname]
      · have hne : (other == name) = false := beq_eq_false_iff_ne.mpr hother
        have hplace : (place == name) = false := beq_eq_false_iff_ne.mpr (Ne.symm hname)
        simpa [List.lookup_cons, hname, hne, hplace] using ih

/-- **A write changes one file.** -/
theorem fileAt?_put (tree : FileTree) (place : Place) (content : ByteArray) (other : Place) :
    (tree.put place content).fileAt? other =
      if other = place then some content else tree.fileAt? other := by
  unfold put
  cases hfile : tree.fileAt? place with
  | some old =>
    rw [fileAt?] at hfile
    rw [if_pos (Option.isSome_some), fileAt?, lookup_replace, hfile]
    rfl
  | none =>
    rw [fileAt?] at hfile
    rw [if_neg (by simp), fileAt?, List.lookup_append]
    by_cases hother : other = place
    · simp [hother, hfile]
    · have hne : (other == place) = false := beq_eq_false_iff_ne.mpr hother
      simp [List.lookup_cons, hne, hother, fileAt?]

theorem directories_put (tree : FileTree) (place : Place) (content : ByteArray) :
    (tree.put place content).directories = tree.directories := by
  unfold put
  split <;> rfl

/-! ## 3. Trees of one shape -/

/-- The same directories, and files at the same places. -/
structure SameShape (tree tree' : FileTree) : Prop where
  directories : tree'.directories = tree.directories
  files : ∀ place, (tree'.fileAt? place).isSome = (tree.fileAt? place).isSome

theorem SameShape.isDirectory (h : SameShape tree tree') (place : Place) :
    tree'.isDirectory place = tree.isDirectory place := by
  rw [FileTree.isDirectory, h.directories]
  rfl

theorem SameShape.follow (h : SameShape tree tree') (place : Place) (names : List Text) :
    tree'.follow place names = tree.follow place names := by
  induction names generalizing place with
  | nil => rfl
  | cons name rest ih =>
    rw [FileTree.follow, FileTree.follow, h.isDirectory, h.files, ih, ih]

/-- **A path leads where it led.** -/
theorem SameShape.locate (h : SameShape tree tree') (path : Path) :
    tree'.locate path = tree.locate path := by
  rw [FileTree.locate, FileTree.locate, h.follow]

/-- A path reads the same if the file that it leads to holds the same. -/
theorem SameShape.read (h : SameShape tree tree')
    (hsame : ∀ place, tree.locate path = .ok place → tree'.fileAt? place = tree.fileAt? place) :
    tree'.read path = tree.read path := by
  unfold FileTree.read
  rw [h.locate]
  cases hplace : tree.locate path with
  | error problem => rfl
  | ok place =>
    change (if tree'.isDirectory place then _ else _) = (if tree.isDirectory place then _ else _)
    rw [h.isDirectory, hsame place hplace]

/-! ## 4. What is read -/

theorem read_eq_ok_iff : tree.read path = .ok content ↔
    ∃ place, tree.locate path = .ok place ∧ tree.isDirectory place = false ∧
      tree.fileAt? place = some content := by
  unfold read
  cases tree.locate path with
  | error problem => simp [bind, Except.bind]
  | ok place =>
    change (if tree.isDirectory place then _ else _) = Except.ok content ↔ _
    cases hdirectory : tree.isDirectory place with
    | true => simp [hdirectory]
    | false => cases hfile : tree.fileAt? place <;> simp [hdirectory, hfile]

/-- The file that a path leads to, if it can be read. -/
theorem fileAt?_of_read (hplace : tree.locate path = .ok place)
    (h : tree.read path = .ok content) :
    tree.isDirectory place = false ∧ tree.fileAt? place = some content := by
  obtain ⟨place', hplace', hfile⟩ := read_eq_ok_iff.mp h
  obtain rfl : place = place' := Except.ok.inj (hplace.symm.trans hplace')
  exact hfile

/-- **What can be read can be written.** -/
theorem write_of_read (hplace : tree.locate path = .ok place) (h : tree.read path = .ok content)
    (new : ByteArray) : tree.write path new = .ok (tree.put place new) := by
  rw [write, hplace]
  change (if tree.isDirectory place then _ else _) = _
  rw [(fileAt?_of_read hplace h).1]
  rfl

theorem follow_error {problem : Problem} (names : List Text)
    (h : tree.follow place names = .error problem) : problem ≠ .nullCharacter := by
  induction names generalizing place with
  | nil => cases h
  | cons name rest ih =>
    unfold follow at h
    split at h
    · split at h
      · exact ih h
      split at h
      · cases h
        decide
      · exact ih h
    · split at h <;> cases h <;> decide

/-- A path without null characters fails to be read for a reason that has a number. -/
theorem code?_of_read {problem : Problem} (hpath : '\x00' ∉ path.shown)
    (h : tree.read path = .error problem) : problem.code?.isSome = true := by
  have hnull : problem ≠ .nullCharacter := by
    unfold read at h
    cases hplace : tree.locate path with
    | error cause =>
      rw [hplace] at h
      obtain rfl : cause = problem := Except.error.inj h
      unfold locate at hplace
      rw [if_neg (by simpa using hpath)] at hplace
      split at hplace
      · cases hplace
        decide
      · exact follow_error _ hplace
    | ok place =>
      rw [hplace] at h
      change (if tree.isDirectory place then _ else _) = _ at h
      split at h
      · cases h
        decide
      · split at h <;> cases h
        decide
  cases problem with
  | nullCharacter => exact absurd rfl hnull
  | _ => rfl

/-! ## 5. Trees that keep their texts -/

/-- **A path that could not be read cannot be read**, and for the same reason. -/
theorem SameShape.read_error (h : SameShape tree tree') {problem : Problem}
    (hread : tree.read path = .error problem) : tree'.read path = .error problem := by
  unfold FileTree.read at hread ⊢
  rw [h.locate]
  cases hplace : tree.locate path with
  | error cause =>
    rw [hplace] at hread
    exact hread
  | ok place =>
    rw [hplace] at hread
    change (if tree.isDirectory place then _ else _) = _ at hread
    show (if tree'.isDirectory place then _ else _) = _
    rw [h.isDirectory]
    cases hdirectory : tree.isDirectory place with
    | true =>
      rw [hdirectory] at hread
      exact hread
    | false =>
      rw [hdirectory, if_neg Bool.false_ne_true] at hread
      rw [if_neg Bool.false_ne_true]
      have hfile := h.files place
      cases hold : tree.fileAt? place with
      | some content =>
        rw [hold] at hread
        cases hread
      | none =>
        rw [hold] at hread hfile
        rw [Option.isNone_iff_eq_none.mp (Option.isSome_eq_false_iff.mp hfile)]
        exact hread

theorem SameShape.symm (h : SameShape tree tree') : SameShape tree' tree :=
  ⟨h.directories.symm, fun place => (h.files place).symm⟩

/-- Whether a file can be written does not depend on what is written. -/
theorem write_cases (tree : FileTree) (path : Path) :
    (∃ problem, ∀ content, tree.write path content = .error problem) ∨
      ∀ content, ∃ tree', tree.write path content = .ok tree' := by
  cases hplace : tree.locate path with
  | error problem =>
    refine Or.inl ⟨problem, fun content => ?_⟩
    rw [write, hplace]
    rfl
  | ok place =>
    have hwrite : ∀ content, tree.write path content =
        if tree.isDirectory place then .error .isDirectory else .ok (tree.put place content) := by
      intro content
      rw [write, hplace]
      rfl
    cases hdirectory : tree.isDirectory place with
    | true =>
      refine Or.inl ⟨.isDirectory, fun content => ?_⟩
      rw [hwrite, hdirectory, if_pos rfl]
    | false =>
      refine Or.inr fun content => ⟨tree.put place content, ?_⟩
      rw [hwrite, hdirectory, if_neg Bool.false_ne_true]

/-- The same directories, files at the same places, and the same of them texts. -/
structure Kept (tree tree' : FileTree) : Prop extends SameShape tree tree' where
  texts : ∀ place, ((tree'.fileAt? place).bind decodeText?).isSome =
    ((tree.fileAt? place).bind decodeText?).isSome

theorem Kept.refl (tree : FileTree) : Kept tree tree := ⟨⟨rfl, fun _ => rfl⟩, fun _ => rfl⟩

theorem Kept.trans {tree'' : FileTree} (h : Kept tree tree') (h' : Kept tree' tree'') :
    Kept tree tree'' :=
  ⟨⟨h'.directories.trans h.directories, fun place => (h'.files place).trans (h.files place)⟩,
    fun place => (h'.texts place).trans (h.texts place)⟩

/-- A text in place of a text. -/
theorem kept_put {t u : Text} (h : tree.fileAt? place = some (encodeText t)) :
    Kept tree (tree.put place (encodeText u)) := by
  refine ⟨⟨tree.directories_put place _, fun other => ?_⟩, fun other => ?_⟩
  · rw [fileAt?_put]
    split
    · next e => rw [e, h]; rfl
    · rfl
  · rw [fileAt?_put]
    split
    · next e =>
      rw [e, h, Option.bind_some, Option.bind_some, decodeText?_encodeText, decodeText?_encodeText]
      rfl
    · rfl

theorem Kept.symm (h : Kept tree tree') : Kept tree' tree :=
  ⟨h.toSameShape.symm, fun place => (h.texts place).symm⟩

/-- A path that led to no text leads to none. -/
theorem Kept.no_text (h : Kept tree tree') (hread : tree.read path = .ok content)
    (hcontent : decodeText? content = none) :
    ∃ content', tree'.read path = .ok content' ∧ decodeText? content' = none := by
  obtain ⟨place, hplace, hdirectory, hfile⟩ := read_eq_ok_iff.mp hread
  have hsome := h.files place
  have htext := h.texts place
  rw [hfile] at hsome htext
  obtain ⟨content', hfile'⟩ := Option.isSome_iff_exists.mp hsome
  rw [hfile', Option.bind_some, Option.bind_some, hcontent] at htext
  refine ⟨content', read_eq_ok_iff.mpr ⟨place, ?_, ?_, hfile'⟩, Option.isNone_iff_eq_none.mp ?_⟩
  · rw [h.locate, hplace]
  · rw [h.isDirectory, hdirectory]
  · exact Option.isSome_eq_false_iff.mp htext

end FileTree

/-- One problem is none of the file system. -/
theorem code?_eq_none_iff {problem : Problem} :
    problem.code? = none ↔ problem = .nullCharacter := by
  cases problem <;> simp [Problem.code?]

end RebecaLayout
