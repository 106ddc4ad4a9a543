import RebecaLayout.Proofs.Spacing

/-!
Block comments laid out again. Their lines are indented anew, and **nothing of that ends the comment
earlier or later**.

* `relaid` -- a comment as it is written;
* `splitLines_relaid`, `trimmedLines_relaid` -- its lines, and that only blanks at their edges differ;
* `infix_relaid`, `closed_relaid` -- it holds a `*/` where the comment does;
* `commentLines_eq`, `trimEnd_relaid` -- what is written depends on the trimmed lines alone, and on
  the layout at the end of the comment not at all.
-/

namespace RebecaLayout

variable {style : Style} {depth : Nat} {x y line : Text}

/-- A comment as it is written. -/
def relaid (style : Style) (depth : Nat) (x : Text) : Text :=
  style.terminator.intercalate (commentLines style depth x)

/-! ## 1. Lines -/

theorem commentLines_cons {first : Text} {further : List Text}
    (h : Text.splitLines x = first :: further) : commentLines style depth x =
      Text.trimEnd Text.isBlank first :: further.map (furtherLine style depth) := by
  simp only [commentLines, h]

/-- A further line is its trimmed content behind blanks. -/
theorem furtherLine_eq (ho : style.Orderly) (depth : Nat) (line : Text) :
    ∃ lead : Text, (∀ c ∈ lead, Text.isBlank c = true) ∧
      furtherLine style depth line = lead ++ Text.trim Text.isBlank line := by
  unfold furtherLine
  dsimp only
  split
  · rename_i hnil
    exact ⟨[], by simp, (List.isEmpty_iff.mp hnil).symm⟩
  · refine ⟨Text.times style.unit depth ++ _, ?_, (List.append_assoc ..).symm⟩
    intro c hc
    rcases List.mem_append.mp hc with hc | hc
    · exact ho.blank_indent depth c hc
    · split at hc
      · rw [List.mem_singleton.mp hc]
        rfl
      · cases hc

theorem furtherLine_oneLine (ho : style.Orderly) (depth : Nat) (h : Text.OneLine line) :
    Text.OneLine (furtherLine style depth line) := by
  obtain ⟨lead, hlead, e⟩ := furtherLine_eq ho depth line
  have hblank : Text.OneLine lead := by
    intro c hc
    rcases Text.isBlank_iff.mp (hlead c hc) with rfl | rfl <;> rfl
  rw [e]
  exact hblank.append (h.trim Text.isBlank)

theorem commentLines_oneLine (ho : style.Orderly) (depth : Nat) (x : Text) :
    ∀ line ∈ commentLines style depth x, Text.OneLine line := by
  obtain ⟨first, further, e⟩ := Text.exists_splitLines x
  rw [commentLines_cons e]
  intro line hline
  rcases List.mem_cons.mp hline with rfl | hline
  · exact (Text.oneLine_of_mem_splitLines (e ▸ List.mem_cons_self)).trimEnd _
  · obtain ⟨source, hsource, rfl⟩ := List.mem_map.mp hline
    exact furtherLine_oneLine ho depth
      (Text.oneLine_of_mem_splitLines (e ▸ List.mem_cons_of_mem first hsource))

/-- The lines of a comment as it is written. -/
theorem splitLines_relaid (ho : style.Orderly) (depth : Nat) (x : Text) :
    Text.splitLines (relaid style depth x) = commentLines style depth x := by
  refine Text.splitLines_intercalate ho.terminator _ ?_ (commentLines_oneLine ho depth x)
  obtain ⟨first, further, e⟩ := Text.exists_splitLines x
  rw [commentLines_cons e]
  exact List.cons_ne_nil _ _

theorem trim_furtherLine (ho : style.Orderly) (depth : Nat) (line : Text) :
    Text.trim Text.isBlank (furtherLine style depth line) = Text.trim Text.isBlank line := by
  obtain ⟨lead, hlead, e⟩ := furtherLine_eq ho depth line
  rw [e, Text.trim_append_of_all hlead, Text.trim_trim]

/-- **Only blanks at the edges of lines differ.** -/
theorem trimmedLines_relaid (ho : style.Orderly) (depth : Nat) (x : Text) :
    Text.trimmedLines (relaid style depth x) = Text.trimmedLines x := by
  obtain ⟨first, further, e⟩ := Text.exists_splitLines x
  unfold Text.trimmedLines
  rw [splitLines_relaid ho, commentLines_cons e, e]
  simp only [Text.trimmed, List.map_map]
  rw [Text.trimEnd_trimEnd]
  congr 1
  exact List.map_congr_left fun line _ => trim_furtherLine ho depth line

/-- The first two characters open the comment and stay. -/
theorem relaid_open (style : Style) (depth : Nat) (x : Text) :
    relaid style depth ('/' :: '*' :: x) = '/' :: '*' :: relaid style depth x := by
  obtain ⟨first, further, e⟩ := Text.exists_splitLines x
  have hopen : Text.splitLines ('/' :: '*' :: x) = ('/' :: '*' :: first) :: further := by
    rw [Text.splitLines_cons rfl, Text.splitLines_cons rfl, e]
    rfl
  have htrim : Text.trimEnd Text.isBlank ('/' :: '*' :: first) =
      '/' :: '*' :: Text.trimEnd Text.isBlank first := by
    rw [Text.trimEnd_cons rfl, Text.trimEnd_cons rfl]
  unfold relaid
  rw [commentLines_cons hopen, commentLines_cons e, htrim, Text.intercalate_cons,
    Text.intercalate_cons]
  rfl

/-! ## 2. Where comments end -/

/-- What begins with a character that the start of a text lacks stands behind that start. -/
theorem infix_append_left {c : Char} {a b : Text} (ha : c ∉ a) :
    c :: y <:+: a ++ b ↔ c :: y <:+: b := by
  induction a with
  | nil => rfl
  | cons d a ih =>
    have hne : c ≠ d := fun e => ha (e ▸ List.mem_cons_self)
    have ih' := ih fun hc => ha (List.mem_cons_of_mem d hc)
    rw [List.cons_append, List.infix_cons_iff, ih']
    constructor
    · intro h
      rcases h with h | h
      · exact absurd (List.cons_prefix_cons.mp h).1 hne
      · exact h
    · exact Or.inr

/-- What ends with a character that the end of a text lacks stands before that end. -/
theorem infix_append_right {c : Char} {a b : Text} (hb : c ∉ b) :
    y ++ [c] <:+: a ++ b ↔ y ++ [c] <:+: a := by
  have hreverse : (y ++ [c]).reverse = c :: y.reverse := by
    rw [List.reverse_append, List.reverse_singleton, List.singleton_append]
  rw [← List.reverse_infix, hreverse, List.reverse_append,
    infix_append_left (fun hc => hb (List.mem_reverse.mp hc)), ← hreverse, List.reverse_infix]

theorem not_mem_of_blank {c : Char} {a : Text} (hc : Text.isBlank c = false)
    (ha : ∀ x ∈ a, Text.isBlank x = true) : c ∉ a := by
  intro hm
  rw [ha c hm] at hc
  cases hc

/-- Trimming blanks keeps every `*/`. -/
theorem infix_trim (line : Text) :
    ['*', '/'] <:+: Text.trim Text.isBlank line ↔ ['*', '/'] <:+: line := by
  have hstart : line = line.takeWhile Text.isBlank ++ Text.trimStart Text.isBlank line :=
    List.takeWhile_append_dropWhile.symm
  obtain ⟨rest, hend, hrest⟩ := Text.trimEnd_decomp Text.isBlank (Text.trimStart Text.isBlank line)
  have hlead : '*' ∉ line.takeWhile Text.isBlank :=
    not_mem_of_blank rfl fun c hc => List.mem_takeWhile_imp hc
  have htail : '/' ∉ rest := not_mem_of_blank rfl hrest
  conv_rhs => rw [hstart, infix_append_left hlead, hend]
  exact (infix_append_right (y := ['*']) htail).symm

theorem infix_trimEnd (line : Text) :
    ['*', '/'] <:+: Text.trimEnd Text.isBlank line ↔ ['*', '/'] <:+: line := by
  obtain ⟨rest, hend, hrest⟩ := Text.trimEnd_decomp Text.isBlank line
  conv_rhs => rw [hend]
  exact (infix_append_right (y := ['*']) (not_mem_of_blank rfl hrest)).symm

theorem infix_furtherLine (ho : style.Orderly) (depth : Nat) (line : Text) :
    ['*', '/'] <:+: furtherLine style depth line ↔ ['*', '/'] <:+: line := by
  obtain ⟨lead, hlead, e⟩ := furtherLine_eq ho depth line
  rw [e, infix_append_left (not_mem_of_blank rfl hlead), infix_trim]

/-- **A comment as it is written holds a `*/` exactly if the comment does.** -/
theorem infix_relaid (ho : style.Orderly) (depth : Nat) (x : Text) :
    ['*', '/'] <:+: relaid style depth x ↔ ['*', '/'] <:+: x := by
  have hone : Text.OneLine ['*', '/'] := by
    intro c hc
    rcases List.mem_pair.mp hc with rfl | rfl <;> rfl
  obtain ⟨first, further, e⟩ := Text.exists_splitLines x
  rw [Text.infix_iff_splitLines hone (by simp), Text.infix_iff_splitLines hone (by simp),
    splitLines_relaid ho, commentLines_cons e, e]
  simp only [List.exists_mem_cons_iff, List.mem_map, exists_exists_and_eq_and, infix_trimEnd,
    infix_furtherLine ho]

theorem trimStart_append {s : Text} (hs : ∀ c ∈ s.head?, Text.isBlank c = false) (line : Text) :
    Text.trimStart Text.isBlank (line ++ s) = Text.trimStart Text.isBlank line ++ s := by
  have hkeep : s.dropWhile Text.isBlank = s := by
    cases s with
    | nil => rfl
    | cons c s => rw [List.dropWhile_cons_of_neg (by simp [hs c rfl])]
  unfold Text.trimStart
  rw [List.dropWhile_append]
  split
  · rename_i hnil
    rw [List.isEmpty_iff.mp hnil, hkeep, List.nil_append]
  · rfl

/-- A further line that ends with `*/` is written as the line without its slash is, and the slash. -/
theorem furtherLine_close (style : Style) (depth : Nat) (line : Text) :
    ∃ w, furtherLine style depth (line ++ ['*']) = w ++ ['*'] ∧
      furtherLine style depth (line ++ ['*', '/']) = w ++ ['*', '/'] := by
  have hopen : Text.trim Text.isBlank (line ++ ['*']) =
      Text.trimStart Text.isBlank line ++ ['*'] := by
    rw [Text.trim, trimStart_append (by simp [Text.isBlank]),
      Text.trimEnd_eq_self (by simp [Text.isBlank])]
  have hclosed : Text.trim Text.isBlank (line ++ ['*', '/']) =
      Text.trimStart Text.isBlank line ++ ['*', '/'] := by
    rw [Text.trim, trimStart_append (by simp [Text.isBlank]),
      Text.trimEnd_eq_self (by simp [Text.isBlank])]
  have hhead : (Text.trimStart Text.isBlank line ++ ['*', '/']).head? =
      (Text.trimStart Text.isBlank line ++ ['*']).head? := by
    rw [List.head?_append, List.head?_append]
    rfl
  refine ⟨Text.times style.unit depth ++
    ((if (Text.trimStart Text.isBlank line ++ ['*']).head? == some '*' then [' '] else []) ++
      Text.trimStart Text.isBlank line), ?_, ?_⟩
  · simp only [furtherLine, hopen]
    rw [if_neg (by simp)]
    simp only [List.append_assoc]
  · simp only [furtherLine, hclosed, hhead]
    rw [if_neg (by simp)]
    simp only [List.append_assoc]

/-- What ends with `*/` is written as the text without its slash is, and the slash. -/
theorem relaid_close (style : Style) (depth : Nat) (y : Text) :
    ∃ w, relaid style depth (y ++ ['*']) = w ++ ['*'] ∧
      relaid style depth (y ++ ['*', '/']) = w ++ ['*', '/'] := by
  obtain ⟨init, line, e⟩ := Text.exists_lastLine y
  have hopen : Text.splitLines (y ++ ['*']) = init ++ [line ++ ['*']] := by
    rw [Text.splitLines_concat_of_not rfl, e, Text.growLast_concat]
  have hclosed : Text.splitLines (y ++ ['*', '/']) = init ++ [line ++ ['*', '/']] := by
    have hsplit : y ++ ['*', '/'] = y ++ ['*'] ++ ['/'] := by simp
    rw [hsplit, Text.splitLines_concat_of_not rfl, hopen, Text.growLast_concat]
    simp
  unfold relaid
  cases init with
  | nil =>
    refine ⟨line, ?_, ?_⟩
    · rw [commentLines_cons hopen, Text.trimEnd_eq_self (by simp [Text.isBlank])]
      simp
    · rw [commentLines_cons hclosed, Text.trimEnd_eq_self (by simp [Text.isBlank])]
      simp
  | cons first init =>
    rw [List.cons_append] at hopen hclosed
    obtain ⟨w, ew, ew'⟩ := furtherLine_close style depth line
    refine ⟨style.terminator.intercalate
      (Text.trimEnd Text.isBlank first :: init.map (furtherLine style depth)) ++
        (style.terminator ++ w), ?_, ?_⟩
    · rw [commentLines_cons hopen, List.map_append, List.map_singleton, ew, Text.intercalate_cons,
        Text.intercalate_cons, List.flatMap_append]
      simp
    · rw [commentLines_cons hclosed, List.map_append, List.map_singleton, ew', Text.intercalate_cons,
        Text.intercalate_cons, List.flatMap_append]
      simp

/-- **A closed comment stays closed**, and at its end only. -/
theorem closed_relaid (ho : style.Orderly) (depth : Nat) (h : Closed x) :
    Closed (relaid style depth x) := by
  obtain ⟨y, rfl, hy⟩ := h
  obtain ⟨w, eopen, eclosed⟩ := relaid_close style depth y
  refine ⟨w, eclosed, fun hi => hy ?_⟩
  rw [← eopen, infix_relaid ho] at hi
  exact hi

/-! ## 3. What is written depends on the trimmed lines -/

theorem furtherLine_trim (style : Style) (depth : Nat) (line : Text) :
    furtherLine style depth (Text.trim Text.isBlank line) = furtherLine style depth line := by
  simp only [furtherLine, Text.trim_trim]

/-- Lines that are trimmed already, as they are written. -/
def relaidLines (style : Style) (depth : Nat) : List Text → List Text
  | [] => []
  | first :: further => first :: further.map (furtherLine style depth)

theorem commentLines_eq (style : Style) (depth : Nat) (x : Text) :
    commentLines style depth x = relaidLines style depth (Text.trimmedLines x) := by
  obtain ⟨first, further, e⟩ := Text.exists_splitLines x
  rw [commentLines_cons e, Text.trimmedLines, e]
  simp only [Text.trimmed, relaidLines, List.map_map]
  congr 1
  exact List.map_congr_left fun line _ => (furtherLine_trim style depth line).symm

/-- Layout at the end of a comment is written as layout. -/
theorem trimEnd_relaid (ho : style.Orderly) (depth : Nat) (x : Text) :
    Text.trimEnd Text.isLayoutChar (relaid style depth (Text.trimEnd Text.isLayoutChar x)) =
      Text.trimEnd Text.isLayoutChar (relaid style depth x) := by
  obtain ⟨z, e, hz⟩ := Text.trimEnd_decomp Text.isLayoutChar x
  obtain ⟨n, en⟩ := Text.trimmedLines_append_layout hz (Text.trimEnd Text.isLayoutChar x)
  rw [← e] at en
  have hnil : furtherLine style depth [] = [] := rfl
  obtain ⟨first, further, es⟩ : ∃ first further,
      Text.trimmedLines (Text.trimEnd Text.isLayoutChar x) = first :: further := by
    obtain ⟨first, further, es⟩ := Text.exists_splitLines (Text.trimEnd Text.isLayoutChar x)
    exact ⟨_, _, by rw [Text.trimmedLines, es]; rfl⟩
  have hlines : relaid style depth x = relaid style depth (Text.trimEnd Text.isLayoutChar x) ++
      (List.replicate n ([] : Text)).flatMap (style.terminator ++ ·) := by
    unfold relaid
    rw [commentLines_eq, commentLines_eq, en, es]
    simp only [List.cons_append, relaidLines, List.map_append, List.map_replicate, hnil]
    rw [Text.intercalate_cons, Text.intercalate_cons, List.flatMap_append, List.append_assoc]
  rw [hlines, Text.trimEnd_append_of_all]
  intro c hc
  obtain ⟨line, hline, hc⟩ := List.mem_flatMap.mp hc
  rw [List.eq_of_mem_replicate hline, List.append_nil] at hc
  exact ho.terminator.layout c hc

end RebecaLayout
