import Mathlib.Data.List.Infix
import RebecaLayout.Text.Lines
import RebecaLayout.Proofs.Trimming

/-!
The lines of a text.

* `LineEnd` -- the three terminators;
* `splitLines_intercalate` -- **lines joined by one terminator are split back into themselves**;
* `splitLines_concat` -- what one more character at the end does to the lines;
* `infix_iff_splitLines` -- what holds no terminator stands in a text exactly if it stands in one
  of its lines;
* `trimmedLines` -- the lines without blanks at their edges, the first only at its right one;
  **layout at the end of a text adds nothing but empty lines**.
-/

namespace RebecaLayout

/-- What ends a line: a line feed, a carriage return, or the two of them. -/
inductive LineEnd : Text → Prop
  | feed : LineEnd ['\n']
  | returnFeed : LineEnd ['\r', '\n']
  | carriageReturn : LineEnd ['\r']

namespace LineEnd

variable {nl : Text}

theorem ne_nil (h : LineEnd nl) : nl ≠ [] := by
  cases h <;> simp

theorem terminator (h : LineEnd nl) : ∀ c ∈ nl, Text.isTerminator c = true := by
  cases h <;> simp [Text.isTerminator]

theorem layout (h : LineEnd nl) : ∀ c ∈ nl, Text.isLayoutChar c = true :=
  fun c hc => Text.isLayoutChar_of_isTerminator (h.terminator c hc)

/-- A line end begins with a terminator. -/
theorem exists_head (h : LineEnd nl) : ∃ c rest, nl = c :: rest ∧ Text.isTerminator c = true := by
  cases h with
  | feed => exact ⟨'\n', [], rfl, rfl⟩
  | returnFeed => exact ⟨'\r', ['\n'], rfl, rfl⟩
  | carriageReturn => exact ⟨'\r', [], rfl, rfl⟩

theorem last_any (h : LineEnd nl) : nl.getLast?.any Text.isTerminator = true := by
  cases h <;> rfl

theorem last_not_blank (h : LineEnd nl) (t : Text) :
    ∀ c ∈ (t ++ nl).getLast?, Text.isBlank c = false := by
  cases h <;> intro c hc <;> simp at hc <;> subst hc <;> rfl

theorem eq_return (h : LineEnd nl) (hlast : nl.getLast? = some '\r') : nl = ['\r'] := by
  cases h with
  | carriageReturn => rfl
  | _ => cases hlast

end LineEnd

/-- What depth may be shown with is blank. -/
theorem blank_of_unit {unit : Text} (h : unit = ['\t'] ∨ ∃ k, 1 ≤ k ∧ unit = List.replicate k ' ') :
    ∀ c ∈ unit, Text.isBlank c = true := by
  rcases h with rfl | ⟨k, -, rfl⟩
  · simp [Text.isBlank]
  · intro c hc
    rw [List.eq_of_mem_replicate hc]
    rfl

theorem ne_nil_of_unit {unit : Text} (h : unit = ['\t'] ∨ ∃ k, 1 ≤ k ∧ unit = List.replicate k ' ') :
    unit ≠ [] := by
  rcases h with rfl | ⟨k, hk, rfl⟩
  · exact List.cons_ne_nil _ _
  · rw [ne_eq, List.replicate_eq_nil_iff]
    omega

namespace Text

variable {a b t nl : Text}

/-- A text without terminators. -/
def OneLine (t : Text) : Prop := ∀ c ∈ t, isTerminator c = false

theorem OneLine.append (ha : OneLine a) (hb : OneLine b) : OneLine (a ++ b) := by
  intro c hc
  rcases List.mem_append.mp hc with h | h
  · exact ha c h
  · exact hb c h

theorem OneLine.trimEnd (h : OneLine t) (p : Char → Bool) : OneLine (trimEnd p t) :=
  fun c hc => h c (mem_of_mem_trimEnd hc)

theorem OneLine.trim (h : OneLine t) (p : Char → Bool) : OneLine (trim p t) :=
  fun c hc => h c (mem_of_mem_trim hc)

/-! ## 1. Splitting -/

theorem splitLines_cons {c : Char} (h : isTerminator c = false) (t : Text) :
    splitLines (c :: t) = consFirst c (splitLines t) := by
  have hc : c ≠ '\r' := by rintro rfl; cases h
  rw [splitLines]
  · rw [if_neg (by simp [h])]
  · intro rest e
    exact absurd e hc

theorem splitLines_returnFeed (t : Text) :
    splitLines ('\r' :: '\n' :: t) = [] :: splitLines t := by
  rw [splitLines]

/-- A terminator ends a line, unless it is the first half of one. -/
theorem splitLines_terminator {c : Char} (h : isTerminator c = true)
    (ht : c = '\r' → t.head? ≠ some '\n') : splitLines (c :: t) = [] :: splitLines t := by
  rw [splitLines]
  · rw [if_pos h]
  · intro rest hc e
    exact ht hc (by rw [e]; rfl)

theorem consFirst_ne_nil (c : Char) (lines : List Text) : consFirst c lines ≠ [] := by
  cases lines <;> simp [consFirst]

theorem splitLines_ne_nil (t : Text) : splitLines t ≠ [] := by
  fun_cases splitLines t with
  | case1 => simp
  | case2 => simp
  | case3 => simp
  | case4 => exact consFirst_ne_nil _ _

/-- A text has a first line. -/
theorem exists_splitLines (t : Text) : ∃ first further, splitLines t = first :: further := by
  cases h : splitLines t with
  | nil => exact absurd h (splitLines_ne_nil t)
  | cons first further => exact ⟨first, further, rfl⟩

/-- The first line goes on until the first terminator. -/
theorem splitLines_first {first : Text} {further : List Text}
    (h : splitLines t = first :: further) : first = t.takeWhile fun c => !isTerminator c := by
  fun_induction splitLines t generalizing first further with
  | case1 => cases h; rfl
  | case2 rest => cases h; rfl
  | case3 c rest _ hc => cases h; simp [hc]
  | case4 c rest _ hc ih =>
    obtain ⟨line, lines, e⟩ := exists_splitLines rest
    rw [e] at h
    cases h
    rw [List.takeWhile_cons_of_pos (by simp [hc]), ← ih e]

theorem splitLines_append (ha : OneLine a) {first : Text} {further : List Text}
    (hb : splitLines b = first :: further) : splitLines (a ++ b) = (a ++ first) :: further := by
  induction a with
  | nil => exact hb
  | cons c a ih =>
    have hc := ha c List.mem_cons_self
    rw [List.cons_append, splitLines_cons hc, ih fun x hx => ha x (List.mem_cons_of_mem c hx)]
    rfl

theorem splitLines_oneLine (h : OneLine t) : splitLines t = [t] := by
  have hnil : splitLines [] = [[]] := rfl
  have := splitLines_append h hnil
  simpa using this

/-- No line holds a terminator. -/
theorem oneLine_of_mem_splitLines {line : Text} (h : line ∈ splitLines t) : OneLine line := by
  fun_induction splitLines t generalizing line with
  | case1 => simp at h; subst h; intro c hc; cases hc
  | case2 rest ih =>
    rcases List.mem_cons.mp h with rfl | h
    · intro c hc; cases hc
    · exact ih h
  | case3 c rest _ hc ih =>
    rcases List.mem_cons.mp h with rfl | h
    · intro c hc; cases hc
    · exact ih h
  | case4 c rest _ hc ih =>
    obtain ⟨first, further, e⟩ := exists_splitLines rest
    rw [e] at h ih
    rcases List.mem_cons.mp h with rfl | h
    · intro x hx
      rcases List.mem_cons.mp hx with rfl | hx
      · simpa using hc
      · exact ih List.mem_cons_self x hx
    · exact ih (List.mem_cons_of_mem _ h)

/-! ## 2. Joining -/

/-- A line end in front of a text ends an empty line. It must not be half of a pair. -/
theorem splitLines_lineEnd (h : LineEnd nl) (ht : nl = ['\r'] → t.head? ≠ some '\n') :
    splitLines (nl ++ t) = [] :: splitLines t := by
  cases h with
  | feed => exact splitLines_terminator rfl (fun e => absurd e (by decide))
  | returnFeed => exact splitLines_returnFeed t
  | carriageReturn => exact splitLines_terminator rfl (fun _ => ht rfl)

/-- Lines joined by a terminator do not begin with a line feed, unless that is the terminator. -/
theorem head_intercalate (h : LineEnd nl) {lines : List Text} (hl : ∀ l ∈ lines, OneLine l) :
    nl = ['\r'] → (nl.intercalate lines).head? ≠ some '\n' := by
  rintro rfl
  match lines with
  | [] => simp [List.intercalate]
  | [] :: [] => simp [List.intercalate]
  | [] :: _ :: _ => simp [List.intercalate]
  | (c :: line) :: rest =>
    have hc := hl (c :: line) List.mem_cons_self c List.mem_cons_self
    have hhead : (['\r'].intercalate ((c :: line) :: rest)).head? = some c := by
      cases rest <;> simp [List.intercalate]
    rw [hhead]
    intro e
    cases e
    cases hc

/-- Joined lines are the first of them and, each behind a terminator, the others. -/
theorem intercalate_cons (nl first : Text) (further : List Text) :
    nl.intercalate (first :: further) = first ++ further.flatMap (nl ++ ·) := by
  induction further generalizing first with
  | nil => simp
  | cons next further ih => rw [List.intercalate_cons_cons, ih]; simp

/-- **Lines joined by one terminator are split back into themselves.** -/
theorem splitLines_intercalate (h : LineEnd nl) : ∀ (lines : List Text), lines ≠ [] →
    (∀ l ∈ lines, OneLine l) → splitLines (nl.intercalate lines) = lines
  | [], hne, _ => absurd rfl hne
  | [line], _, hl => by
    have : nl.intercalate [line] = line := by simp [List.intercalate]
    rw [this]
    exact splitLines_oneLine (hl line List.mem_cons_self)
  | line :: next :: rest, _, hl => by
    have hrest : ∀ l ∈ next :: rest, OneLine l := fun l hm => hl l (List.mem_cons_of_mem _ hm)
    have ih := splitLines_intercalate h (next :: rest) (by simp) hrest
    rw [List.intercalate_cons_cons, List.append_assoc]
    have hnl := splitLines_lineEnd (t := nl.intercalate (next :: rest)) h (head_intercalate h hrest)
    rw [splitLines_append (hl line List.mem_cons_self) hnl, ih, List.append_nil]

/-! ## 3. One character more -/

/-- What the lines become when the last of them grows by `c`. -/
def growLast (c : Char) : List Text → List Text
  | [] => [[c]]
  | [line] => [line ++ [c]]
  | line :: next :: rest => line :: growLast c (next :: rest)

theorem growLast_cons (c : Char) (line : Text) {rest : List Text} (h : rest ≠ []) :
    growLast c (line :: rest) = line :: growLast c rest := by
  cases rest with
  | nil => exact absurd rfl h
  | cons next rest => rfl

theorem growLast_consFirst (c d : Char) {lines : List Text} (h : lines ≠ []) :
    growLast c (consFirst d lines) = consFirst d (growLast c lines) := by
  match lines with
  | [] => exact absurd rfl h
  | [line] => rfl
  | line :: next :: rest => rfl

theorem splitLines_concat_of_not {c : Char} (h : isTerminator c = false) (t : Text) :
    splitLines (t ++ [c]) = growLast c (splitLines t) := by
  fun_induction splitLines t with
  | case1 => exact splitLines_oneLine (by simpa [OneLine] using h)
  | case2 rest ih =>
    rw [List.cons_append, List.cons_append, splitLines_returnFeed, ih,
      growLast_cons _ _ (splitLines_ne_nil rest)]
  | case3 d rest hd hterm ih =>
    rw [List.cons_append, splitLines_terminator hterm, ih,
      growLast_cons _ _ (splitLines_ne_nil rest)]
    rintro rfl
    cases rest with
    | nil =>
      intro e
      cases e
      cases h
    | cons x rest =>
      intro e
      cases e
      exact hd rest rfl rfl
  | case4 d rest hd hterm ih =>
    rw [List.cons_append, splitLines_cons (by simpa using hterm), ih,
      growLast_consFirst _ _ (splitLines_ne_nil rest)]

/-- A terminator at the end adds an empty line, unless it completes a pair. -/
theorem splitLines_concat_terminator {c : Char} (h : isTerminator c = true) (t : Text) :
    splitLines (t ++ [c]) = splitLines t ∨ splitLines (t ++ [c]) = splitLines t ++ [[]] := by
  fun_induction splitLines t with
  | case1 =>
    right
    exact splitLines_terminator h (by simp)
  | case2 rest ih =>
    rw [List.cons_append, List.cons_append, splitLines_returnFeed]
    rcases ih with ih | ih
    · exact Or.inl (by rw [ih])
    · exact Or.inr (by rw [ih]; rfl)
  | case3 d rest hd hterm ih =>
    by_cases hpair : d = '\r' ∧ (rest ++ [c]).head? = some '\n'
    · obtain ⟨rfl, hhead⟩ := hpair
      cases rest with
      | nil =>
        cases hhead
        left
        rfl
      | cons x rest =>
        cases hhead
        exact absurd rfl (hd rest rfl)
    · rw [List.cons_append, splitLines_terminator hterm fun e e' => hpair ⟨e, e'⟩]
      rcases ih with ih | ih
      · exact Or.inl (by rw [ih])
      · exact Or.inr (by rw [ih]; rfl)
  | case4 d rest hd hterm ih =>
    rw [List.cons_append, splitLines_cons (by simpa using hterm)]
    rcases ih with ih | ih
    · exact Or.inl (by rw [ih])
    · right
      rw [ih]
      obtain ⟨first, further, e⟩ := exists_splitLines rest
      rw [e]
      rfl

/-- The lines of a text, the last of them apart. -/
theorem exists_lastLine (t : Text) : ∃ init line, splitLines t = init ++ [line] :=
  ⟨_, _, (List.dropLast_append_getLast (splitLines_ne_nil t)).symm⟩

/-- The lines of two texts in a row: the last of the first goes on with the first of the second,
    unless a pair is cut. -/
theorem splitLines_append_lines {first : Text} {further : List Text}
    (hb : splitLines b = first :: further) (h : a.getLast? = some '\r' → b.head? ≠ some '\n')
    {init : List Text} {line : Text} (ha : splitLines a = init ++ [line]) :
    splitLines (a ++ b) = init ++ (line ++ first) :: further := by
  -- a line that ends is the first of `init`, since another one follows it
  have hfirst : ∀ {rest line : Text} {init : List Text}, [] :: splitLines rest = init ++ [line] →
      ∃ init', init = [] :: init' ∧ splitLines rest = init' ++ [line] := by
    intro rest line init e
    cases init with
    | nil => exact absurd (List.cons.inj e).2 (splitLines_ne_nil rest)
    | cons l init' =>
      obtain ⟨rfl, e'⟩ := List.cons.inj e
      exact ⟨init', rfl, e'⟩
  have hlast : ∀ {c : Char} {rest : Text}, rest.getLast? = some '\r' →
      (c :: rest).getLast? = some '\r' := by
    intro c rest e
    rw [List.getLast?_cons, e]
    rfl
  fun_induction splitLines a generalizing init line with
  | case1 =>
    obtain ⟨rfl, rfl⟩ := List.append_singleton_inj.mp (show [] ++ [[]] = init ++ [line] from ha)
    exact hb
  | case2 rest ih =>
    obtain ⟨init', rfl, e⟩ := hfirst ha
    rw [List.cons_append, List.cons_append, splitLines_returnFeed,
      ih (fun hr => h (hlast (hlast hr))) e]
    rfl
  | case3 c rest hpair hc ih =>
    obtain ⟨init', rfl, e⟩ := hfirst ha
    have hnext : c = '\r' → (rest ++ b).head? ≠ some '\n' := by
      rintro rfl
      cases rest with
      | nil => exact h rfl
      | cons y rest =>
        intro hy
        obtain rfl : y = '\n' := Option.some.inj hy
        exact hpair rest rfl rfl
    rw [List.cons_append, splitLines_terminator hc hnext, ih (fun hr => h (hlast hr)) e]
    rfl
  | case4 c rest _ hc ih =>
    obtain ⟨init₀, line₀, e⟩ := exists_lastLine rest
    have hrest := ih (fun hr => h (hlast hr)) e
    rw [List.cons_append, splitLines_cons (by simpa using hc), hrest]
    rw [e] at ha
    cases init₀ with
    | nil =>
      obtain ⟨rfl, rfl⟩ :=
        List.append_singleton_inj.mp (show [] ++ [c :: line₀] = init ++ [line] from ha)
      rfl
    | cons l init₁ =>
      obtain ⟨rfl, rfl⟩ :=
        List.append_singleton_inj.mp (show (c :: l) :: init₁ ++ [line₀] = init ++ [line] from ha)
      rfl

/-! ## 4. What stands in a line -/

theorem prefix_firstLine {x : Text} (hx : OneLine x) :
    x <+: t ↔ x <+: t.takeWhile fun c => !isTerminator c := by
  constructor
  · rintro ⟨rest, rfl⟩
    rw [List.takeWhile_append_of_pos fun c hc => by simp [hx c hc]]
    exact List.prefix_append x _
  · exact fun h => h.trans (List.takeWhile_prefix _)

theorem not_prefix_terminator {x : Text} (hx : OneLine x) (hne : x ≠ []) {c : Char}
    (hc : isTerminator c = true) (t : Text) : ¬ x <+: c :: t := by
  intro h
  cases x with
  | nil => exact hne rfl
  | cons d x =>
    have e : d = c := (List.cons_prefix_cons.mp h).1
    have := hx d List.mem_cons_self
    rw [e, hc] at this
    cases this

/-- **What holds no terminator stands in a text exactly if it stands in one of its lines.** -/
theorem infix_iff_splitLines {x : Text} (hx : OneLine x) (hne : x ≠ []) (t : Text) :
    x <:+: t ↔ ∃ line ∈ splitLines t, x <:+: line := by
  fun_induction splitLines t with
  | case1 => simp [hne]
  | case2 rest ih =>
    replace ih : x <:+: rest ↔ ∃ line ∈ splitLines rest, x <:+: line := ih
    have h1 : ¬ x <+: '\r' :: '\n' :: rest := not_prefix_terminator hx hne rfl _
    have h2 : ¬ x <+: '\n' :: rest := not_prefix_terminator hx hne rfl _
    rw [List.infix_cons_iff, List.infix_cons_iff, ih]
    simp [h1, h2, hne]
  | case3 c rest _ hc ih =>
    replace ih : x <:+: rest ↔ ∃ line ∈ splitLines rest, x <:+: line := ih
    rw [List.infix_cons_iff, ih]
    simp [not_prefix_terminator hx hne hc, hne]
  | case4 c rest _ hc ih =>
    replace ih : x <:+: rest ↔ ∃ line ∈ splitLines rest, x <:+: line := ih
    obtain ⟨first, further, e⟩ := exists_splitLines rest
    have hfirst := splitLines_first e
    have hpre : x <+: c :: rest ↔ x <+: c :: first := by
      rw [prefix_firstLine hx, List.takeWhile_cons_of_pos (by simp [hc]), ← hfirst]
    rw [List.infix_cons_iff, ih, e, hpre]
    simp [consFirst, List.infix_cons_iff, or_assoc]

/-! ## 5. Trimmed lines -/

/-- Lines without blanks at their edges. The first keeps its left edge. -/
def trimmed : List Text → List Text
  | [] => []
  | first :: further => trimEnd isBlank first :: further.map (trim isBlank)

/-- The lines of a text without blanks at their edges. The first keeps its left edge. -/
def trimmedLines (t : Text) : List Text := trimmed (splitLines t)

theorem trimmed_append {lines : List Text} (h : lines ≠ []) (more : List Text) :
    trimmed (lines ++ more) = trimmed lines ++ more.map (trim isBlank) := by
  cases lines with
  | nil => exact absurd rfl h
  | cons first further => simp [trimmed]

theorem trim_append_blank {c : Char} (h : isBlank c = true) (t : Text) :
    trim isBlank (t ++ [c]) = trim isBlank t := by
  unfold trim trimStart
  rw [List.dropWhile_append]
  split
  · rename_i hempty
    rw [List.isEmpty_iff.mp hempty, List.dropWhile_cons_of_pos h]
    rfl
  · exact trimEnd_append_of_all (by simpa using h)

theorem map_trim_growLast {c : Char} (h : isBlank c = true) : ∀ lines : List Text, lines ≠ [] →
    (growLast c lines).map (trim isBlank) = lines.map (trim isBlank)
  | [], hne => absurd rfl hne
  | [line], _ => by simp [growLast, trim_append_blank h]
  | line :: next :: rest, _ => by
    have ih := map_trim_growLast h (next :: rest) (by simp)
    rw [growLast_cons _ _ (by simp), List.map_cons, ih]
    rfl

theorem trimmedLines_concat_blank {c : Char} (h : isBlank c = true) (t : Text) :
    trimmedLines (t ++ [c]) = trimmedLines t := by
  have hterm : isTerminator c = false := by
    rcases isBlank_iff.mp h with rfl | rfl <;> rfl
  unfold trimmedLines
  rw [splitLines_concat_of_not hterm]
  match splitLines t, splitLines_ne_nil t with
  | [line], _ =>
    have : trimEnd isBlank (line ++ [c]) = trimEnd isBlank line :=
      trimEnd_append_of_all (by simpa using h)
    simp [growLast, trimmed, this]
  | line :: next :: rest, _ =>
    rw [growLast_cons _ _ (by simp)]
    simp only [trimmed]
    rw [map_trim_growLast h _ (by simp)]

theorem trimmedLines_concat_terminator {c : Char} (h : isTerminator c = true) (t : Text) :
    trimmedLines (t ++ [c]) = trimmedLines t ∨ trimmedLines (t ++ [c]) = trimmedLines t ++ [[]] := by
  unfold trimmedLines
  rcases splitLines_concat_terminator h t with e | e
  · exact Or.inl (by rw [e])
  · right
    rw [e, trimmed_append (splitLines_ne_nil t)]
    rfl

/-- **Layout at the end of a text adds nothing but empty lines.** -/
theorem trimmedLines_append_layout {z : Text} (hz : ∀ c ∈ z, isLayoutChar c = true) (t : Text) :
    ∃ n, trimmedLines (t ++ z) = trimmedLines t ++ List.replicate n [] := by
  induction z using List.reverseRecOn with
  | nil => exact ⟨0, by simp⟩
  | append_singleton z c ih =>
    obtain ⟨n, e⟩ := ih fun x hx => hz x (List.mem_append_left _ hx)
    have hc : isBlank c = true ∨ isTerminator c = true := by
      have := hz c (by simp)
      simpa [isLayoutChar] using this
    rw [← List.append_assoc]
    rcases hc with hc | hc
    · exact ⟨n, by rw [trimmedLines_concat_blank hc, e]⟩
    · rcases trimmedLines_concat_terminator hc (t ++ z) with e' | e'
      · exact ⟨n, by rw [e', e]⟩
      · refine ⟨n + 1, ?_⟩
        rw [e', e, List.append_assoc, ← List.replicate_succ']

theorem growLast_concat (c : Char) (line : Text) : ∀ init : List Text,
    growLast c (init ++ [line]) = init ++ [line ++ [c]]
  | [] => rfl
  | first :: init => by
    rw [List.cons_append, growLast_cons _ _ (by simp), growLast_concat c line init]
    rfl

theorem trim_concat {c : Char} (h : isBlank c = false) (t : Text) :
    ∃ rest, trim isBlank (t ++ [c]) = rest ++ [c] := by
  have hlast : ∀ u : Text, trimEnd isBlank (u ++ [c]) = u ++ [c] := fun u =>
    trimEnd_eq_self (by simpa using h)
  unfold trim trimStart
  rw [List.dropWhile_append]
  split
  · rw [List.dropWhile_cons_of_neg (by simp [h])]
    exact ⟨[], hlast []⟩
  · exact ⟨_, hlast _⟩

/-- The last trimmed line ends where the text ends, if that is not layout. -/
theorem trimmedLines_concat {c : Char} (h : isLayoutChar c = false) (t : Text) :
    ∃ init line, trimmedLines (t ++ [c]) = init ++ [line ++ [c]] := by
  have hc : isBlank c = false ∧ isTerminator c = false := by simpa [isLayoutChar] using h
  unfold trimmedLines
  obtain ⟨init, line, e⟩ := exists_lastLine t
  rw [splitLines_concat_of_not hc.2, e, growLast_concat]
  cases init with
  | nil =>
    refine ⟨[], line, ?_⟩
    simp only [List.nil_append, trimmed, List.map_nil]
    rw [trimEnd_eq_self (by simpa using hc.1)]
  | cons first init =>
    obtain ⟨rest, er⟩ := trim_concat hc.1 line
    refine ⟨trimmed (first :: init), rest, ?_⟩
    rw [trimmed_append (by simp), List.map_singleton, er]

/-- Empty lines behind a line that is not empty can be told from it. -/
theorem rdropWhile_replicate_nil {init : List Text} {line : Text} (h : line ≠ []) (n : Nat) :
    (init ++ [line] ++ List.replicate n []).rdropWhile List.isEmpty = init ++ [line] := by
  induction n with
  | zero =>
    rw [List.replicate_zero, List.append_nil, List.rdropWhile_concat_neg]
    simpa using h
  | succ n ih =>
    rw [List.replicate_succ', ← List.append_assoc, List.rdropWhile_concat_pos _ _ _ rfl, ih]

/-- Texts with the same trimmed lines have the same trimmed lines without the layout at their ends. -/
theorem trimmedLines_trimEnd_congr (h : trimmedLines a = trimmedLines b)
    (ha : trimEnd isLayoutChar a ≠ []) (hb : trimEnd isLayoutChar b ≠ []) :
    trimmedLines (trimEnd isLayoutChar a) = trimmedLines (trimEnd isLayoutChar b) := by
  have hstrip : ∀ t : Text, trimEnd isLayoutChar t ≠ [] →
      trimmedLines (trimEnd isLayoutChar t) = (trimmedLines t).rdropWhile List.isEmpty := by
    intro t ht
    obtain ⟨z, e, hz⟩ := trimEnd_decomp isLayoutChar t
    obtain ⟨n, en⟩ := trimmedLines_append_layout hz (trimEnd isLayoutChar t)
    have hconcat := List.dropLast_append_getLast ht
    have hlast := trimEnd_last isLayoutChar t _ (List.getLast?_eq_some_getLast ht)
    obtain ⟨init, line, el⟩ := trimmedLines_concat hlast (trimEnd isLayoutChar t).dropLast
    rw [hconcat] at el
    conv_rhs => rw [e, en, el, rdropWhile_replicate_nil (by simp)]
    exact el
  rw [hstrip a ha, hstrip b hb, h]

end Text

end RebecaLayout
