import RebecaLayout.Proofs.Breaks

/-!
A layout that begins deeper is the layout that begins at the margin, further right.

* `Text.indented` -- a text with every line moved right that holds something and does not begin in a
  token of a certain kind; `Text.indentFrom` -- the same in one pass; `indented_eq`;
* `Spot.deeper`, `StaysOpen` -- a spot further in, and tokens that close no brace they did not open:
  **there depth only adds up**;
* `State.literals` -- the strings and characters that a run writes, and where;
* `indentFrom_body`, `indentFrom_gap`, `indentFrom_rendered` -- a token, what stands before it, and
  a row of tokens further right;
* `layout_deeper` -- **so the deeper layout is the other one, indented**.
-/

namespace RebecaLayout

variable {style : Style} {d : Dialect} {p : Spot} {t : Token} {ts : List Token}
  {lead nl a x y : Text} {inside : Break → Bool} {pending : Bool} {n k depth : Nat}

/-! ## 1. Lines further right -/

/-- A line further right, unless it is to be kept or is empty. -/
def Text.indentLine (lead : Text) (keep : Bool) (line : Text) : Text :=
  if line.isEmpty || keep then line else lead ++ line

/-- The text with `lead` in front of every line that holds something and whose terminator is not one
    of those `inside` a token. -/
def Text.indented (lead : Text) (inside : Break → Bool) (x : Text) : Text :=
  (Text.lines x).flatMap fun line =>
    line.1.elim [] Break.text ++ indentLine lead (line.1.any inside) line.2

/-- The same from the offset `n` on. If `pending`, the first line is moved as well. -/
def Text.indentFrom (lead : Text) (inside : Break → Bool) : Bool → Nat → Text → Text
  | _, _, [] => []
  | _, n, '\r' :: '\n' :: rest =>
    '\r' :: '\n' :: indentFrom lead inside (!inside ⟨n, ['\r', '\n']⟩) (n + 2) rest
  | pending, n, c :: rest =>
    if isTerminator c then c :: indentFrom lead inside (!inside ⟨n, [c]⟩) (n + 1) rest
    else (if pending then lead else []) ++ c :: indentFrom lead inside false (n + 1) rest

open Text (indentLine indented indentFrom)

theorem indentFrom_cons {c : Char} (h : Text.isTerminator c = false) (x : Text) :
    indentFrom lead inside pending n (c :: x) =
      (if pending then lead else []) ++ c :: indentFrom lead inside false (n + 1) x := by
  have hc : c ≠ '\r' := by rintro rfl; cases h
  rw [indentFrom, if_neg (by simp [h])]
  exact fun rest e => absurd e hc

theorem indentFrom_terminator {c : Char} (h : Text.isTerminator c = true)
    (hx : c = '\r' → x.head? ≠ some '\n') : indentFrom lead inside pending n (c :: x) =
      c :: indentFrom lead inside (!inside ⟨n, [c]⟩) (n + 1) x := by
  rw [indentFrom, if_pos h]
  intro rest hc e
  exact hx hc (by rw [e]; rfl)

/-- What is pending goes in front of a line that holds something. -/
theorem indentFrom_pending (h : ∃ c ∈ x.head?, Text.isTerminator c = false) :
    indentFrom lead inside true n x = lead ++ indentFrom lead inside false n x := by
  obtain ⟨c, hhead, hc⟩ := h
  obtain ⟨rest, rfl⟩ := List.head?_eq_some_iff.mp hhead
  rw [indentFrom_cons hc, indentFrom_cons hc]
  rfl

theorem indentFrom_lineEnd (h : LineEnd nl) (hx : nl = ['\r'] → x.head? ≠ some '\n') :
    indentFrom lead inside pending n (nl ++ x) =
      nl ++ indentFrom lead inside (!inside ⟨n, nl⟩) (n + nl.length) x := by
  cases h with
  | feed => exact indentFrom_terminator rfl (fun e => absurd e (by decide))
  | returnFeed => rfl
  | carriageReturn => exact indentFrom_terminator rfl (fun _ => hx rfl)

theorem indentFrom_oneLine (h : Text.OneLine a) (n : Nat) (x : Text) :
    indentFrom lead inside false n (a ++ x) =
      a ++ indentFrom lead inside false (n + a.length) x := by
  induction a generalizing n with
  | nil => rfl
  | cons c a ih =>
    rw [List.cons_append, indentFrom_cons (h c List.mem_cons_self),
      ih fun b hb => h b (List.mem_cons_of_mem c hb), List.length_cons, Nat.add_right_comm n 1,
      Nat.add_assoc]
    rfl

/-- Nothing is pending behind a text that does not end with a terminator. -/
theorem indentFrom_append (h : ∃ c ∈ a.getLast?, Text.isTerminator c = false)
    (pending : Bool) (n : Nat) (x : Text) : indentFrom lead inside pending n (a ++ x) =
      indentFrom lead inside pending n a ++ indentFrom lead inside false (n + a.length) x := by
  obtain ⟨c, hlast, hc⟩ := h
  have htail : ∀ {b : Char} {rest : Text}, (b :: rest).getLast? = some c →
      (rest = [] ∧ b = c) ∨ rest.getLast? = some c := by
    intro b rest e
    cases rest with
    | nil => exact Or.inl ⟨rfl, Option.some.inj e⟩
    | cons b' rest => exact Or.inr e
  fun_induction indentFrom lead inside pending n a with
  | case1 => cases hlast
  | case2 pending n rest ih =>
    rcases htail hlast with ⟨hnil, -⟩ | hlast
    · cases hnil
    · rcases htail hlast with ⟨-, rfl⟩ | hlast
      · cases hc
      · have hnext : n + ('\r' :: '\n' :: rest).length = n + 2 + rest.length := by
          simp only [List.length_cons]
          omega
        rw [List.cons_append, List.cons_append, indentFrom, ih hlast, hnext]
        rfl
  | case3 pending n b rest hpair hb ih =>
    rcases htail hlast with ⟨-, rfl⟩ | hend
    · rw [hb] at hc
      cases hc
    · have hcut : b = '\r' → (rest ++ x).head? ≠ some '\n' := by
        rintro rfl hhead
        cases rest with
        | nil => cases hend
        | cons b' rest =>
          obtain rfl : b' = '\n' := Option.some.inj hhead
          exact hpair rest rfl rfl
      rw [List.cons_append, indentFrom_terminator hb hcut, ih hend, List.length_cons,
        Nat.add_right_comm n, Nat.add_assoc n]
      rfl
  | case4 pending n b rest _ hb ih =>
    rw [List.cons_append, indentFrom_cons (by simpa using hb), List.append_assoc, List.cons_append]
    rcases htail hlast with ⟨rfl, -⟩ | hlast
    · rfl
    · rw [ih hlast, List.length_cons, Nat.add_right_comm n, Nat.add_assoc n]

/-- Lines that all begin inside a token stay. -/
theorem indentFrom_inside (h : ∀ br ∈ Text.breaks n a, inside br = true) :
    indentFrom lead inside false n a = a := by
  fun_induction Text.breaks n a with
  | case1 => rfl
  | case2 n rest ih =>
    obtain ⟨hfirst, hrest⟩ := List.forall_mem_cons.mp h
    rw [indentFrom, hfirst, Bool.not_true, ih hrest]
  | case3 n c rest hpair hc ih =>
    obtain ⟨hfirst, hrest⟩ := List.forall_mem_cons.mp h
    rw [indentFrom, if_pos hc, hfirst, Bool.not_true, ih hrest]
    exact hpair
  | case4 n c rest hpair hc ih =>
    rw [indentFrom_cons (by simpa using hc), ih h]
    rfl

/-- **One pass indents line by line.** -/
theorem indentFrom_lines (x : Text) (pending : Bool) (n : Nat) :
    ∀ {first : Text} {further : List Text}, Text.splitLines x = first :: further →
      indentFrom lead inside pending n x = indentLine lead (!pending) first ++
        ((Text.breaks n x).zip further).flatMap fun line =>
          line.1.text ++ indentLine lead (inside line.1) line.2 := by
  fun_induction indentFrom lead inside pending n x with
  | case1 =>
    intro first further e
    obtain ⟨rfl, rfl⟩ := List.cons.inj (show [[]] = first :: further from e)
    rfl
  | case2 pending n rest ih =>
    intro first further e
    obtain ⟨next, later, hrest⟩ := Text.exists_splitLines rest
    rw [Text.splitLines_returnFeed, hrest] at e
    obtain ⟨rfl, rfl⟩ := List.cons.inj e
    rw [ih hrest, Text.breaks, List.zip_cons_cons, List.flatMap_cons, Bool.not_not,
      List.append_assoc]
    rfl
  | case3 pending n c rest hpair hc ih =>
    intro first further e
    have hnext : c = '\r' → rest.head? ≠ some '\n' := by
      intro hr hhead
      obtain ⟨rest', rfl⟩ := List.head?_eq_some_iff.mp hhead
      exact hpair rest' hr rfl
    obtain ⟨next, later, hrest⟩ := Text.exists_splitLines rest
    rw [Text.splitLines_terminator hc hnext, hrest] at e
    obtain ⟨rfl, rfl⟩ := List.cons.inj e
    rw [ih hrest, breaks_terminator hc hnext, List.zip_cons_cons, List.flatMap_cons, Bool.not_not,
      List.append_assoc]
    rfl
  | case4 pending n c rest _ hc ih =>
    intro first further e
    have hc' : Text.isTerminator c = false := by simpa using hc
    obtain ⟨next, later, hrest⟩ := Text.exists_splitLines rest
    rw [Text.splitLines_cons hc', hrest] at e
    obtain ⟨rfl, rfl⟩ := List.cons.inj e
    have hkeep : indentLine lead true next = next := by
      rw [indentLine, Bool.or_true, if_pos rfl]
    rw [ih hrest, breaks_cons hc', Bool.not_false, hkeep]
    cases pending with
    | true => exact (List.append_assoc lead (c :: next) _).symm
    | false => rfl

theorem indented_eq (lead : Text) (inside : Break → Bool) (x : Text) :
    indented lead inside x = indentFrom lead inside true 0 x := by
  obtain ⟨first, further, e⟩ := Text.exists_splitLines x
  rw [indentFrom_lines x true 0 e, indented, Text.lines, e, List.zip_cons_cons, List.flatMap_cons,
    List.zip_map_left, List.flatMap_map]
  rfl

theorem mem_indentFrom {c : Char} (h : c ∈ indentFrom lead inside pending n x) :
    c ∈ x ∨ c ∈ lead := by
  fun_induction indentFrom lead inside pending n x with
  | case1 => cases h
  | case2 pending n rest ih =>
    simp only [List.mem_cons] at h ⊢
    tauto
  | case3 pending n b rest _ _ ih =>
    simp only [List.mem_cons] at h ⊢
    tauto
  | case4 pending n b rest _ _ ih =>
    simp only [List.mem_append, List.mem_cons] at h ⊢
    rcases h with h | h
    · split at h
      · exact Or.inr h
      · cases h
    · tauto

theorem getLast?_indentFrom (x : Text) (pending : Bool) (n : Nat) :
    (indentFrom lead inside pending n x).getLast? = x.getLast? := by
  fun_induction indentFrom lead inside pending n x with
  | case1 => rfl
  | case2 pending n rest ih => simp only [List.getLast?_cons, ih]
  | case3 pending n c rest _ _ ih => rw [List.getLast?_cons, ih, List.getLast?_cons]
  | case4 pending n c rest _ _ ih =>
    rw [List.getLast?_append, List.getLast?_cons, ih, List.getLast?_cons]
    rfl

/-- **What finishes a layout does not depend on how far right it stands.** -/
theorem finished_indentFrom (ho : style.Orderly) (hlead : ∀ c ∈ lead, Text.isBlank c = true)
    (x : Text) : finished style (indentFrom lead inside true 0 x) =
      indentFrom lead inside true 0 (finished style x) := by
  obtain ⟨z, e, hz⟩ := Text.trimEnd_decomp Text.isLayoutChar x
  have hlayout : ∀ {pending n}, ∀ c ∈ indentFrom lead inside pending n z,
      Text.isLayoutChar c = true := by
    intro pending n c hc
    rcases mem_indentFrom hc with hc | hc
    · exact hz c hc
    · exact Text.isLayoutChar_of_isBlank (hlead c hc)
  have hlast := Text.trimEnd_last Text.isLayoutChar x
  unfold finished
  dsimp only
  generalize Text.trimEnd Text.isLayoutChar x = y at e hlast
  subst e
  cases hy : y.getLast? with
  | none =>
    obtain rfl := List.getLast?_eq_none_iff.mp hy
    rw [List.nil_append, Text.trimEnd_of_all hlayout]
    rfl
  | some c =>
    have hsolid := hlast c hy
    have hend : ∃ c ∈ y.getLast?, Text.isTerminator c = false :=
      ⟨c, hy, (Bool.or_eq_false_iff.mp hsolid).2⟩
    have hkept : Text.trimEnd Text.isLayoutChar (indentFrom lead inside true 0 y) =
        indentFrom lead inside true 0 y := by
      refine Text.trimEnd_eq_self fun b hb => ?_
      rw [getLast?_indentFrom] at hb
      exact hlast b hb
    have hne : ∀ {w : Text}, w.getLast? = some c → ¬ w.isEmpty = true := by
      intro w hw hnil
      rw [List.isEmpty_iff.mp hnil] at hw
      cases hw
    have hterminator : ∀ m, indentFrom lead inside false m style.terminator = style.terminator := by
      intro m
      have hwhole : indentFrom lead inside false m (style.terminator ++ []) =
          style.terminator ++ [] :=
        indentFrom_lineEnd ho.terminator (by simp)
      rwa [List.append_nil] at hwhole
    rw [indentFrom_append hend, Text.trimEnd_append_of_all hlayout, hkept, if_neg (hne hy),
      if_neg (hne ((getLast?_indentFrom y true 0).trans hy)), indentFrom_append hend, hterminator]

/-! ## 2. Spots further in -/

/-- The spot with `n` braces more around it. -/
def Spot.deeper (n : Nat) (p : Spot) : Spot := { p with depth := n + p.depth }

/-- Tokens that close no brace but those that they open and `depth` braces before them. -/
def StaysOpen : Nat → List Token → Prop
  | _, [] => True
  | depth, t :: ts => (t.kind = .rightBrace → 0 < depth) ∧
      StaysOpen (if t.kind == .leftBrace then depth + 1
        else if t.kind == .rightBrace then depth - 1 else depth) ts

/-- Braces may be counted in every front of the tokens, and layout makes no difference. -/
theorem staysOpen_significant (h : ∀ front, front <+: ts →
      front.countP (·.kind == .rightBrace) ≤ depth + front.countP (·.kind == .leftBrace)) :
    StaysOpen depth (Token.significant ts) := by
  induction ts generalizing depth with
  | nil => trivial
  | cons t ts ih =>
    have hfirst := h [t] (List.prefix_append [t] ts)
    have hrest : ∀ front, front <+: ts →
        (t :: front).countP (·.kind == .rightBrace) ≤
          depth + (t :: front).countP (·.kind == .leftBrace) :=
      fun front hfront => h (t :: front) (List.cons_prefix_cons.mpr ⟨rfl, hfront⟩)
    simp only [List.countP_cons, List.countP_nil] at hfirst hrest
    rw [significant_cons]
    cases hk : t.kind with
    | whitespace | newline =>
      refine ih fun front hfront => ?_
      simpa [hk] using hrest front hfront
    | leftBrace =>
      refine ⟨by simp [hk], ih fun front hfront => ?_⟩
      have := hrest front hfront
      simp [hk] at this ⊢
      omega
    | rightBrace =>
      have hpos : 0 < depth := by
        simp [hk] at hfirst
        omega
      refine ⟨fun _ => hpos, ih fun front hfront => ?_⟩
      have := hrest front hfront
      simp [hk] at this ⊢
      omega
    | _ =>
      refine ⟨by simp [hk], ih fun front hfront => ?_⟩
      simpa [hk] using hrest front hfront

theorem times_add (u : Text) (m n : Nat) :
    Text.times u (m + n) = Text.times u m ++ Text.times u n := by
  unfold Text.times
  split
  · rfl
  · rw [List.replicate_add, List.flatten_append]

theorem depthAt_deeper (h : t.kind = .rightBrace → 0 < p.depth) (n : Nat) :
    (p.deeper n).depthAt t.kind = n + p.depthAt t.kind := by
  unfold Spot.depthAt Spot.deeper
  split
  · rename_i hk
    have := h (beq_iff_eq.mp hk)
    dsimp only
    omega
  · rfl

theorem after_deeper (h : t.kind = .rightBrace → 0 < p.depth) (n : Nat) (dialect : Dialect) :
    (p.deeper n).after dialect t = (p.after dialect t).deeper n := by
  have hdepth : (if t.kind == .leftBrace then n + p.depth + 1 else (p.deeper n).depthAt t.kind) =
      n + if t.kind == .leftBrace then p.depth + 1 else p.depthAt t.kind := by
    rw [depthAt_deeper h]
    split
    · rw [Nat.add_assoc]
    · rfl
  exact congrArg (fun depth => { p.after dialect t with depth }) hdepth

theorem gap_deeper (h : t.kind = .rightBrace → 0 < p.depth) (n : Nat) :
    gap style (p.deeper n) t = if p.opensLine style.dialect t then
        lineBreak style p ++ (Text.times style.unit n ++ Text.times style.unit (p.depthAt t.kind))
      else gap style p t := by
  have hopens : (p.deeper n).opensLine style.dialect t = p.opensLine style.dialect t := rfl
  unfold gap
  rw [depthAt_deeper h, times_add, hopens]
  split <;> rfl

/-! ## 3. Tokens further right -/

/-- No terminator of a stretch lies inside a token. -/
def Clear (inside : Break → Bool) (a b : Nat) : Prop :=
  ∀ br : Break, a ≤ br.offset → br.offset < b → 0 < br.text.length → inside br = false

/-- String and character literals. -/
def Kind.isLiteral : Kind → Bool
  | .string | .character => true
  | _ => false

theorem isLiteral_cases {kind : Kind} (h : kind.isLiteral = true) :
    kind = .string ∨ kind = .character := by
  cases kind <;> simp [Kind.isLiteral] at h ⊢

/-- A literal is written as it is. -/
theorem body_literal (h : t.kind.isLiteral = true) (style : Style) (depth : Nat) :
    body style depth t = t.text := by
  refine body_of_not_comment style depth ?_
  rcases isLiteral_cases h with hk | hk <;> rw [hk] <;> rfl

theorem furtherLine_deeper (style : Style) (n k : Nat) (line : Text) :
    furtherLine style (n + k) line =
      indentLine (Text.times style.unit n) false (furtherLine style k line) := by
  unfold furtherLine indentLine
  dsimp only
  split
  · rfl
  · rename_i hcontent
    have hne : Text.trim Text.isBlank line ≠ [] := by simpa using hcontent
    rw [times_add, List.append_assoc]
    exact (if_neg (by simp [hne])).symm

/-- Lines behind terminators that lie in no token are moved, those that hold something. -/
theorem indentFrom_further (hn : LineEnd nl) {lines : List Text}
    (hone : ∀ line ∈ lines, Text.OneLine line) {pending : Bool} {n : Nat}
    (hclear : Clear inside n (n + (lines.flatMap (nl ++ ·)).length)) :
    indentFrom lead inside pending n (lines.flatMap (nl ++ ·)) =
      lines.flatMap (fun line => nl ++ indentLine lead false line) := by
  induction lines generalizing pending n with
  | nil => rfl
  | cons line lines ih =>
    have hline := hone line List.mem_cons_self
    have hpos : 0 < nl.length := List.length_pos_iff.mpr hn.ne_nil
    simp only [List.flatMap_cons, List.length_append] at hclear
    have hhead : nl = ['\r'] → (line ++ lines.flatMap (nl ++ ·)).head? ≠ some '\n' := by
      rintro rfl
      cases line with
      | nil => cases lines <;> simp
      | cons c line =>
        intro e
        obtain rfl : c = '\n' := Option.some.inj e
        exact absurd (hline '\n' List.mem_cons_self) (by decide)
    have hfirst : inside ⟨n, nl⟩ = false := hclear ⟨n, nl⟩ le_rfl (by dsimp only; omega) hpos
    have hrest : ∀ pending, indentFrom lead inside pending (n + nl.length + line.length)
        (lines.flatMap (nl ++ ·)) = lines.flatMap (fun line => nl ++ indentLine lead false line) :=
      fun _ => ih (fun l hl => hone l (List.mem_cons_of_mem _ hl))
        fun br hle hlt => hclear br (by omega) (by omega)
    rw [List.flatMap_cons, List.flatMap_cons, List.append_assoc, List.append_assoc,
      indentFrom_lineEnd hn hhead, hfirst]
    cases line with
    | nil => exact congrArg (nl ++ ·) (hrest true)
    | cons c line =>
      have hc := hline c List.mem_cons_self
      rw [Bool.not_false, indentFrom_pending ⟨c, rfl, hc⟩, indentFrom_oneLine hline, hrest,
        ← List.append_assoc lead]
      rfl

/-- **A token further right**: a literal stays as it is, and of a comment the further lines move. -/
theorem indentFrom_body {rest : Text} (h : Reads d t rest) (hv : t.kind.isLayout = false)
    (ho : style.Orderly) (depth k n : Nat)
    (hin : t.kind.isLiteral = true → ∀ br ∈ Text.breaks n t.text, inside br = true)
    (hclear : t.kind.isLiteral = false → Clear inside n (n + (body style k t).length)) :
    indentFrom (Text.times style.unit depth) inside false n (body style k t) =
      body style (depth + k) t := by
  cases hs : t.kind.spansLines with
  | false =>
    have hbody : ∀ k', body style k' t = body style k t := by
      intro k'
      cases hk : t.kind <;> simp only [body, hk]
      rw [hk] at hs
      cases hs
    have hone : Text.OneLine (body style k t) := by
      unfold body
      split
      · exact (h.oneLine hv hs).trimEnd _
      · rename_i hk
        rw [hk] at hs
        cases hs
      · exact h.oneLine hv hs
    have hstay : indentFrom (Text.times style.unit depth) inside false n (body style k t ++ []) =
        body style k t ++ [] := indentFrom_oneLine hone n []
    rw [List.append_nil] at hstay
    rw [hstay, hbody (depth + k)]
  | true =>
    rcases spansLines_cases hs with hk | hk
    · -- only the lines behind the first begin within the comment
      obtain ⟨first, further, e⟩ := Text.exists_splitLines t.text
      have hfurther : ∀ k', (further.map (furtherLine style k')).flatMap (style.terminator ++ ·) =
          further.flatMap (fun line => style.terminator ++ furtherLine style k' line) := by
        intro k'
        rw [List.flatMap_map]
      have hbody : ∀ k', body style k' t = Text.trimEnd Text.isBlank first ++
          (further.map (furtherLine style k')).flatMap (style.terminator ++ ·) := by
        intro k'
        simp only [body, hk]
        rw [commentLines_cons e, Text.intercalate_cons]
      have hlines := commentLines_oneLine ho k t.text
      rw [commentLines_cons e] at hlines
      obtain ⟨hfirst, hrest⟩ := List.forall_mem_cons.mp hlines
      have hclear' := hclear (by rw [hk]; rfl)
      rw [hbody, List.length_append] at hclear'
      rw [hbody, hbody, indentFrom_oneLine hfirst, indentFrom_further ho.terminator hrest
        fun br hle hlt => hclear' br (by omega) (by omega), List.flatMap_map, hfurther]
      simp only [furtherLine_deeper]
    · have hliteral : t.kind.isLiteral = true := by rcases hk with hk | hk <;> rw [hk] <;> rfl
      rw [body_literal hliteral, body_literal hliteral, indentFrom_inside (hin hliteral)]

/-- **What stands before a token, further right.** Before the first token of all something is
    pending. -/
theorem indentFrom_gap (ho : style.Orderly) (hp : p.last = none → p.lineStart = true)
    (h : t.kind = .rightBrace → 0 < p.depth) (hy : ∃ c ∈ y.head?, Text.isTerminator c = false)
    (hclear : Clear inside n (n + (gap style p t).length)) :
    indentFrom (Text.times style.unit depth) inside p.last.isNone n (gap style p t ++ y) =
      gap style (p.deeper depth) t ++
        indentFrom (Text.times style.unit depth) inside false (n + (gap style p t).length) y := by
  rw [gap_deeper h]
  cases hopens : p.opensLine style.dialect t with
  | true =>
    have hgap : gap style p t = lineBreak style p ++ Text.times style.unit (p.depthAt t.kind) := by
      rw [gap, hopens, if_pos rfl]
    have hone : Text.OneLine (Text.times style.unit (p.depthAt t.kind)) := by
      intro c hc
      rcases Text.isBlank_iff.mp (ho.blank_indent _ c hc) with rfl | rfl <;> rfl
    have hhead : ∃ c ∈ (Text.times style.unit (p.depthAt t.kind) ++ y).head?,
        Text.isTerminator c = false := by
      cases hi : Text.times style.unit (p.depthAt t.kind) with
      | nil => exact hy
      | cons c i => exact ⟨c, rfl, hone c (hi ▸ List.mem_cons_self)⟩
    have hindent : ∀ m, indentFrom (Text.times style.unit depth) inside true m
          (Text.times style.unit (p.depthAt t.kind) ++ y) =
        Text.times style.unit depth ++ (Text.times style.unit (p.depthAt t.kind) ++
          indentFrom (Text.times style.unit depth) inside false
            (m + (Text.times style.unit (p.depthAt t.kind)).length) y) := by
      intro m
      rw [indentFrom_pending hhead, indentFrom_oneLine hone]
    rw [hgap, List.length_append] at hclear ⊢
    rw [if_pos rfl]
    cases hlast : p.last with
    | none =>
      have hbreak : lineBreak style p = [] := by rw [lineBreak, hp hlast, hlast]; rfl
      rw [hbreak, List.nil_append, List.nil_append, Option.isNone_none, hindent, List.append_assoc,
        List.length_nil, Nat.zero_add]
    | some last =>
      have hbreak : lineBreak style p = style.terminator := by
        rw [lineBreak, hlast, Option.isNone_some, Bool.and_false, if_neg Bool.false_ne_true]
      have hpos : 0 < style.terminator.length := List.length_pos_iff.mpr ho.terminator.ne_nil
      have hcut : style.terminator = ['\r'] →
          (Text.times style.unit (p.depthAt t.kind) ++ y).head? ≠ some '\n' := by
        intro _ hfeed
        obtain ⟨c, hc, hnot⟩ := hhead
        obtain rfl : '\n' = c := Option.some.inj (hfeed.symm.trans hc)
        cases hnot
      rw [hbreak] at hclear ⊢
      have hout : inside ⟨n, style.terminator⟩ = false :=
        hclear ⟨n, style.terminator⟩ le_rfl (by dsimp only; omega) hpos
      rw [List.append_assoc, indentFrom_lineEnd ho.terminator hcut, hout, Bool.not_false, hindent]
      simp only [List.append_assoc, Nat.add_assoc]
  | false =>
    have hlast : p.last.isNone = false := by
      cases hl : p.last with
      | none =>
        rw [Spot.opensLine, Spot.broken, hp hl] at hopens
        cases hopens
      | some last => rfl
    have hone : Text.OneLine (gap style p t) := by
      rw [gap, hopens, if_neg Bool.false_ne_true]
      split
      · intro c hc
        rw [List.mem_singleton.mp hc]
        rfl
      · exact fun c hc => by cases hc
    rw [hlast, if_neg Bool.false_ne_true, indentFrom_oneLine hone]

/-! ## 4. Literals -/

/-- The strings and characters that a run writes, each where it begins in the output: behind what
    was written before it. -/
def State.literals {β : Type} [Sink β] (style : Style) (s : State β) : List Token → List Placed
  | [] => []
  | t :: ts =>
    (if t.kind.isLiteral then [⟨t, (Sink.text (s.emit style t).out).length - t.text.length⟩]
      else []) ++ (s.emit style t).literals style ts

theorem Agrees.literals {s : State Pieces} {s' : State Text} (h : Agrees s s') (style : Style)
    (ts : List Token) : s.literals style ts = s'.literals style ts := by
  induction ts generalizing s s' with
  | nil => rfl
  | cons t ts ih =>
    have hnext := h.emit style t
    have htext : Sink.text (s.emit style t).out = Sink.text (s'.emit style t).out := hnext.out.text
    rw [State.literals, State.literals, htext, ih hnext]

theorem literals_significant (style : Style) (s : State Text) (ts : List Token) :
    s.literals style (Token.significant ts) = s.literals style ts := by
  induction ts generalizing s with
  | nil => rfl
  | cons t ts ih =>
    rw [significant_cons]
    cases hl : t.kind.isLayout with
    | true =>
      have hemit : s.emit style t = s := by rw [State.emit, hl, if_pos rfl]
      have hnot : t.kind.isLiteral = false := by
        cases hk : t.kind <;> rw [hk] at hl <;> first | rfl | cases hl
      rw [if_pos rfl, ih, State.literals, hemit, hnot]
      rfl
    | false => rw [if_neg Bool.false_ne_true, State.literals, State.literals, ih]

/-- The literals of a layout, with `n` characters before it. -/
def literalsFrom (style : Style) : Spot → Nat → List Token → List Placed
  | _, _, [] => []
  | p, n, t :: ts =>
    (if t.kind.isLiteral then [⟨t, n + (gap style p t).length⟩] else []) ++
      literalsFrom style (p.after style.dialect t)
        (n + (gap style p t ++ body style (p.depthAt t.kind) t).length) ts

theorem le_of_mem_literalsFrom (ts : List Token) (p : Spot) (n : Nat) :
    ∀ u ∈ literalsFrom style p n ts, n ≤ u.offset := by
  induction ts generalizing p n with
  | nil => exact fun u hu => by cases hu
  | cons t ts ih =>
    intro u hu
    rw [literalsFrom] at hu
    rcases List.mem_append.mp hu with hu | hu
    · split at hu
      · rw [List.mem_singleton.mp hu]
        exact Nat.le_add_right _ _
      · cases hu
    · exact Nat.le_of_add_right_le (ih _ _ u hu)

theorem le_of_mem_literalsFrom_cons {u : Placed} (h : u ∈ literalsFrom style p n (t :: ts)) :
    n + (gap style p t).length ≤ u.offset := by
  rw [literalsFrom] at h
  rcases List.mem_append.mp h with h | h
  · split at h
    · rw [List.mem_singleton.mp h]
    · cases h
  · have hle := le_of_mem_literalsFrom _ _ _ u h
    rw [List.length_append] at hle
    omega

theorem trail_literal (hl : t.kind.isLiteral = true) (p : Spot) :
    trail style (p.after style.dialect t) = [] := by
  rcases isLiteral_cases hl with hk | hk <;> simp [trail, Spot.after, hk, Kind.isComment]

/-- What the engine notes of one token. -/
theorem Stands.literals_cons {r : Text} {s : State Text} (h : Stands style p r s)
    (ho : style.Orderly) (hp : Proper t) (hv : t.kind.isLayout = false) (ts : List Token) :
    s.literals style (t :: ts) =
      (if t.kind.isLiteral then [⟨t, r.length + (gap style p t).length⟩] else []) ++
        (s.emit style t).literals style ts := by
  rw [State.literals]
  cases hl : t.kind.isLiteral with
  | false => rfl
  | true =>
    have hout : Sink.text (s.emit style t).out = r ++ (gap style p t ++ t.text) := by
      refine (h.emit_out ho hp hv).trans ?_
      rw [trail_literal hl, List.append_nil, body_literal hl]
    have hlength : (r ++ (gap style p t ++ t.text)).length - t.text.length =
        r.length + (gap style p t).length := by
      rw [List.length_append, List.length_append]
      omega
    rw [hout, hlength]

/-- **A run writes its literals where the layout has them.** -/
theorem Stands.literals_eq (h : Legible d ts) (ho : style.Orderly) :
    ∀ {p : Spot} {r : Text} {s : State Text}, Stands style p r s →
      s.literals style ts = literalsFrom style p r.length ts := by
  induction h with
  | nil => exact fun _ => rfl
  | last visible reads =>
    intro p r s h
    rw [h.literals_cons ho reads.proper visible]
    rfl
  | @cons t u ts visible complete _ ih =>
    intro p r s h
    obtain ⟨rest, -, reads⟩ := id complete
    obtain ⟨hne, hfirm⟩ := complete.firm ho visible (p.depthAt t.kind)
    rw [h.literals_cons ho reads.proper visible, ih (h.emit ho reads.proper visible hne hfirm),
      List.length_append]
    rfl

/-! ## 5. Layouts further right -/

/-- No terminator that begins before all literals lies in one of them. -/
theorem isWithin_of_lt {br : Break} {literals : List Placed}
    (h : ∀ u ∈ literals, br.offset < u.offset) : br.isWithin Kind.isLiteral literals = false := by
  unfold Break.isWithin
  rw [List.any_eq_false]
  intro u hu
  have hbefore := h u hu
  have hnot : br.isIn u = false := by
    simp only [Break.isIn, Bool.and_eq_false_iff, decide_eq_false_iff_not]
    omega
  simp [hnot]

theorem Reads.body_head {rest : Text} (h : Reads d t rest) (hv : t.kind.isLayout = false)
    (style : Style) (depth : Nat) :
    ∃ c ∈ (body style depth t).head?, Text.isTerminator c = false := by
  obtain ⟨c, x, e, -, hc⟩ := h.written_head hv style depth
  obtain ⟨z, hz, -⟩ := Text.trimEnd_decomp Text.isLayoutChar (body style depth t)
  refine ⟨c, ?_, (Bool.or_eq_false_iff.mp hc).2⟩
  rw [hz, show Text.trimEnd Text.isLayoutChar (body style depth t) = c :: x from e]
  rfl

/-- **A token and what stands before it, further right**, if the terminators from there on that are
    taken to lie inside a token are those in literals. -/
theorem indentFrom_token {rest : Text} (h : Reads d t rest) (hv : t.kind.isLayout = false)
    (ho : style.Orderly) (hp : p.last = none → p.lineStart = true)
    (hopen : t.kind = .rightBrace → 0 < p.depth)
    (hinside : ∀ br : Break, n ≤ br.offset → 0 < br.text.length →
      inside br = br.isWithin Kind.isLiteral (literalsFrom style p n (t :: ts))) :
    indentFrom (Text.times style.unit depth) inside p.last.isNone n
        (gap style p t ++ body style (p.depthAt t.kind) t) =
      gap style (p.deeper depth) t ++ body style ((p.deeper depth).depthAt t.kind) t := by
  have hgap : Clear inside n (n + (gap style p t).length) := by
    intro br hle hlt hpos
    rw [hinside br hle hpos]
    refine isWithin_of_lt fun u hu => Nat.lt_of_lt_of_le hlt (le_of_mem_literalsFrom_cons hu)
  rw [indentFrom_gap ho hp hopen (h.body_head hv style _) hgap, depthAt_deeper hopen]
  congr 1
  refine indentFrom_body h hv ho depth _ _ (fun hl br hbr => ?_) fun hl br hle hlt hpos => ?_
  · obtain ⟨hle, -, hpos⟩ := breaks_bounds _ _ br hbr
    rw [hinside br (by omega) hpos, literalsFrom, hl, if_pos rfl, Break.isWithin]
    refine List.any_eq_true.mpr ⟨_, List.mem_append_left _ List.mem_cons_self, ?_⟩
    rw [hl, isIn_of_mem hbr]
    rfl
  · rw [hinside br (by omega) hpos, literalsFrom, hl, if_neg Bool.false_ne_true, List.nil_append]
    refine isWithin_of_lt fun u hu => Nat.lt_of_lt_of_le ?_ (le_of_mem_literalsFrom _ _ _ u hu)
    rw [List.length_append]
    omega

/-- Behind a token its literal does not count. -/
theorem isWithin_literalsFrom_cons {br : Break} (hpos : 0 < br.text.length)
    (hle : n + (gap style p t ++ body style (p.depthAt t.kind) t).length ≤ br.offset) :
    br.isWithin Kind.isLiteral (literalsFrom style p n (t :: ts)) =
      br.isWithin Kind.isLiteral (literalsFrom style (p.after style.dialect t)
        (n + (gap style p t ++ body style (p.depthAt t.kind) t).length) ts) := by
  rw [literalsFrom]
  cases hl : t.kind.isLiteral with
  | false => rfl
  | true =>
    rw [body_literal hl, List.length_append] at hle
    have hnot : br.isIn ⟨t, n + (gap style p t).length⟩ = false := by
      simp only [Break.isIn, Bool.and_eq_false_iff, decide_eq_false_iff_not]
      omega
    unfold Break.isWithin
    rw [if_pos rfl, List.singleton_append, List.any_cons, hnot, Bool.and_false, Bool.false_or]

/-- **A row of tokens, further right.** -/
theorem indentFrom_rendered (ho : style.Orderly) (h : Legible d ts) (depth : Nat) :
    ∀ {p : Spot} {n : Nat}, (p.last = none → p.lineStart = true) → StaysOpen p.depth ts →
      (∀ br : Break, n ≤ br.offset → 0 < br.text.length →
        inside br = br.isWithin Kind.isLiteral (literalsFrom style p n ts)) →
      indentFrom (Text.times style.unit depth) inside p.last.isNone n (rendered style p ts) =
        rendered style (p.deeper depth) ts := by
  induction h with
  | nil => exact fun _ _ _ => rfl
  | @last t rest visible reads =>
    intro p n hp hopen hinside
    have hone : ∀ q : Spot, rendered style q [t] =
        gap style q t ++ body style (q.depthAt t.kind) t := by
      intro q
      rw [rendered_cons, rendered, List.append_nil]
    rw [hone, hone, indentFrom_token reads visible ho hp hopen.1 hinside]
  | @cons t u ts visible complete _ ih =>
    intro p n hp hopen hinside
    obtain ⟨rest, hrest, reads⟩ := complete
    have hlast : ∃ c ∈ (gap style p t ++ body style (p.depthAt t.kind) t).getLast?,
        Text.isTerminator c = false := by
      obtain ⟨hne, -⟩ := Complete.firm ⟨rest, hrest, reads⟩ ho visible (p.depthAt t.kind)
      have hlast := List.getLast?_eq_some_getLast hne
      have hsolid := reads.body_solid visible (fun _ => hrest) ho (p.depthAt t.kind) _ hlast
      rw [List.getLast?_append_of_ne_nil _ hne]
      exact ⟨_, hlast, (Bool.or_eq_false_iff.mp hsolid).2⟩
    have htail := ih (p := p.after style.dialect t) (by simp [Spot.after]) hopen.2
      fun br hle hpos => (hinside br (by omega) hpos).trans (isWithin_literalsFrom_cons hpos hle)
    rw [rendered_cons style p, ← List.append_assoc, indentFrom_append hlast,
      indentFrom_token reads visible ho hp hopen.1 hinside, rendered_cons style (p.deeper depth),
      after_deeper hopen.1, ← htail, List.append_assoc]
    rfl

/-- **A layout that begins deeper is the layout that begins at the margin, further right.** If no
    front of the tokens closes more braces than it opens, laying them out with `depth` braces around
    them puts the unit, as often, in front of every line of the other layout that holds something and
    does not begin in a string or character literal, and changes nothing else. -/
theorem layout_deeper (d : Dialect) (x : Text) (style : Style)
    (hu : style.unit = ['\t'] ∨ ∃ k, 1 ≤ k ∧ style.unit = List.replicate k ' ')
    (hn : LineEnd style.terminator)
    (hopen : ∀ front, front <+: tokenize d x →
      front.countP (·.kind == .rightBrace) ≤ front.countP (·.kind == .leftBrace))
    (depth : Nat) :
    ∃ out, layout style 0 true (tokenize d x) = .ok out ∧
      layout style depth true (tokenize d x) =
        .ok (Text.indented (Text.times style.unit depth)
          (Break.isWithin Kind.isLiteral
            ((State.start 0 true : State Pieces).literals style (tokenize d x))) out) := by
  have ho : style.Orderly := ⟨blank_of_unit hu, hn⟩
  have hlegible := legible_significant d x
  have hopen' : StaysOpen 0 (Token.significant (tokenize d x)) :=
    staysOpen_significant fun front hfront => by simpa using hopen front hfront
  have hliterals : (State.start 0 true : State Pieces).literals style (tokenize d x) =
      literalsFrom style (.start 0 true) 0 (Token.significant (tokenize d x)) := by
    rw [(Agrees.start 0 true).literals, ← literals_significant,
      (stands_start style 0 true).literals_eq hlegible ho]
    rfl
  have hdeeper : indentFrom (Text.times style.unit depth) (Break.isWithin Kind.isLiteral
        (literalsFrom style (.start 0 true) 0 (Token.significant (tokenize d x)))) true 0
        (rendered style (.start 0 true) (Token.significant (tokenize d x))) =
      rendered style (Spot.deeper depth (.start 0 true)) (Token.significant (tokenize d x)) :=
    indentFrom_rendered ho hlegible depth (fun _ => rfl) hopen' fun _ _ _ => rfl
  have hstart : Spot.deeper depth (.start 0 true) = .start depth true := rfl
  refine ⟨_, layout_rendered ho hlegible 0 true, ?_⟩
  rw [layout_rendered ho hlegible depth true, indented_eq, hliterals,
    ← finished_indentFrom ho (ho.blank_indent depth), ← hstart, ← hdeeper]

/-- Two levels further right: the lines of the comment move, but for the empty one, and the second
    line of the string stays. -/
theorem layout_deeper_two :
    layout ⟨.rebeca, [' ', ' '], ['\r', '\n']⟩ 0 true
        (tokenize .property "a\x7b/*b\n\n*c*/\"d\n e\"\x7d".toList) =
      .ok "a \x7b\r\n  /*b\r\n\r\n   *c*/\r\n  \"d\n e\"\r\n\x7d\r\n".toList ∧
    layout ⟨.rebeca, [' ', ' '], ['\r', '\n']⟩ 2 true
        (tokenize .property "a\x7b/*b\n\n*c*/\"d\n e\"\x7d".toList) =
      .ok "    a \x7b\r\n      /*b\r\n\r\n       *c*/\r\n      \"d\n e\"\r\n    \x7d\r\n".toList := by
  have hmargin : layout ⟨.rebeca, [' ', ' '], ['\r', '\n']⟩ 0 true
      (tokenize .property "a\x7b/*b\n\n*c*/\"d\n e\"\x7d".toList) =
      .ok "a \x7b\r\n  /*b\r\n\r\n   *c*/\r\n  \"d\n e\"\r\n\x7d\r\n".toList := by
    decide +kernel
  have hopen : ∀ front ∈ (tokenize .property "a\x7b/*b\n\n*c*/\"d\n e\"\x7d".toList).inits,
      front.countP (·.kind == .rightBrace) ≤ front.countP (·.kind == .leftBrace) := by
    decide +kernel
  obtain ⟨out, hout, hdeeper⟩ := layout_deeper .property
    "a\x7b/*b\n\n*c*/\"d\n e\"\x7d".toList
    ⟨.rebeca, [' ', ' '], ['\r', '\n']⟩ (Or.inr ⟨2, by decide, rfl⟩) .returnFeed
    (fun front hfront => hopen front ((List.mem_inits _ _).mpr hfront)) 2
  obtain rfl := Except.ok.inj (hmargin.symm.trans hout)
  refine ⟨hmargin, hdeeper.trans ?_⟩
  decide +kernel

end RebecaLayout
