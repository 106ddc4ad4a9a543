import RebecaLayout.Proofs.Welding

/-!
Reading a layout again.

* `pieces`, `spread` -- a layout as a row of tokens behind their gaps, and the text of a row;
* `finished_rendered` -- a finished layout is the text of its row and one terminator;
* `Readable` -- a row whose text is read back token by token, with something behind it that begins
  where a line ends; `Readable.tokenize_eq`;
* `gap_apart` -- **a gap keeps apart what does not weld**;
* `weldAll_readable` -- so the row of a layout is readable once what welds is welded;
* `cores_spread`, `tokenize_layout` -- the tokens of a layout have the cores of the welded tokens.
-/

namespace RebecaLayout

variable {style : Style} {d : Dialect} {p : Spot} {t u : Token} {ts : List Token} {nl w rest : Text}
  {m : Bool}

/-! ## 1. Rows -/

/-- The tokens of a layout as they are written, each with its gap. -/
def pieces (style : Style) : Spot → List Token → List (Text × Token)
  | _, [] => []
  | p, t :: ts =>
    (gap style p t, written style (p.depthAt t.kind) t) :: pieces style (p.after style.dialect t) ts

/-- The text of a row. -/
def spread (row : List (Text × Token)) : Text := row.flatMap fun a => a.1 ++ a.2.text

theorem spread_cons (a : Text × Token) (row : List (Text × Token)) :
    spread (a :: row) = a.1 ++ (a.2.text ++ spread row) := by
  rw [← List.append_assoc]
  rfl

theorem pieces_cons (style : Style) (p : Spot) (t : Token) (ts : List Token) :
    pieces style p (t :: ts) = (gap style p t, written style (p.depthAt t.kind) t) ::
      pieces style (p.after style.dialect t) ts := rfl

/-- Trimming the end of a layout trims its last token. -/
theorem trimEnd_rendered (ho : style.Orderly) (h : Legible d ts) (hne : ts ≠ []) (p : Spot) :
    Text.trimEnd Text.isLayoutChar (rendered style p ts) = spread (pieces style p ts) ∧
      ∃ c ∈ rendered style p ts, Text.isLayoutChar c = false := by
  induction h generalizing p with
  | nil => exact absurd rfl hne
  | @last t rest visible reads =>
    obtain ⟨c, x, e, -, hc⟩ := reads.written_head visible style (p.depthAt t.kind)
    have hw : c ∈ (written style (p.depthAt t.kind) t).text := by
      rw [e]
      exact List.mem_cons_self
    have hmem : c ∈ body style (p.depthAt t.kind) t := Text.mem_of_mem_trimEnd hw
    have hrendered : rendered style p [t] = gap style p t ++ body style (p.depthAt t.kind) t := by
      rw [rendered_cons, rendered, List.append_nil]
    refine ⟨?_, c, ?_, hc⟩
    · rw [hrendered, Text.trimEnd_append_of_last hmem hc, pieces_cons, spread_cons]
      exact congrArg (gap style p t ++ ·) (List.append_nil _).symm
    · rw [hrendered]
      exact List.mem_append_right _ hmem
  | @cons t u ts visible complete _ ih =>
    obtain ⟨rest, hrest, reads⟩ := complete
    obtain ⟨htrim, c, hmem, hc⟩ := ih (by simp) (p.after style.dialect t)
    have htext := reads.written_text visible (fun _ => hrest) ho (p.depthAt t.kind)
    refine ⟨?_, c, ?_, hc⟩
    · rw [rendered_cons style p t, ← List.append_assoc, Text.trimEnd_append_of_last hmem hc, htrim,
        pieces_cons style p t, spread_cons, htext, List.append_assoc]
    · rw [rendered_cons style p t]
      exact List.mem_append_right _ (List.mem_append_right _ hmem)

/-- **A finished layout is the text of its row and one terminator.** -/
theorem finished_rendered (ho : style.Orderly) (h : Legible d ts) (hne : ts ≠ []) (p : Spot) :
    finished style (rendered style p ts) = spread (pieces style p ts) ++ style.terminator := by
  obtain ⟨htrim, c, hmem, hc⟩ := trimEnd_rendered ho h hne p
  have hkeep : Text.trimEnd Text.isLayoutChar (rendered style p ts) ≠ [] := by
    intro hnil
    have hlayout := List.rdropWhile_eq_nil_iff.mp hnil c hmem
    rw [hc] at hlayout
    cases hlayout
  unfold finished
  dsimp only
  rw [if_neg (by simpa using hkeep), htrim]

/-! ## 2. Reading a row -/

/-- A row whose text is read back with `w` behind it: behind each token stands what lets it be read,
    and the last one is read before `w`, or it is open and takes `w` with it, which is then layout. -/
inductive Readable (d : Dialect) (w : Text) : List (Text × Token) → Prop
  | last {g : Text} {z : Token} (layout : ∀ c ∈ g, Text.isLayoutChar c = true)
      (visible : z.kind.isLayout = false)
      (ends : Reads d z w ∨ (z.kind.spansLines = true ∧ (∀ c ∈ w, Text.isLayoutChar c = true) ∧
        Reads d ⟨z.kind, z.text ++ w⟩ [])) : Readable d w [(g, z)]
  | cons {g : Text} {z : Token} {b : Text × Token} {row : List (Text × Token)}
      (layout : ∀ c ∈ g, Text.isLayoutChar c = true) (visible : z.kind.isLayout = false)
      (reads : ∀ more, Reads d z (b.1 ++ (b.2.text ++ more))) (tail : Readable d w (b :: row)) :
      Readable d w ((g, z) :: b :: row)

/-- Layout in front of something else is read by itself. -/
theorem tokenize_layout_append {g x : Text} (hg : ∀ c ∈ g, Text.isLayoutChar c = true)
    (hx : ∀ c ∈ x.head?, Text.isLayoutChar c = false) :
    tokenize d (g ++ x) = tokenize d g ++ tokenize d x := by
  induction g using text_induction d with
  | nil => rfl
  | step t rest h ih =>
    have hrest : ∀ c ∈ rest, Text.isLayoutChar c = true :=
      fun c hc => hg c (List.mem_append_right _ hc)
    have hhead : ∀ c ∈ (rest ++ x).head?, c ∈ rest.head? ∨ Text.isLayoutChar c = false := by
      intro c hc
      cases rest with
      | nil => exact Or.inr (hx c hc)
      | cons y rest => exact Or.inl hc
    have hl := h.isLayout_of_layout fun c hc => hg c (List.mem_append_left _ hc)
    have hreads : Reads d t (rest ++ x) := by
      obtain ⟨kind, text⟩ := t
      rcases h.layout_cases hl with ⟨rfl, ne, all, stop⟩ | ⟨rfl, terminator, whole⟩
      · refine .blanks ne all fun c hc => ?_
        rcases hhead c hc with hc | hc
        · exact stop c hc
        · exact (not_layoutChar_iff.mp hc).1
      · refine .lineEnd terminator fun e hc => ?_
        rcases hhead _ hc with hc | hc
        · exact whole e hc
        · cases hc
    rw [List.append_assoc, tokenize_append hreads, tokenize_append h, ih hrest]
    rfl

/-- The tokens of a row, with those of its gaps. -/
def tokensOf (d : Dialect) (row : List (Text × Token)) : List Token :=
  row.flatMap fun a => tokenize d a.1 ++ [a.2]

theorem tokensOf_cons (d : Dialect) (a : Text × Token) (row : List (Text × Token)) :
    tokensOf d (a :: row) = tokenize d a.1 ++ a.2 :: tokensOf d row := by
  unfold tokensOf
  rw [List.flatMap_cons, List.append_assoc]
  rfl

theorem tokensOf_concat (d : Dialect) (row : List (Text × Token)) (g : Text) (z : Token) :
    tokensOf d (row ++ [(g, z)]) = tokensOf d row ++ (tokenize d g ++ [z]) := by
  unfold tokensOf
  rw [List.flatMap_append]
  simp

theorem tokenize_lineEnd (hn : LineEnd nl) : tokenize d nl = [⟨.newline, nl⟩] := by
  have hreads : Reads d ⟨.newline, nl⟩ [] := .lineEnd hn (by simp)
  have h := tokenize_append hreads
  rwa [List.append_nil, tokenize_nil] at h

theorem tokenize_blanks {b : Text} (hne : b ≠ []) (hb : ∀ c ∈ b, Text.isBlank c = true) :
    tokenize d b = [⟨.whitespace, b⟩] := by
  have hreads : Reads d ⟨.whitespace, b⟩ [] := .blanks hne hb (by simp)
  have h := tokenize_append hreads
  rwa [List.append_nil, tokenize_nil] at h

/-- A terminator is read by itself before blanks. -/
theorem tokenize_lineEnd_append {b : Text} (hn : LineEnd nl) (hb : ∀ c ∈ b, Text.isBlank c = true) :
    tokenize d (nl ++ b) = ⟨.newline, nl⟩ :: tokenize d b := by
  have hreads : Reads d ⟨.newline, nl⟩ b := by
    refine .lineEnd hn fun _ hhead => ?_
    have hfeed := hb '\n' (List.mem_of_mem_head? hhead)
    cases hfeed
  exact tokenize_append hreads

theorem Reads.append_head_solid (h : Reads d t rest) (hv : t.kind.isLayout = false) (x : Text) :
    ∀ c ∈ (t.text ++ x).head?, Text.isLayoutChar c = false := by
  obtain ⟨c, y, e, hc⟩ := h.head_solid hv
  intro c' hc'
  rw [e] at hc'
  rw [← Option.some.inj hc']
  exact hc

/-- **The text of a readable row is read back**: each token behind its gap, and then what stands
    behind the row, unless the last token is open and takes it. -/
theorem Readable.tokenize_eq {row : List (Text × Token)} (h : Readable d w row) :
    tokenize d (spread row ++ w) = tokensOf d row ++ tokenize d w ∨
      ∃ init g z, row = init ++ [(g, z)] ∧ z.kind.spansLines = true ∧
        (∀ c ∈ w, Text.isLayoutChar c = true) ∧ tokenize d (spread row ++ w) =
          tokensOf d init ++ (tokenize d g ++ [⟨z.kind, z.text ++ w⟩]) := by
  induction h with
  | @last g z layout visible ends =>
    have htext : spread [(g, z)] ++ w = g ++ (z.text ++ w) := by
      rw [spread_cons, List.append_assoc, List.append_assoc]
      rfl
    rcases ends with reads | ⟨spans, hw, reads⟩
    · left
      rw [htext, tokenize_layout_append layout (reads.append_head_solid visible w),
        tokenize_append reads, tokensOf_cons, List.append_assoc]
      rfl
    · right
      refine ⟨[], g, z, rfl, spans, hw, ?_⟩
      have hsolid := reads.append_head_solid visible []
      have hread := tokenize_append reads
      rw [List.append_nil] at hsolid hread
      rw [htext, tokenize_layout_append layout hsolid, hread]
      rfl
  | @cons g z b row layout visible reads _ ih =>
    have htext : spread ((g, z) :: b :: row) ++ w = g ++ (z.text ++ (spread (b :: row) ++ w)) := by
      rw [spread_cons, List.append_assoc, List.append_assoc]
    have hreads : Reads d z (spread (b :: row) ++ w) := by
      rw [spread_cons, List.append_assoc, List.append_assoc]
      exact reads _
    have hstep : tokenize d (spread ((g, z) :: b :: row) ++ w) =
        tokenize d g ++ z :: tokenize d (spread (b :: row) ++ w) := by
      rw [htext, tokenize_layout_append layout (hreads.append_head_solid visible _),
        tokenize_append hreads]
    rcases ih with ih | ⟨init, g', z', erow, spans, hw, ih⟩
    · left
      rw [hstep, ih, tokensOf_cons d (g, z), List.append_assoc]
      rfl
    · right
      refine ⟨(g, z) :: init, g', z', by rw [erow]; rfl, spans, hw, ?_⟩
      rw [hstep, ih, tokensOf_cons d (g, z), List.append_assoc]
      rfl

theorem significant_append (a b : List Token) :
    Token.significant (a ++ b) = Token.significant a ++ Token.significant b := List.filter_append ..

theorem significant_layout {g : Text} (hg : ∀ c ∈ g, Text.isLayoutChar c = true) :
    Token.significant (tokenize d g) = [] := by
  induction g using text_induction d with
  | nil => rfl
  | step t rest h ih =>
    have hl := h.isLayout_of_layout fun c hc => hg c (List.mem_append_left _ hc)
    rw [significant_tokenize_append h, hl, if_pos rfl]
    exact ih fun c hc => hg c (List.mem_append_right _ hc)

/-- The tokens of a row that are no layout are those behind its gaps. -/
theorem significant_tokensOf {row : List (Text × Token)} (h : ∀ a ∈ row,
    (∀ c ∈ a.1, Text.isLayoutChar c = true) ∧ a.2.kind.isLayout = false) :
    Token.significant (tokensOf d row) = row.map Prod.snd := by
  induction row with
  | nil => rfl
  | cons a row ih =>
    obtain ⟨⟨layout, visible⟩, hrow⟩ := List.forall_mem_cons.mp h
    rw [tokensOf_cons, significant_append, significant_layout layout, significant_cons, visible,
      if_neg Bool.false_ne_true, ih hrow]
    rfl

theorem Readable.laid {row : List (Text × Token)} (h : Readable d w row) :
    ∀ a ∈ row, (∀ c ∈ a.1, Text.isLayoutChar c = true) ∧ a.2.kind.isLayout = false := by
  induction h with
  | last layout visible _ =>
    intro a ha
    rw [List.mem_singleton.mp ha]
    exact ⟨layout, visible⟩
  | cons layout visible _ _ ih =>
    intro a ha
    rcases List.mem_cons.mp ha with rfl | ha
    · exact ⟨layout, visible⟩
    · exact ih a ha

/-- An open token keeps its core when it takes layout with it. -/
theorem core_append_layout (hw : ∀ c ∈ w, Text.isLayoutChar c = true)
    (h : t.kind.spansLines = true) : Token.core ⟨t.kind, t.text ++ w⟩ = t.core := by
  have htrim : Text.trimEnd Text.isLayoutChar (t.text ++ w) =
      Text.trimEnd Text.isLayoutChar t.text :=
    Text.trimEnd_append_of_all hw
  rcases spansLines_cases h with hk | hk | hk <;> simp only [Token.core, hk, htrim]

/-- **The tokens read back have the cores of the row**, and behind them come those of what stands
    behind it. -/
theorem Readable.cores {row : List (Text × Token)} (h : Readable d w row) :
    (Token.significant (tokenize d (spread row ++ w))).map Token.core =
      (row.map fun a => a.2.core) ++ (Token.significant (tokenize d w)).map Token.core := by
  have htokens := significant_tokensOf (d := d) h.laid
  have hcores : (row.map fun a => a.2.core) = (row.map Prod.snd).map Token.core := by
    rw [List.map_map]
    rfl
  rw [hcores, ← htokens]
  rcases h.tokenize_eq with e | ⟨init, g, z, rfl, spans, hw, e⟩
  · rw [e, significant_append, List.map_append]
  · have hvisible : z.kind.isLayout = false := by
      rcases spansLines_cases spans with hk | hk | hk <;> rw [hk] <;> rfl
    have hlast : ∀ z' : Token, z'.kind = z.kind → Token.significant [z'] = [z'] := by
      intro z' hz
      rw [significant_cons, hz, hvisible]
      rfl
    rw [e, tokensOf_concat, significant_append, significant_append, significant_append,
      significant_append, hlast ⟨z.kind, z.text ++ w⟩ rfl, hlast z rfl, significant_layout hw]
    simp only [List.map_append, List.map_cons, List.map_nil, List.append_nil]
    rw [core_append_layout hw spans]

/-! ## 3. Gaps keep tokens apart -/

/-- Behind a token, nothing stands in front of the next one only if it neither opens a line nor
    stands apart. -/
theorem gap_eq_nil (ho : style.Orderly) {l : Token} {q : Spot}
    (h : gap style (q.after style.dialect l) u = []) :
    (q.after style.dialect l).lineStart = false ∧ u.kind ≠ .rightBrace ∧
      (u.kind.hugs = true ∨ ((q.after style.dialect l).apart = false ∧
        (q.after style.dialect l).asksSpace style.dialect u = false)) := by
  have hbreak : lineBreak style (q.after style.dialect l) ≠ [] := by
    rw [lineBreak_after]
    exact ho.terminator.ne_nil
  unfold gap at h
  split at h
  · exact absurd (List.append_eq_nil_iff.mp h).1 hbreak
  · rename_i hopens
    split at h
    · cases h
    · rename_i hspaced
      have hopens' : (q.after style.dialect l).opensLine style.dialect u = false := by
        simpa using hopens
      obtain ⟨hbroken, hbrace⟩ := Bool.or_eq_false_iff.mp hopens'
      refine ⟨(Bool.or_eq_false_iff.mp hbroken).1, by simpa using hbrace, ?_⟩
      have hspaced' : (q.after style.dialect l).spaced style.dialect u = false := by
        simpa using hspaced
      rcases Bool.and_eq_false_iff.mp hspaced' with hhugs | hasks
      · exact Or.inl (by simpa using hhugs)
      · obtain ⟨hapart, hasks⟩ := Bool.or_eq_false_iff.mp hasks
        exact Or.inr ⟨(Bool.or_eq_false_iff.mp hapart).1, hasks⟩

/-- What begins with a word character is a word or extends one. -/
theorem Reads.head_wordChar (h : Reads d u rest) {c : Char} (hc : u.text.head? = some c)
    (hw : isWordChar c = true) : u.kind.isUnquoted = true ∨ u.extendsWord = true := by
  have hnot : isWordChar c = false → u.kind.isUnquoted = true ∨ u.extendsWord = true := by
    intro hf
    rw [hf] at hw
    cases hw
  cases h with
  | @blanks x _ ne all _ =>
    refine hnot (not_wordChar_of_layoutChar (Text.isLayoutChar_of_isBlank (all c ?_)))
    exact List.mem_of_mem_head? hc
  | lineEnd terminator _ =>
    exact hnot (not_wordChar_of_layoutChar (terminator.layout c (List.mem_of_mem_head? hc)))
  | lineComment =>
    obtain rfl : '/' = c := Option.some.inj hc
    exact hnot (by decide)
  | blockComment =>
    obtain rfl : '/' = c := Option.some.inj hc
    exact hnot (by decide)
  | literal opens _ =>
    obtain rfl := Option.some.inj hc
    exact hnot (not_wordChar_of_literal opens)
  | word => exact Or.inl (wordKind_isUnquoted d _)
  | number => exact Or.inl rfl
  | mark isMark =>
    obtain rfl := Option.some.inj hc
    exact hnot (punctuation_start isMark).2.2.2.1
  | operator longest _ =>
    have hop := not_wordChar_of_operator _ (operatorAt?_spec longest).1
    rw [hc] at hop
    exact hnot (by simpa using hop)
  | stray =>
    obtain rfl := Option.some.inj hc
    refine Or.inr ?_
    simp [Token.extendsWord, hw]

/-- What begins with a character of operators is an operator or a comment. -/
theorem Reads.head_operator (h : Reads d u rest) {c : Char} (hc : u.text.head? = some c)
    (hop : [c] ∈ operators) : u.kind = .operator ∨ u.kind.isComment = true := by
  obtain ⟨hl, hq, hw, hd, hp⟩ := operator_start hop
  cases h with
  | @blanks x _ ne all _ =>
    have := Text.isLayoutChar_of_isBlank (all c (List.mem_of_mem_head? hc))
    rw [hl] at this
    cases this
  | lineEnd terminator _ =>
    have := terminator.layout c (List.mem_of_mem_head? hc)
    rw [hl] at this
    cases this
  | lineComment => exact Or.inr rfl
  | blockComment => exact Or.inr rfl
  | literal opens _ =>
    obtain rfl := Option.some.inj hc
    rw [hq] at opens
    cases opens
  | word start _ _ =>
    obtain rfl := Option.some.inj hc
    rw [hw] at start
    cases start
  | number start _ _ =>
    obtain rfl := Option.some.inj hc
    rw [hd] at start
    cases start
  | mark isMark =>
    obtain rfl := Option.some.inj hc
    rw [hp] at isMark
    cases isMark
  | operator => exact Or.inl rfl
  | stray hstray =>
    obtain rfl := Option.some.inj hc
    simp [isStray, hop] at hstray

/-- **The token `a`, as far as it is read, ends where the spot stands**: it is the last token as it
    is written, or a word that the last token was joined to (`m`: as a character that extends it). -/
inductive Tip (dialect : Dialect) : Token → Bool → Spot → Prop
  | token {a t : Token} {q : Spot} (kind : a.kind = t.kind)
      (text : t.kind.isComment = false → t.kind.spansLines = false → a = t) :
      Tip dialect a false (q.after dialect t)
  | word {a l : Token} {q : Spot} (unquoted : a.kind.isUnquoted = true)
      (last : l.kind.isUnquoted = true) : Tip dialect a false (q.after dialect l)
  | mark {a l : Token} {q : Spot} (unquoted : a.kind.isUnquoted = true) (last : l.kind = .other) :
      Tip dialect a true (q.after dialect l)

theorem Tip.unquoted_of_mark {a : Token} (h : Tip d a m p) (hm : m = true) :
    a.kind.isUnquoted = true := by
  cases h with
  | token => cases hm
  | word => cases hm
  | mark unquoted _ => exact unquoted

theorem isUnquoted_cases {kind : Kind} (h : kind.isUnquoted = true) :
    kind = .identifier ∨ kind = .keyword ∨ kind = .number := by
  cases kind <;> simp [Kind.isUnquoted] at h ⊢

/-- A word is followed, without a gap, by no word. -/
theorem Tip.word_apart {a : Token} (ho : style.Orderly) (h : Tip style.dialect a m p)
    (hu : Reads style.dialect u rest) (hj : a.joinsTo m u = false) (hgap : gap style p u = [])
    (ha : a.kind.isUnquoted = true) {c : Char} (hc : u.text.head? = some c) :
    isWordChar c = false := by
  cases hw : isWordChar c with
  | false => rfl
  | true =>
    obtain ⟨hwelds, hmark⟩ := Bool.or_eq_false_iff.mp hj
    rcases hu.head_wordChar hc hw with hunquoted | hextends
    · -- a word asks for a space behind a word, and is joined to a character that extends one
      have hbehind : ∀ {q : Spot} {l : Token}, l.kind.isUnquoted = true →
          gap style (q.after style.dialect l) u ≠ [] := by
        intro q l hl hnil
        obtain ⟨-, -, hasks⟩ := gap_eq_nil ho hnil
        rcases isUnquoted_cases hl with hl | hl | hl <;>
          rcases isUnquoted_cases hunquoted with hk | hk | hk <;>
          simp [hk, hl, Kind.hugs, Spot.asksSpace, needsSpace, Spot.after, Kind.isComment,
            Kind.isWord] at hasks
      cases h with
      | token kind _ => exact absurd hgap (hbehind (kind ▸ ha))
      | word _ last => exact absurd hgap (hbehind last)
      | mark _ _ =>
        rw [hunquoted] at hmark
        cases hmark
    · rw [Token.welds, ha, hextends] at hwelds
      cases hwelds

/-- A slash belongs to no operand. -/
theorem isUnary_slash (prev : Option Token) : isUnary ['/'] prev = false := by
  have hunary : unaryOperators.contains ['/'] = false := by decide
  have hsigns : signs.contains ['/'] = false := by decide
  rw [isUnary, hunary, hsigns]
  rfl

/-- An operator is followed, without a gap, by nothing that binds to it. -/
theorem Tip.operator_apart {a : Token} (ho : style.Orderly) (h : Tip style.dialect a m p)
    (hu : Reads style.dialect u rest) (hgap : gap style p u = []) (ha : a.kind = .operator)
    {c : Char} (hc : u.text.head? = some c) :
    binds a.text c = false ∧ (a.text = ['/'] → c ≠ '/' ∧ c ≠ '*') := by
  by_cases hop : [c] ∈ operators
  · cases h with
    | word unquoted _ => rw [ha] at unquoted; cases unquoted
    | mark unquoted _ => rw [ha] at unquoted; cases unquoted
    | @token t q kind text =>
      have hk : t.kind = .operator := kind.symm.trans ha
      obtain rfl : a = t := text (by simp [hk, Kind.isComment]) (by simp [hk, Kind.spansLines])
      obtain ⟨-, -, hasks⟩ := gap_eq_nil ho hgap
      rcases hu.head_operator hc hop with hkind | hcomment
      · rcases hasks with hhugs | ⟨hapart, hasks⟩
        · rw [hkind] at hhugs
          cases hhugs
        · have hunary : isUnary a.text q.prev = true := by
            simpa [Spot.after, ha] using hapart
          have hslash : a.text ≠ ['/'] := by
            intro e
            rw [e, isUnary_slash] at hunary
            cases hunary
          have hbinds : binds a.text c = false := by
            simp only [Spot.asksSpace, hkind, Spot.after, ha, hc, Kind.isComment] at hasks
            simpa [ha] using (Bool.or_eq_false_iff.mp hasks).2
          exact ⟨hbinds, fun e => absurd e hslash⟩
      · rcases isComment_cases hcomment with hk' | hk' <;>
          simp [hk', Kind.hugs, Spot.asksSpace] at hasks
  · refine ⟨not_binds hop _, fun _ => ?_⟩
    constructor <;> rintro rfl <;> exact hop (by decide)

/-- **A gap keeps apart what does not weld.** -/
theorem gap_apart {a : Token} (ho : style.Orderly) (h : Tip style.dialect a m p)
    (hu : Reads style.dialect u rest) (hv : u.kind.isLayout = false) (hj : a.joinsTo m u = false)
    (depth : Nat) (more : Text) :
    Apart a (gap style p u ++ ((written style depth u).text ++ more)) := by
  cases hgap : gap style p u with
  | nil =>
    obtain ⟨c, x, e, hhead, -⟩ := hu.written_head hv style depth
    have hc : ∀ y ∈ ([] ++ ((written style depth u).text ++ more)).head?, y = c := by
      intro y hy
      rw [e] at hy
      exact (Option.some.inj hy).symm
    refine ⟨fun ha y hy => ?_, fun ha y hy => ?_, fun ha y hy => ?_⟩
    · rw [hc y hy]
      exact h.word_apart ho hu hj hgap ha hhead
    · rw [hc y hy]
      exact h.operator_apart ho hu hgap ha hhead
    · -- behind a comment that ends with its line, a line begins
      cases h with
      | word unquoted _ => rw [ha] at unquoted; cases unquoted
      | mark unquoted _ => rw [ha] at unquoted; cases unquoted
      | @token t q kind _ =>
        have hline := (gap_eq_nil ho hgap).1
        simp [Spot.after, ← kind, ha, Kind.isComment] at hline
  | cons c g =>
    have hlayout : ∀ y ∈ (c :: g ++ ((written style depth u).text ++ more)).head?,
        Text.isLayoutChar y = true := by
      intro y hy
      refine gap_layout ho p u y ?_
      rw [hgap, ← Option.some.inj hy]
      exact List.mem_cons_self
    refine .of_layout hlayout fun ha => ?_
    cases h with
    | word unquoted _ => rw [ha] at unquoted; cases unquoted
    | mark unquoted _ => rw [ha] at unquoted; cases unquoted
    | @token t q kind _ =>
      have hopens : gap style (q.after style.dialect t) u = style.terminator ++
          Text.times style.unit ((q.after style.dialect t).depthAt u.kind) := by
        simp [gap, Spot.opensLine, Spot.broken, lineBreak, Spot.after, ← kind, ha, Kind.isComment]
      intro y hy
      rw [← hgap, hopens, List.append_assoc] at hy
      exact (ho.terminator.apart ⟨.lineComment, []⟩ _).lineComment rfl y hy

/-! ## 4. Words that grow -/

/-- Nothing stands between a word, a character that extends it, and what is joined to that. -/
theorem gap_joined {q : Spot} {l : Token} (hl : l.kind.isUnquoted = true ∨ l.kind = .other)
    (hu : u.kind = .other ∨ (l.kind = .other ∧ u.kind.isUnquoted = true)) :
    gap style (q.after style.dialect l) u = [] := by
  rcases hu with hu | ⟨hl', hu⟩
  · rcases hl with hl | hl
    · rcases isUnquoted_cases hl with hl | hl | hl <;>
        simp [gap, Spot.opensLine, Spot.broken, Spot.spaced, Spot.asksSpace, Spot.after, hl, hu,
          Kind.isComment]
    · simp [gap, Spot.opensLine, Spot.broken, Spot.spaced, Spot.asksSpace, Spot.after, hl, hu,
        Kind.isComment]
  · rcases isUnquoted_cases hu with hu | hu | hu <;>
      simp [gap, Spot.opensLine, Spot.broken, Spot.spaced, Spot.asksSpace, Spot.after, hl', hu,
        Kind.isComment, needsSpace, Kind.isWord, Kind.isCloser]

theorem Tip.join {a : Token} (h : Tip style.dialect a m p) (hj : a.joinsTo m u = true) :
    gap style p u = [] ∧
      Tip style.dialect (a.fused style.dialect u) (u.kind == .other) (p.after style.dialect u) := by
  obtain ⟨ha, hu⟩ := joinsTo_kinds h.unquoted_of_mark hj
  have hfused := fused_isUnquoted style.dialect a u
  rcases hu with hext | ⟨hm, hunquoted⟩
  · have hk := extendsWord_kind hext
    have hother : (u.kind == .other) = true := beq_iff_eq.mpr hk
    rw [hother]
    refine ⟨?_, .mark hfused hk⟩
    cases h with
    | token kind _ => exact gap_joined (Or.inl (kind ▸ ha)) (Or.inl hk)
    | word _ last => exact gap_joined (Or.inl last) (Or.inl hk)
    | mark _ last => exact gap_joined (Or.inr last) (Or.inl hk)
  · have hother : (u.kind == .other) = false := by
      rcases isUnquoted_cases hunquoted with hk | hk | hk <;> rw [hk] <;> rfl
    rw [hother]
    refine ⟨?_, .word hfused hunquoted⟩
    cases h with
    | token => cases hm
    | word => cases hm
    | mark _ last => exact gap_joined (Or.inr last) (Or.inr ⟨last, hunquoted⟩)

theorem Reads.wordChars (h : Reads d u rest)
    (hu : u.extendsWord = true ∨ u.kind.isUnquoted = true) : ∀ c ∈ u.text, isWordChar c = true := by
  rcases hu with hu | hu
  · exact List.all_eq_true.mp (Bool.and_eq_true_iff.mp hu).2
  · cases h with
    | word start all _ => exact List.forall_mem_cons.mpr ⟨isWordChar_of_start start, all⟩
    | number start all _ => exact List.forall_mem_cons.mpr ⟨isWordChar_of_digit start, all⟩
    | literal opens _ => rcases literalKind?_cases opens with ⟨-, rfl⟩ | ⟨-, rfl⟩ <;> cases hu
    | mark isMark =>
      rw [punctuation_isUnquoted isMark] at hu
      cases hu
    | _ => cases hu

/-- A word that grows by word characters is a word. -/
theorem Reads.fused {a : Token} {r : Text} (h : Reads d a r) (ha : a.kind.isUnquoted = true)
    (hu : ∀ c ∈ u.text, isWordChar c = true) (hrest : ∀ c ∈ rest.head?, isWordChar c = false) :
    Reads d (a.fused d u) rest := by
  cases h with
  | @word c x _ start all _ =>
    have hkind : (wordKind d (c :: x) == .number) = false := by
      rcases wordKind_cases d (c :: x) with e | e <;> rw [e] <;> rfl
    unfold Token.fused
    rw [hkind, if_neg Bool.false_ne_true]
    refine .word start (fun y hy => ?_) hrest
    rcases List.mem_append.mp hy with hy | hy
    · exact all y hy
    · exact hu y hy
  | number start all _ =>
    refine .number start (fun y hy => ?_) hrest
    rcases List.mem_append.mp hy with hy | hy
    · exact all y hy
    · exact hu y hy
  | literal opens _ => rcases literalKind?_cases opens with ⟨-, rfl⟩ | ⟨-, rfl⟩ <;> cases ha
  | mark isMark =>
    rw [punctuation_isUnquoted isMark] at ha
    cases ha
  | _ => cases ha

/-- Welding begins with the token that it welds to. -/
theorem weldOnto_head {α : Type} (d : Dialect) (a : α × Token) (m : Bool) (l : List (α × Token)) :
    ∃ z row, weldOnto d a m l = (a.1, z) :: row ∧ ∃ more, z.text = a.2.text ++ more := by
  induction l generalizing a m with
  | nil => exact ⟨a.2, [], rfl, [], (List.append_nil _).symm⟩
  | cons b l ih =>
    rw [weldOnto]
    split
    · obtain ⟨z, row, e, more, emore⟩ := ih (a.1, a.2.fused d b.2) (b.2.kind == .other)
      refine ⟨z, row, e, b.2.text ++ more, ?_⟩
      rw [emore, ← List.append_assoc]
      rfl
    · exact ⟨a.2, _, rfl, [], (List.append_nil _).symm⟩

/-- What is apart from a written token is apart from the token. -/
theorem Apart.of_written {depth : Nat} {more : Text} (h : Apart (written style depth t) more)
    (hr : Reads d t rest) (hv : t.kind.isLayout = false) : Apart t more where
  word := h.word
  operator hk := by
    have hself := hr.written_eq_self hv (by simp [hk, Kind.isComment])
      (by simp [hk, Kind.spansLines]) style depth
    rw [hself] at h
    exact h.operator hk
  lineComment := h.lineComment

/-! ## 5. The row of a layout -/

/-- Only layout stands behind tokens of which the last may be open. -/
def Closes (d : Dialect) (w : Text) (ts : List Token) : Prop :=
  (∀ c ∈ w, Text.isLayoutChar c = true) ∨ ∀ t ∈ ts.getLast?, Complete d t

theorem Closes.tail {us : List Token} (h : Closes d w (t :: us)) : Closes d w us := by
  rcases h with h | h
  · exact Or.inl h
  · refine Or.inr fun z hz => h z ?_
    cases us with
    | nil => cases hz
    | cons u us => rwa [List.getLast?_cons_cons]

/-- The token `a` is what the row has been read to, and the tokens `ts` are still to come. -/
structure Carried (style : Style) (w : Text) (ts : List Token) (a : Token) (m : Bool) (p : Spot) :
    Prop where
  visible : a.kind.isLayout = false
  tip : Tip style.dialect a m p
  reads : ts ≠ [] → ∀ rest, Apart a rest → Reads style.dialect a rest
  ends : ts = [] → Reads style.dialect a w ∨
    (a.kind.spansLines = true ∧ (∀ c ∈ w, Text.isLayoutChar c = true) ∧
      Reads style.dialect ⟨a.kind, a.text ++ w⟩ [])

variable {us : List Token} {a : Token}

/-- A token is carried as it is written. -/
theorem Carried.fresh (ho : style.Orderly) (hw : AtLineEnd w) (h : Legible style.dialect (u :: us))
    (hc : Closes style.dialect w (u :: us)) (p : Spot) :
    Carried style w us (written style (p.depthAt u.kind) u) false (p.after style.dialect u) := by
  obtain ⟨hv, r, hu⟩ := h.head
  refine ⟨hv, .token rfl fun hc hs => ?_, fun hne rest hap => ?_, fun hnil => ?_⟩
  · exact hu.written_eq_self hv hc (by simp [hs]) style _
  · cases h with
    | last => exact absurd rfl hne
    | cons _ complete _ =>
      obtain ⟨r', hr', reads⟩ := complete
      exact reads.again hv (fun _ => hr') ho _ (hap.of_written reads hv)
  · rcases hc with hlayout | hcomplete
    · exact hu.ends hv ho _ hw fun _ => hlayout
    · obtain ⟨r', hr', reads⟩ := hcomplete u (by rw [hnil]; rfl)
      exact reads.ends hv ho _ hw fun e => absurd e hr'

/-- What is joined is written as it is. -/
theorem written_of_joinsTo (hu : Reads d u rest) (hv : u.kind.isLayout = false)
    (h : u.extendsWord = true ∨ u.kind.isUnquoted = true) (style : Style) (depth : Nat) :
    written style depth u = u := by
  have hkind : u.kind.isComment = false ∧ u.kind.spansLines = false := by
    rcases h with h | h
    · rw [extendsWord_kind h]
      exact ⟨rfl, rfl⟩
    · rcases isUnquoted_cases h with hk | hk | hk <;> rw [hk] <;> exact ⟨rfl, rfl⟩
  exact hu.written_eq_self hv hkind.1 (by simp [hkind.2]) style depth

/-- A word that grows is carried on. -/
theorem Carried.join (hw : AtLineEnd w) (h : Carried style w (u :: us) a m p)
    (hu : Reads style.dialect u rest) (hj : a.joinsTo m u = true) :
    Carried style w us (a.fused style.dialect u) (u.kind == .other) (p.after style.dialect u) := by
  obtain ⟨hquoted, hjoined⟩ := joinsTo_kinds h.tip.unquoted_of_mark hj
  have hfused := fused_isUnquoted style.dialect a u
  have hbase : Reads style.dialect a w := h.reads (by simp) w (hw.apart a)
  have hreads : ∀ rest, Apart (a.fused style.dialect u) rest →
      Reads style.dialect (a.fused style.dialect u) rest := fun rest hap =>
    hbase.fused hquoted (hu.wordChars (hjoined.imp_right And.right)) (hap.word hfused)
  refine ⟨?_, (h.tip.join hj).2, fun _ => hreads, fun _ => Or.inl (hreads w (hw.apart _))⟩
  rcases isUnquoted_cases hfused with hk | hk | hk <;> rw [hk] <;> rfl

/-- **The row of a layout is readable once what welds is welded**, and its text is the same. -/
theorem weldOnto_readable (ho : style.Orderly) (hw : AtLineEnd w) (ts : List Token) :
    ∀ {g : Text} {a : Token} {m : Bool} {p : Spot}, Legible style.dialect ts →
      Closes style.dialect w ts → (∀ c ∈ g, Text.isLayoutChar c = true) →
      Carried style w ts a m p →
      Readable style.dialect w (weldOnto style.dialect (g, a) m (pieces style p ts)) ∧
        spread (weldOnto style.dialect (g, a) m (pieces style p ts)) =
          g ++ (a.text ++ spread (pieces style p ts)) := by
  induction ts with
  | nil =>
    intro g a m p _ _ hg h
    exact ⟨.last hg h.visible (h.ends rfl), spread_cons (g, a) []⟩
  | cons u us ih =>
    intro g a m p hlegible hc hg h
    obtain ⟨hv, r, hu⟩ := hlegible.head
    have hcore := hu.core_written hv ho (p.depthAt u.kind)
    rw [pieces_cons, weldOnto]
    dsimp only
    rw [joinsTo_congr rfl hcore]
    cases hj : a.joinsTo m u with
    | true =>
      have hjoined := (joinsTo_kinds h.tip.unquoted_of_mark hj).2
      have hself := written_of_joinsTo hu hv (hjoined.imp_right And.right) style (p.depthAt u.kind)
      obtain ⟨hreadable, hspread⟩ := ih hlegible.tail hc.tail hg (h.join hw hu hj)
      rw [if_pos rfl, hself]
      refine ⟨hreadable, ?_⟩
      rw [hspread, spread_cons, (h.tip.join hj).1]
      simp only [Token.fused, List.nil_append, List.append_assoc]
    | false =>
      obtain ⟨hreadable, hspread⟩ :=
        ih hlegible.tail hc.tail (gap_layout ho p u) (.fresh ho hw hlegible hc p)
      rw [if_neg Bool.false_ne_true]
      refine ⟨?_, ?_⟩
      · obtain ⟨z, row, e, more, emore⟩ := weldOnto_head style.dialect
          (gap style p u, written style (p.depthAt u.kind) u) false
          (pieces style (p.after style.dialect u) us)
        rw [e] at hreadable ⊢
        refine .cons hg h.visible (fun more' => h.reads (by simp) _ ?_) hreadable
        dsimp only at emore ⊢
        rw [emore, List.append_assoc]
        exact gap_apart ho h.tip hu hv hj _ _
      · rw [spread_cons, hspread, spread_cons]

theorem weldAll_readable (ho : style.Orderly) (hw : AtLineEnd w) (h : Legible style.dialect ts)
    (hc : Closes style.dialect w ts) (hne : ts ≠ []) (p : Spot) :
    Readable style.dialect w (weldAll style.dialect (pieces style p ts)) ∧
      spread (weldAll style.dialect (pieces style p ts)) = spread (pieces style p ts) := by
  cases ts with
  | nil => exact absurd rfl hne
  | cons u us =>
    obtain ⟨hreadable, hspread⟩ :=
      weldOnto_readable ho hw us h.tail hc.tail (gap_layout ho p u) (.fresh ho hw h hc p)
    refine ⟨hreadable, ?_⟩
    rw [pieces_cons, spread_cons]
    exact hspread

theorem pieces_cores (ho : style.Orderly) (h : Legible d ts) (p : Spot) :
    ((pieces style p ts).map Prod.snd).map Token.core = ts.map Token.core := by
  induction ts generalizing p with
  | nil => rfl
  | cons t ts ih =>
    obtain ⟨hv, r, ht⟩ := h.head
    rw [pieces_cons, List.map_cons, List.map_cons, List.map_cons, ih h.tail,
      ht.core_written hv ho]

/-- **The row of a layout is read back with the cores of the welded tokens**, and what stands behind
    it by itself. -/
theorem cores_spread (ho : style.Orderly) (hw : AtLineEnd w) (h : Legible style.dialect ts)
    (hc : Closes style.dialect w ts) (hne : ts ≠ []) (p : Spot) :
    (Token.significant
        (tokenize style.dialect (spread (pieces style p ts) ++ w))).map Token.core =
      (welded style.dialect ts).map Token.core ++
        (Token.significant (tokenize style.dialect w)).map Token.core := by
  obtain ⟨hreadable, hspread⟩ := weldAll_readable ho hw h hc hne p
  have hcores : (weldAll style.dialect (pieces style p ts)).map (fun a => a.2.core) =
      ((weldAll style.dialect (pieces style p ts)).map Prod.snd).map Token.core := by
    rw [List.map_map]
    rfl
  rw [← hspread, hreadable.cores, hcores, weldAll_tokens, welded_congr (pieces_cores ho h p)]

/-- **The tokens of a layout have the cores of the welded tokens.** -/
theorem tokenize_layout (ho : style.Orderly) (h : Legible style.dialect ts) (hne : ts ≠ [])
    (p : Spot) :
    (Token.significant
        (tokenize style.dialect (finished style (rendered style p ts)))).map Token.core =
      (welded style.dialect ts).map Token.core := by
  rw [finished_rendered ho h hne p,
    cores_spread ho ho.terminator.atLineEnd_self h (Or.inl ho.terminator.layout) hne p,
    significant_layout ho.terminator.layout]
  exact List.append_nil _

end RebecaLayout
