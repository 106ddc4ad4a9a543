import RebecaLayout.Proofs.Excerpt

/-!
What a region cannot know of the text in front of it, and **when the layout of lines that are laid out
leaves them alone**.

A region is laid out from the depth that its first lead amounts to, and from nothing else.

* `depthIn_times` -- the lead of a line shows how deep it stands;
* `Misses` -- what else the tokens in front decide between two neighbours: whether a semicolon stands
  in parentheses, and whether a sign stands between operands;
* `MissesContext` -- the same for all the tokens of a region, and a closing brace that comes first
  and does not stand at the margin;
* `pieces_eq_iff` -- two rows of the same tokens are the same unless something is missed;
* `formatRegion_lines_iff` -- so **lines that are laid out stay as they are exactly if nothing is
  missed**.
-/

namespace RebecaLayout

variable {style : Style} {d : Dialect} {p q : Spot} {t u : Token} {front before us : List Token}
  {row₁ row₂ : List (Text × Token)} {g g' y y' x unit : Text} {depth depth' : Nat}

/-! ## 1. Leads -/

theorem columns_append (tab : Nat) (a b : Text) :
    columns tab (a ++ b) = columns tab a + columns tab b := by
  induction a with
  | nil => exact (Nat.zero_add _).symm
  | cons c a ih =>
    rw [List.cons_append, columns, columns, ih]
    omega

theorem columns_times (tab : Nat) (u : Text) (n : Nat) :
    columns tab (Text.times u n) = n * columns tab u := by
  unfold Text.times
  split
  · next hempty => rw [List.isEmpty_iff.mp hempty]; simp [columns]
  · induction n with
    | zero => simp [columns]
    | succ n ih =>
      rw [List.replicate_succ, List.flatten_cons, columns_append, ih, Nat.succ_mul]
      omega

theorem columns_spaces (tab k : Nat) : columns tab (List.replicate k ' ') = k := by
  induction k with
  | zero => rfl
  | succ k ih =>
    rw [List.replicate_succ, columns, ih, if_neg (by decide)]
    omega

/-- **Indentation shows how deep it is.** -/
theorem depthIn_times (hu : unit = ['\t'] ∨ ∃ k, 1 ≤ k ∧ unit = List.replicate k ' ') (n : Nat) :
    depthIn (Text.times unit n) unit = .ok n := by
  unfold depthIn
  rcases hu with rfl | ⟨k, hk, rfl⟩
  · have hcolumns : columns 4 (Text.times ['\t'] n) = n * 4 := columns_times 4 ['\t'] n
    rw [if_pos (by decide), hcolumns, Nat.mul_div_cancel n (by decide)]
  · have htab : ¬ (List.replicate k ' ' == ['\t']) = true := by
      intro e
      have hmem : '\t' ∈ List.replicate k ' ' := by
        rw [beq_iff_eq.mp e]
        exact List.mem_singleton_self _
      exact absurd (List.eq_of_mem_replicate hmem) (by decide)
    have hempty : ¬ (List.replicate k ' ').isEmpty = true := by
      rw [List.isEmpty_iff, List.replicate_eq_nil_iff]
      omega
    rw [if_neg htab, if_neg hempty, columns_times, columns_spaces, List.length_replicate,
      Nat.mul_div_cancel n hk]

/-- The first lead of a text that begins with blanks and something else. -/
theorem firstLead_append {c : Char} (hg : ∀ c ∈ g, Text.isBlank c = true)
    (hc : Text.isLayoutChar c = false) (y : Text) : firstLead (g ++ c :: y) = g := by
  obtain ⟨hblank, hfeed, hreturn⟩ := not_layoutChar_iff.mp hc
  obtain ⟨first, further, e⟩ := Text.exists_splitLines y
  have hone : Text.OneLine (g ++ [c]) := by
    intro c' hc'
    rcases List.mem_append.mp hc' with hc' | hc'
    · rcases Text.isBlank_iff.mp (hg c' hc') with rfl | rfl <;> rfl
    · rw [List.mem_singleton.mp hc']
      exact (Bool.or_eq_false_iff.mp hc).2
  have hsplit := Text.splitLines_append hone e
  rw [List.append_assoc, List.append_assoc] at hsplit
  change Text.splitLines (g ++ c :: y) = (g ++ c :: first) :: further at hsplit
  rw [firstLead, hsplit, List.findSome?_cons, lead?_append hg hblank]
  rfl

/-! ## 2. What is missed -/

/-- **Between the neighbours `t` and `u`, with `before` in front of them, it matters what stands in
    front of all of these**: a semicolon is in parentheses that are opened there, or a sign has its
    first operand there and would be written as the sign of the second. -/
def Misses (dialect : Dialect) (front before : List Token) (t u : Token) : Prop :=
  u.kind ≠ .rightBrace ∧
    ((t.kind = .semicolon ∧ openParens before = 0 ∧ 0 < openParens (front ++ before)) ∨
      (BeforeOperand before t ∧ BetweenOperands (front ++ before) t ∧ u.kind.hugs = false ∧
        ¬ Spaced dialect before t u))

instance : Decidable (Misses d front before t u) := inferInstanceAs (Decidable (_ ∧ _))

/-- The same of some neighbours among `t` and the tokens behind it. -/
def MissesFrom (dialect : Dialect) (front : List Token) : List Token → Token → List Token → Prop
  | _, _, [] => False
  | before, t, u :: us =>
    Misses dialect front before t u ∨ MissesFrom dialect front (before ++ [t]) u us

instance decidableMissesFrom : ∀ (before : List Token) (t : Token) (us : List Token),
    Decidable (MissesFrom d front before t us)
  | _, _, [] => inferInstanceAs (Decidable False)
  | before, t, u :: us =>
    haveI := decidableMissesFrom (before ++ [t]) u us
    inferInstanceAs (Decidable (_ ∨ _))

/-- **The tokens of a region miss what stands in front of them**: the first is a closing brace that
    does not stand at the margin, or two neighbours miss it. -/
def MissesContext (dialect : Dialect) (front : List Token) : List Token → Prop
  | [] => False
  | t :: us => (t.kind = .rightBrace ∧ 1 < nesting 0 front) ∨ MissesFrom dialect front [] t us

instance : ∀ ts : List Token, Decidable (MissesContext d front ts)
  | [] => inferInstanceAs (Decidable False)
  | _ :: _ => inferInstanceAs (Decidable (_ ∨ _))

/-! ## 3. Neighbours -/

theorem openParens_le (front before : List Token) :
    openParens before ≤ openParens (front ++ before) := by
  induction before using List.reverseRecOn with
  | nil => exact Nat.zero_le _
  | append_singleton before t ih =>
    rw [← List.append_assoc, openParens_concat, openParens_concat]
    cases t.kind <;> dsimp only <;> omega

theorem lastPlain?_append (front before : List Token) :
    lastPlain? (front ++ before) = (lastPlain? before).or (lastPlain? front) := by
  rw [lastPlain?, List.filter_append, List.getLast?_append]
  rfl

/-- An operator that belongs to the operand behind it does so also if less is known. -/
theorem BeforeOperand.of_append (h : BeforeOperand (front ++ before) t) : BeforeOperand before t := by
  refine ⟨h.1, h.2.imp_right fun hsign => ⟨hsign.1, fun q hq => hsign.2 q ?_⟩⟩
  rw [lastPlain?_append, hq]
  rfl

/-- Behind a token that is no comment, it does not matter what stands in front of it. -/
theorem beforeOperand_concat (hc : t.kind.isComment = false) :
    BeforeOperand (front ++ before ++ [t]) u ↔ BeforeOperand (before ++ [t]) u := by
  have hlast : ∀ before, lastPlain? (before ++ [t]) = some t := by
    intro before
    rw [lastPlain?_concat, hc, if_neg Bool.false_ne_true]
  unfold BeforeOperand
  rw [hlast, hlast]

theorem betweenOperands_concat (hc : t.kind.isComment = false) :
    BetweenOperands (front ++ before ++ [t]) u ↔ BetweenOperands (before ++ [t]) u := by
  unfold BetweenOperands
  rw [beforeOperand_concat hc]

/-- Two neighbours on one line stand as far apart as in front of other tokens, unless the first is an
    operator whose first operand stands there. -/
theorem spaced_append (hends : ¬ EndsLine d before t u)
    (h : ¬ (BeforeOperand before t ∧ BetweenOperands (front ++ before) t)) :
    Spaced d (front ++ before) t u ↔ Spaced d before t u := by
  have hc : t.kind.isComment = false := by
    simpa using fun hc => hends (Or.inr (Or.inl hc))
  have hoperand : BeforeOperand (front ++ before) t ↔ BeforeOperand before t := by
    constructor
    · exact BeforeOperand.of_append
    · intro hb
      by_contra hn
      exact h ⟨hb, hb.1, hn⟩
  have hbetween : BetweenOperands (front ++ before) t ↔ BetweenOperands before t := by
    rw [BetweenOperands, BetweenOperands, hoperand]
  have hparens : t.kind = .semicolon →
      (0 < openParens (front ++ before) ↔ 0 < openParens before) := by
    intro hk
    have hle := openParens_le front before
    have hpos : openParens before ≠ 0 := fun e => hends (Or.inr (Or.inr (Or.inl ⟨hk, e⟩)))
    omega
  unfold Spaced SpaceBehind SpaceInFront SpaceBetween
  rw [and_congr_right hparens, beforeOperand_concat hc, betweenOperands_concat hc, hoperand, hbetween]

/-- What ends a line with more in front of it ends one without. -/
theorem EndsLine.of_append (h : EndsLine d (front ++ before) t u) : EndsLine d before t u := by
  have hle := openParens_le front before
  rcases h with hk | hk | ⟨hk, hzero⟩ | hk | hk
  · exact Or.inl hk
  · exact Or.inr (Or.inl hk)
  · exact Or.inr (Or.inr (Or.inl ⟨hk, by omega⟩))
  · exact Or.inr (Or.inr (Or.inr (Or.inl hk)))
  · exact Or.inr (Or.inr (Or.inr (Or.inr hk)))

/-- Nothing is missed where a line ends either way. -/
theorem EndsLine.not_misses (h : EndsLine d (front ++ before) t u) : ¬ Misses d front before t u := by
  rintro ⟨hbrace, ⟨hk, -, hpos⟩ | ⟨⟨hk, -⟩, -⟩⟩
  · simp [EndsLine, hk, hbrace, Kind.isComment] at h
    omega
  · simp [EndsLine, hk, hbrace, Kind.isComment] at h

/-- Only a semicolon ends a line where it would not end one with more in front of it. -/
theorem misses_of_endsLine (h : EndsLine d before t u) (h' : ¬ EndsLine d (front ++ before) t u) :
    Misses d front before t u := by
  have hbrace : u.kind ≠ .rightBrace := fun e => h' (Or.inr (Or.inr (Or.inr (Or.inl e))))
  rcases h with hk | hk | ⟨hk, hzero⟩ | hk | hk
  · exact absurd (Or.inl hk) h'
  · exact absurd (Or.inr (Or.inl hk)) h'
  · refine ⟨hbrace, Or.inl ⟨hk, hzero, Nat.pos_of_ne_zero fun e => h' ?_⟩⟩
    exact Or.inr (Or.inr (Or.inl ⟨hk, e⟩))
  · exact absurd hk hbrace
  · exact absurd (Or.inr (Or.inr (Or.inr (Or.inr hk)))) h'

/-- **Within a line, neighbours stand as far apart unless a sign misses its first operand.** -/
theorem spaced_iff_spaced_iff (hends : ¬ EndsLine d before t u) :
    (Spaced d before t u ↔ Spaced d (front ++ before) t u) ↔ ¬ Misses d front before t u := by
  have hbrace : u.kind ≠ .rightBrace := fun e => hends (Or.inr (Or.inr (Or.inr (Or.inl e))))
  have hsemicolon : ¬ (t.kind = .semicolon ∧ openParens before = 0 ∧
      0 < openParens (front ++ before)) :=
    fun h => hends (Or.inr (Or.inr (Or.inl ⟨h.1, h.2.1⟩)))
  by_cases hsign : BeforeOperand before t ∧ BetweenOperands (front ++ before) t
  · -- with all the tokens in front, a space stands behind the sign
    have hspaced : Spaced d (front ++ before) t u ↔ u.kind.hugs = false :=
      ⟨And.left, fun h => ⟨h, Or.inl (Or.inr (Or.inr (Or.inr (Or.inl hsign.2))))⟩⟩
    have hmiss : Misses d front before t u ↔ u.kind.hugs = false ∧ ¬ Spaced d before t u := by
      simp only [Misses, hsemicolon, false_or, hsign.1, hsign.2, true_and, ne_eq, hbrace,
        not_false_eq_true]
    have hhugs : Spaced d before t u → u.kind.hugs = false := And.left
    rw [hmiss, hspaced]
    tauto
  · have hmiss : ¬ Misses d front before t u := by
      rintro ⟨-, h | ⟨hbefore, hbetween, -⟩⟩
      · exact hsemicolon h
      · exact hsign ⟨hbefore, hbetween⟩
    exact iff_of_true (spaced_append hends hsign).symm hmiss

/-- **What stands between two neighbours is the same unless they miss what stands in front.** -/
theorem between_eq_iff (ho : style.Orderly)
    (hlevel : levelOf depth (before ++ [t]) u = levelOf depth' (front ++ before ++ [t]) u) :
    between style depth before t u = between style depth' (front ++ before) t u ↔
      ¬ Misses style.dialect front before t u := by
  unfold between
  by_cases hends' : EndsLine style.dialect (front ++ before) t u
  · rw [if_pos hends'.of_append, if_pos hends', hlevel]
    exact iff_of_true rfl hends'.not_misses
  by_cases hends : EndsLine style.dialect before t u
  · -- a new line is no space
    obtain ⟨c, nl, hnl, hterminator⟩ := ho.terminator.exists_head
    rw [if_pos hends, if_neg hends']
    refine iff_of_false (fun e => ?_) fun hn => hn (misses_of_endsLine hends hends')
    rw [hnl, List.cons_append] at e
    split at e
    · obtain rfl : c = ' ' := (List.cons.inj e).1
      cases hterminator
    · cases e
  · rw [if_neg hends, if_neg hends', ← spaced_iff_spaced_iff hends]
    by_cases hs : Spaced style.dialect before t u <;>
      by_cases hs' : Spaced style.dialect (front ++ before) t u <;> simp [hs, hs']

/-! ## 4. Rows -/

/-- Behind a token as deep, the depth is the same. -/
theorem after_depth (dialect : Dialect) (h : p.depthAt t.kind = q.depthAt t.kind) :
    (p.after dialect t).depth = (q.after dialect t).depth := by
  by_cases hk : t.kind = .leftBrace
  · have hdepth : p.depth = q.depth := by simpa [Spot.depthAt, hk] using h
    simp [Spot.after, hk, hdepth]
  · simp [Spot.after, hk, h]

theorem depthAt_congr (h : p.depth = q.depth) (kind : Kind) : p.depthAt kind = q.depthAt kind := by
  rw [Spot.depthAt, Spot.depthAt, h]

/-- Tokens as deep are written the same. -/
theorem pieces_tokens (style : Style) (us : List Token) (h : p.depth = q.depth) :
    (pieces style p us).map Prod.snd = (pieces style q us).map Prod.snd := by
  induction us generalizing p q with
  | nil => rfl
  | cons u us ih =>
    have hat := depthAt_congr h u.kind
    rw [pieces_cons, pieces_cons, List.map_cons, List.map_cons, ih (after_depth _ hat), hat]

/-- **Two rows of the same tokens are the same unless something is missed.** -/
theorem pieces_eq_iff (ho : style.Orderly) (us : List Token) (hp : Recalls depth before p)
    (hq : Recalls depth' (front ++ before) q)
    (h : (p.after style.dialect t).depth = (q.after style.dialect t).depth) :
    pieces style (p.after style.dialect t) us = pieces style (q.after style.dialect t) us ↔
      ¬ MissesFrom style.dialect front before t us := by
  induction us generalizing before t p q with
  | nil => exact iff_of_true rfl id
  | cons u us ih =>
    have hp' := hp.after style.dialect t
    have hq' := hq.after style.dialect t
    have hat := depthAt_congr h u.kind
    have hlevel : levelOf depth (before ++ [t]) u = levelOf depth' (front ++ before ++ [t]) u := by
      rw [← hp'.depthAt, ← hq'.depthAt, hat]
    rw [List.append_assoc] at hq'
    rw [pieces_cons, pieces_cons, hat, List.cons.injEq, Prod.mk.injEq, gap_eq_between hp,
      gap_eq_between hq, between_eq_iff ho hlevel, ih hp' hq' (after_depth _ hat), MissesFrom]
    tauto

/-- Layout in front of something else is all the layout there is. -/
theorem layout_cancel (hg : ∀ c ∈ g, Text.isLayoutChar c = true)
    (hg' : ∀ c ∈ g', Text.isLayoutChar c = true) (hy : ∀ c ∈ y.head?, Text.isLayoutChar c = false)
    (hy' : ∀ c ∈ y'.head?, Text.isLayoutChar c = false) (h : g ++ y = g' ++ y') :
    g = g' ∧ y = y' := by
  have hsame : g = g' := by
    rw [← takeWhile_append_stop hg hy, ← takeWhile_append_stop hg' hy', h]
  subst hsame
  exact ⟨rfl, List.append_cancel_left h⟩

/-- **A row can be told from its text and its tokens**, if its gaps are layout and its tokens do not
    begin with layout. -/
theorem spread_injective
    (hrow₁ : ∀ a ∈ row₁, ∀ c ∈ a.1, Text.isLayoutChar c = true)
    (hrow₂ : ∀ a ∈ row₂, ∀ c ∈ a.1, Text.isLayoutChar c = true)
    (hsolid : ∀ a ∈ row₁, ∃ c y, a.2.text = c :: y ∧ Text.isLayoutChar c = false)
    (htokens : row₁.map Prod.snd = row₂.map Prod.snd) (h : spread row₁ = spread row₂) :
    row₁ = row₂ := by
  induction row₁ generalizing row₂ with
  | nil => exact (List.map_eq_nil_iff.mp htokens.symm).symm
  | cons a row₁ ih =>
    cases row₂ with
    | nil => cases htokens
    | cons b row₂ =>
      obtain ⟨hab, htokens⟩ := List.cons.inj htokens
      obtain ⟨ha, hrow₁⟩ := List.forall_mem_cons.mp hrow₁
      obtain ⟨hb, hrow₂⟩ := List.forall_mem_cons.mp hrow₂
      obtain ⟨⟨c, y, hc, hlayout⟩, hsolid⟩ := List.forall_mem_cons.mp hsolid
      have hhead : ∀ more : Text, ∀ c' ∈ (a.2.text ++ more).head?, Text.isLayoutChar c' = false := by
        intro more c' hc'
        rw [hc] at hc'
        rw [← Option.some.inj hc']
        exact hlayout
      rw [spread_cons, spread_cons, ← hab] at h
      obtain ⟨hgap, hrest⟩ := layout_cancel ha hb (hhead _) (hhead _) h
      rw [ih hrow₁ hrow₂ hsolid htokens (List.append_cancel_left hrest)]
      exact congrArg (· :: row₂) (Prod.ext hgap hab)

/-! ## 5. Lines of a text that stays -/

/-- Nothing is missed where nothing is shown: no mark and no operator is white space. -/
theorem not_missesContext_of_void (hx : Text.isVoid x = true) :
    ¬ MissesContext d front (Token.significant (tokenize d x)) := by
  have hkind : ∀ t ∈ Token.significant (tokenize d x),
      t.kind ≠ .rightBrace ∧ t.kind ≠ .semicolon ∧ t.kind ≠ .operator := by
    intro t ht
    have hmem := (List.mem_filter.mp ht).1
    obtain ⟨rest, hreads⟩ := exists_reads_of_mem hmem
    have hspace : t.text.all Text.isSpace = true := by
      refine List.all_eq_true.mpr fun c hc => List.all_eq_true.mp hx c ?_
      rw [← joined_tokenize d x]
      exact List.mem_flatMap.mpr ⟨t, hmem, hc⟩
    have hoperators : ∀ op ∈ operators, op.all Text.isSpace = false := by decide
    refine ⟨fun hk => ?_, fun hk => ?_, fun hk => ?_⟩
    · rw [hreads.proper.mark (by simp [hk, Kind.mark]), hk] at hspace
      cases hspace
    · rw [hreads.proper.mark (by simp [hk, Kind.mark]), hk] at hspace
      cases hspace
    · rw [hoperators _ (hreads.proper.operator hk)] at hspace
      cases hspace
  have hfrom : ∀ (us before : List Token) (t : Token),
      (∀ u ∈ t :: us, u.kind ≠ .rightBrace ∧ u.kind ≠ .semicolon ∧ u.kind ≠ .operator) →
        ¬ MissesFrom d front before t us := by
    intro us
    induction us with
    | nil => exact fun _ _ _ => id
    | cons u us ih =>
      intro before t hall hmiss
      obtain ⟨⟨-, hsemicolon, hoperator⟩, hall⟩ := List.forall_mem_cons.mp hall
      rcases hmiss with ⟨-, h | h⟩ | hmiss
      · exact hsemicolon h.1
      · exact hoperator h.1.1
      · exact ih _ _ hall hmiss
  cases hts : Token.significant (tokenize d x) with
  | nil => exact id
  | cons t us =>
    rw [hts] at hkind
    rintro (h | h)
    · exact (hkind t List.mem_cons_self).1 h.1
    · exact hfrom us [] t hkind h

theorem length_times_eq (u : Text) (n : Nat) : (Text.times u n).length = n * u.length := by
  unfold Text.times
  split
  · next hempty => simp [List.isEmpty_iff.mp hempty]
  · rw [List.length_flatten, List.map_replicate, List.sum_replicate_nat]

/-- The gaps of a layout are layout, and its tokens do not begin with layout. -/
theorem solid_pieces (ho : style.Orderly) {ts : List Token} (h : Legible d ts) (p : Spot) :
    ∀ a ∈ pieces style p ts, (∀ c ∈ a.1, Text.isLayoutChar c = true) ∧
      ∃ c y, a.2.text = c :: y ∧ Text.isLayoutChar c = false := by
  induction ts generalizing p with
  | nil => exact nofun
  | cons t ts ih =>
    obtain ⟨hv, rest, hreads⟩ := h.head
    obtain ⟨c, y, htext, -, hc⟩ := hreads.written_head hv style (p.depthAt t.kind)
    rw [pieces_cons]
    exact List.forall_mem_cons.mpr ⟨⟨gap_layout ho p t, c, y, htext, hc⟩, ih h.tail _⟩

/-- The depth that a row at the start of a line is read back from. -/
theorem depthAt_eq_of_spread (ho : style.Orderly) (hunit : style.unit ≠ [])
    (hlegible : Legible d (t :: us)) (p q : Spot)
    (h : spread (pieces style p.afresh (t :: us)) = spread (pieces style q.afresh (t :: us))) :
    p.depthAt t.kind = q.depthAt t.kind := by
  have hhead : ∀ {row : List (Text × Token)} {g : Text} {z : Token} {p : Spot},
      pieces style p (t :: us) = (g, z) :: row → (∀ c ∈ g, Text.isLayoutChar c = true) ∧
        ∀ c ∈ (z.text ++ spread row).head?, Text.isLayoutChar c = false := by
    intro row g z p e
    obtain ⟨hg, c, y, hz, hc⟩ :=
      solid_pieces ho hlegible p (g, z) (by rw [e]; exact List.mem_cons_self)
    refine ⟨hg, fun c' hc' => ?_⟩
    dsimp only at hz
    rw [hz] at hc'
    rw [← Option.some.inj hc']
    exact hc
  have hp := pieces_afresh style p t us
  have hq := pieces_afresh style q t us
  obtain ⟨hg, hz⟩ := hhead hp
  obtain ⟨hg', hz'⟩ := hhead hq
  rw [hp, hq, spread_cons, spread_cons] at h
  have hindent := congrArg List.length (layout_cancel hg hg' hz hz' h).1
  rw [length_times_eq, length_times_eq] at hindent
  exact Nat.eq_of_mul_eq_mul_right (List.length_pos_iff.mpr hunit) hindent

/-- From the depth of its first token a row goes on as deep, unless that is a closing brace, which
    takes off a level that the depth is without already. -/
theorem depthAt_again_iff (hq : Recalls 0 front q) (k : Kind) :
    (Spot.start (q.depthAt k) true).depthAt k = q.depthAt k ↔
      ¬ (k = .rightBrace ∧ 1 < nesting 0 front) := by
  by_cases hk : k = .rightBrace
  · subst hk
    have hdepth : q.depthAt .rightBrace = nesting 0 front - 1 := hq.depthAt ⟨.rightBrace, []⟩
    change q.depthAt .rightBrace - 1 = q.depthAt .rightBrace ↔ _
    rw [hdepth]
    simp only [true_and]
    omega
  · have hother : ∀ p : Spot, p.depthAt k = p.depth := by
      intro p
      simp [Spot.depthAt, hk]
    exact iff_of_true (hother _) fun h => hk h.1

/-- **Rows of the same tokens at the start of a line have the same text exactly if nothing is
    missed.** -/
theorem spread_afresh_iff (ho : style.Orderly) (hunit : style.unit ≠ [])
    (hlegible : Legible d (t :: us)) (hq : Recalls 0 front q) :
    spread (pieces style (.start (q.depthAt t.kind) true) (t :: us)) =
        spread (pieces style q.afresh (t :: us)) ↔
      ¬ MissesContext style.dialect front (t :: us) := by
  have hsolid := fun p => solid_pieces ho hlegible p
  by_cases hdeep : t.kind = .rightBrace ∧ 1 < nesting 0 front
  · refine iff_of_false (fun h => ?_) fun hn => hn (Or.inl hdeep)
    have hsame := depthAt_eq_of_spread ho hunit hlegible (.start (q.depthAt t.kind) true) q h
    exact (depthAt_again_iff hq t.kind).mp hsame hdeep
  · have hat := (depthAt_again_iff hq t.kind).mpr hdeep
    have hdepth := after_depth style.dialect hat
    have hmiss : MissesContext style.dialect front (t :: us) ↔
        MissesFrom style.dialect front [] t us := or_iff_right hdeep
    rw [hmiss, ← pieces_eq_iff ho us (recalls_start (q.depthAt t.kind) true)
      (by rw [List.append_nil]; exact hq) hdepth]
    have hrow : pieces style (.start (q.depthAt t.kind) true) (t :: us) = _ :: _ :=
      pieces_afresh style (.start (q.depthAt t.kind) true) t us
    have hrow' := pieces_afresh style q t us
    rw [hat] at hrow
    constructor
    · intro h
      have hsame := spread_injective (fun a ha => (hsolid _ a ha).1) (fun a ha => (hsolid _ a ha).1)
        (fun a ha => (hsolid _ a ha).2) ?_ h
      · rw [hrow, hrow'] at hsame
        exact (List.cons.inj hsame).2
      · rw [hrow, hrow', List.map_cons, List.map_cons, pieces_tokens style us hdepth]
    · intro h
      rw [hrow, hrow', h]

/-- The layout of lines of a text that stays, from the depth of the first of them. -/
theorem LaidOut.formatRegion_lines {nl : Text} {offset length : Nat} {us : List Token}
    (h : LaidOut ⟨d, unit, nl⟩ x)
    (hu : unit = ['\t'] ∨ ∃ k, 1 ≤ k ∧ unit = List.replicate k ' ')
    (hstart : offset ∈ boundaries d x) (hend : offset + length ∈ boundaries d x)
    (hbegins : ∀ c ∈ (x.take offset).getLast?, Text.isTerminator c = true)
    (hends : ∃ c ∈ (x.take (offset + length)).getLast?, Text.isTerminator c = true)
    (hvoid : Text.isVoid (spanOf x offset length) = false)
    (hts : Token.significant (tokenize d (spanOf x offset length)) = t :: us) :
    formatRegion d (some unit) (some nl) x offset length =
      .ok (spread (pieces ⟨d, unit, nl⟩
        (.start ((spotBehind ⟨d, unit, nl⟩ (x.take offset)).depthAt t.kind) true)
        (t :: us)) ++ nl) := by
  have ho := h.orderly
  have hspan := h.span_lines hstart hend hbegins hends (by rw [hts]; exact List.cons_ne_nil _ _)
  have hrow := pieces_afresh ⟨d, unit, nl⟩ (spotBehind ⟨d, unit, nl⟩ (x.take offset)) t us
  rw [hts, hrow, spread_cons] at hspan
  obtain ⟨-, c, y, htext, hc⟩ := solid_pieces (d := d) ho (hts ▸ legible_significant d _)
    (spotBehind ⟨d, unit, nl⟩ (x.take offset)).afresh _ (by rw [hrow]; exact List.mem_cons_self)
  dsimp only at hspan htext
  -- the lead of the first line is its indentation
  have hlead : firstLead (x.drop offset) = Text.times unit
      ((spotBehind ⟨d, unit, nl⟩ (x.take offset)).depthAt t.kind) := by
    rw [← spanOf_append x offset length, hspan, htext]
    simp only [List.append_assoc, List.cons_append]
    exact firstLead_append (ho.blank_indent _) hc _
  have hall : (x.take offset).getLast?.all Text.isTerminator = true := by
    cases hlast : (x.take offset).getLast? with
    | none => rfl
    | some c => exact hbegins c hlast
  have hline : Text.lastLineStart (x.take offset) = offset := by
    have hbeq := lastLineStart_beq (x.take offset)
    rw [hall, beq_iff_eq, List.length_take_of_le (le_of_mem_boundaries hstart)] at hbeq
    exact hbeq
  have hout : formatRegion d (some unit) (some nl) x offset length =
      .ok (if Text.isVoid (spanOf x offset length) then spanOf x offset length
        else replacement ⟨d, unit, nl⟩ _ x offset length) :=
    formatRegion_at (by simpa using ho.unit) (by simpa using ho.terminator) d
      (le_of_mem_boundaries hend) (by rw [hline, hlead]; exact depthIn_times hu _)
  -- the region holds the end of its last line
  have hending :
      lineEnding ⟨d, unit, nl⟩ (spanOf x offset length) (x.drop (offset + length)) = nl := by
    have hlast : (spanOf x offset length).getLast?.any Text.isTerminator = true := by
      rw [hspan, List.getLast?_append_of_ne_nil _ ho.terminator.ne_nil]
      exact ho.terminator.last_any
    rw [lineEnding, lineEndFollows, hlast]
    rfl
  rw [hout, hvoid, if_neg Bool.false_ne_true, replacement, hall, hending]
  exact congrArg (fun ts => Except.ok (spread (pieces _ _ ts) ++ nl)) hts

/-- **When lines that are laid out stay as they are.** Let a text stay under its layout, with a tab or
    spaces for a unit and any terminator, and let a region of it be made of lines, between two
    boundaries. The region is laid out, and it stays as it is if and only if it misses nothing that
    stands in front of it: it does not begin with a closing brace that stands deeper than the margin,
    no line of it goes on behind a semicolon in parentheses that are opened in front of it, and it does
    not begin with a sign whose first operand stands in front of it. -/
theorem formatRegion_lines_iff (d : Dialect) (unit nl x : Text) (offset length : Nat)
    (hu : unit = ['\t'] ∨ ∃ k, 1 ≤ k ∧ unit = List.replicate k ' ') (hn : LineEnd nl)
    (hx : formatSource d (some unit) (some nl) x = .ok x) (hstart : offset ∈ boundaries d x)
    (hend : offset + length ∈ boundaries d x)
    (hbegins : ∀ c ∈ (x.take offset).getLast?, Text.isTerminator c = true)
    (hends : ∃ c ∈ (x.take (offset + length)).getLast?, Text.isTerminator c = true) :
    ∃ out, formatRegion d (some unit) (some nl) x offset length = .ok out ∧
      (out = spanOf x offset length ↔
        ¬ MissesContext d (Token.significant (tokenize d (x.take offset)))
          (Token.significant (tokenize d (spanOf x offset length)))) := by
  have hunit : unit ≠ [] ∧ ∀ c ∈ unit, Text.isBlank c = true := by
    rcases hu with rfl | ⟨k, hk, rfl⟩
    · simp [Text.isBlank]
    · refine ⟨fun e => ?_, fun c hc => ?_⟩
      · rw [List.replicate_eq_nil_iff] at e
        omega
      · rw [List.eq_of_mem_replicate hc]
        rfl
  cases hvoid : Text.isVoid (spanOf x offset length) with
  | true =>
    have hu' : ∀ u ∈ some unit, u ≠ [] ∧ ∀ c ∈ u, Text.isBlank c = true := by simpa using hunit
    have hn' : ∀ nl' ∈ some nl, LineEnd nl' := by simpa using hn
    obtain ⟨depth, hout⟩ := formatRegion_eq hu' hn' d (le_of_mem_boundaries hend)
    rw [hvoid, if_pos rfl] at hout
    exact ⟨_, hout, iff_of_true rfl (not_missesContext_of_void hvoid)⟩
  | false =>
    have hvoid' : Text.isVoid x = false := by
      refine Bool.eq_false_iff.mpr fun hall => ?_
      have hspan : Text.isVoid (spanOf x offset length) = true :=
        List.all_eq_true.mpr fun c hc =>
          List.all_eq_true.mp hall c (List.mem_of_mem_drop (List.mem_of_mem_take hc))
      rw [hvoid] at hspan
      cases hspan
    have hlaid := laidOut_of_formatSource hunit.2 hn hvoid' hx
    obtain ⟨t, us, hts⟩ := List.exists_cons_of_ne_nil (significant_ne_nil d hvoid)
    have hspan := hlaid.span_lines hstart hend hbegins hends (significant_ne_nil d hvoid)
    refine ⟨_, hlaid.formatRegion_lines hu hstart hend hbegins hends hvoid hts, ?_⟩
    have hlegible : Legible d (t :: us) := hts ▸ legible_significant d _
    have hrecalls : Recalls 0 (Token.significant (tokenize d (x.take offset)))
        (spotBehind ⟨d, unit, nl⟩ (x.take offset)) := (recalls_start 0 true).along d _
    rw [hts, ← spread_afresh_iff hlaid.orderly hunit.1 hlegible hrecalls]
    rw [hts] at hspan
    conv_lhs => rw [hspan]
    exact List.append_left_inj nl

/-- A comment and a block inside another one. -/
theorem formatRegion_lines_iff_block :
    (∃ k, 1 ≤ k ∧ "  ".toList = List.replicate k ' ') ∧ LineEnd ['\r', '\n'] ∧
    formatSource .rebeca (some "  ".toList) (some ['\r', '\n'])
        "m \x7b\r\n  // c\r\n  n \x7b\r\n  \x7d\r\n\x7d\r\n".toList =
      .ok "m \x7b\r\n  // c\r\n  n \x7b\r\n  \x7d\r\n\x7d\r\n".toList ∧
    5 ∈ boundaries .rebeca "m \x7b\r\n  // c\r\n  n \x7b\r\n  \x7d\r\n\x7d\r\n".toList ∧
    5 + 20 ∈ boundaries .rebeca "m \x7b\r\n  // c\r\n  n \x7b\r\n  \x7d\r\n\x7d\r\n".toList ∧
    (∀ c ∈ ("m \x7b\r\n  // c\r\n  n \x7b\r\n  \x7d\r\n\x7d\r\n".toList.take 5).getLast?,
      Text.isTerminator c = true) ∧
    (∃ c ∈ ("m \x7b\r\n  // c\r\n  n \x7b\r\n  \x7d\r\n\x7d\r\n".toList.take (5 + 20)).getLast?,
      Text.isTerminator c = true) ∧
    ∃ out, formatRegion .rebeca (some "  ".toList) (some ['\r', '\n'])
        "m \x7b\r\n  // c\r\n  n \x7b\r\n  \x7d\r\n\x7d\r\n".toList 5 20 = .ok out ∧
      out = spanOf "m \x7b\r\n  // c\r\n  n \x7b\r\n  \x7d\r\n\x7d\r\n".toList 5 20 := by
  have hu : ∃ k, 1 ≤ k ∧ "  ".toList = List.replicate k ' ' := ⟨2, by decide, rfl⟩
  have hx : formatSource .rebeca (some "  ".toList) (some ['\r', '\n'])
        "m \x7b\r\n  // c\r\n  n \x7b\r\n  \x7d\r\n\x7d\r\n".toList =
      .ok "m \x7b\r\n  // c\r\n  n \x7b\r\n  \x7d\r\n\x7d\r\n".toList := by decide +kernel
  have hstart : 5 ∈ boundaries .rebeca
      "m \x7b\r\n  // c\r\n  n \x7b\r\n  \x7d\r\n\x7d\r\n".toList := by decide +kernel
  have hend : 5 + 20 ∈ boundaries .rebeca
      "m \x7b\r\n  // c\r\n  n \x7b\r\n  \x7d\r\n\x7d\r\n".toList := by decide +kernel
  have hbegins : ∀ c ∈ ("m \x7b\r\n  // c\r\n  n \x7b\r\n  \x7d\r\n\x7d\r\n".toList.take 5).getLast?,
      Text.isTerminator c = true := by
    intro c hc
    rw [← Option.some.inj hc]
    rfl
  have hends : ∃ c ∈
      ("m \x7b\r\n  // c\r\n  n \x7b\r\n  \x7d\r\n\x7d\r\n".toList.take (5 + 20)).getLast?,
      Text.isTerminator c = true := ⟨'\n', rfl, rfl⟩
  obtain ⟨out, hout, hiff⟩ := formatRegion_lines_iff .rebeca "  ".toList ['\r', '\n'] _ 5 20
    (Or.inr hu) .returnFeed hx hstart hend hbegins hends
  exact ⟨hu, .returnFeed, hx, hstart, hend, hbegins, hends, out, hout,
    hiff.mpr (by decide +kernel)⟩

/-- Three texts that stay, and a line of each that does not: a closing brace loses a level, a semicolon
    in parentheses ends its line, and an operator between operands becomes a sign. -/
theorem formatRegion_lines_moved :
    (formatSource .rebeca (some ['\t']) (some ['\n'])
        "a \x7b\n\tb \x7b\n\t\x7d\n\x7d\n".toList =
        .ok "a \x7b\n\tb \x7b\n\t\x7d\n\x7d\n".toList ∧
      9 ∈ boundaries .rebeca "a \x7b\n\tb \x7b\n\t\x7d\n\x7d\n".toList ∧
      9 + 3 ∈ boundaries .rebeca "a \x7b\n\tb \x7b\n\t\x7d\n\x7d\n".toList ∧
      ("a \x7b\n\tb \x7b\n\t\x7d\n\x7d\n".toList.take 9).getLast? = some '\n' ∧
      spanOf "a \x7b\n\tb \x7b\n\t\x7d\n\x7d\n".toList 9 3 = "\t\x7d\n".toList ∧
      formatRegion .rebeca (some ['\t']) (some ['\n'])
        "a \x7b\n\tb \x7b\n\t\x7d\n\x7d\n".toList 9 3 =
        .ok "\x7d\n".toList) ∧
    (formatSource .rebeca (some ['\t']) (some ['\n'])
        "for (i; // c\nj; k) x;\n".toList =
        .ok "for (i; // c\nj; k) x;\n".toList ∧
      13 ∈ boundaries .rebeca "for (i; // c\nj; k) x;\n".toList ∧
      13 + 9 ∈ boundaries .rebeca "for (i; // c\nj; k) x;\n".toList ∧
      ("for (i; // c\nj; k) x;\n".toList.take 13).getLast? = some '\n' ∧
      spanOf "for (i; // c\nj; k) x;\n".toList 13 9 = "j; k) x;\n".toList ∧
      formatRegion .rebeca (some ['\t']) (some ['\n']) "for (i; // c\nj; k) x;\n".toList 13 9 =
        .ok "j;\nk) x;\n".toList) ∧
    (formatSource .rebeca (some ['\t']) (some ['\n'])
        "x = a // c\n- b;\n".toList =
        .ok "x = a // c\n- b;\n".toList ∧
      11 ∈ boundaries .rebeca "x = a // c\n- b;\n".toList ∧
      11 + 5 ∈ boundaries .rebeca "x = a // c\n- b;\n".toList ∧
      ("x = a // c\n- b;\n".toList.take 11).getLast? = some '\n' ∧
      spanOf "x = a // c\n- b;\n".toList 11 5 = "- b;\n".toList ∧
      formatRegion .rebeca (some ['\t']) (some ['\n']) "x = a // c\n- b;\n".toList 11 5 =
        .ok "-b;\n".toList) := by
  decide +kernel

end RebecaLayout
