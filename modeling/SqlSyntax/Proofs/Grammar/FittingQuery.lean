import SqlSyntax.Proofs.Grammar.FittingSource
import SqlSyntax.Proofs.Grammar.Parenthesized
import SqlSyntax.Proofs.Query.Chain

/-!
# Queries that are read fit

A combination of queries groups to the left, and `INTERSECT` takes what stands behind it before
`UNION` and `EXCEPT` do.  So the operands of a combination that was read bind tightly enough to
be written without parentheses, unless they were read in some.  Clauses behind a query and common
table expressions in front are read with the levels of the query.

## Main results

* `iterate_keeps`, `iterate_ends` — what holds at the end of a loop.
* `run_combination_fits` — **a combination fits in the levels with which it is read.**
* `Rule.value_fits` — so does the value of every rule.
-/

namespace SqlSyntax

variable {α σ : Type} {n : Nat}

/-! ### Loops -/

namespace Parser

variable {b : Boundary} {rules : (r : Rule) → Cursor → Outcome r.Result}
variable {step : σ → Parser (Option σ)} {c c' : Cursor} {s s' : σ}

/-- What each turn of a loop keeps holds at its end. -/
theorem iterate_keeps {P : σ → Cursor → Prop}
    (hstep : ∀ s c, P s c → ∀ s' c', (step s).runWith b rules c = .ok (some s') c' → P s' c')
    (hs : P s c) (hrun : (iterate step s).runWith b rules c = .ok s' c') : ∃ d, P s' d := by
  have hmost (k : Nat) (s : σ) (c : Cursor) (hs : P s c)
      (hrun : (iterateAtMost step k s).runWith b rules c = .ok s' c') : ∃ d, P s' d := by
    induction k generalizing s c with
    | zero =>
      cases hrun
      exact ⟨_, hs⟩
    | succ k ih =>
      obtain ⟨found, c₁, hfound, hrest⟩ := ok_bind hrun
      cases found with
      | none =>
        cases hrest
        exact ⟨_, hs⟩
      | some s₁ => exact ih s₁ c₁ (hstep s c hs s₁ c₁ hfound) hrest
  exact hmost (c.room + 1) s c hs hrun

/-- A loop whose turns move on ends where its step finds the end. -/
theorem iterate_ends
    (hmoves : ∀ s c s' c', (step s).runWith b rules c = .ok (some s') c' →
      c'.run.length < c.run.length)
    (hrun : (iterate step s).runWith b rules c = .ok s' c') :
    ∃ d, (step s').runWith b rules d = .ok none c' := by
  have hmost (k : Nat) (s : σ) (c : Cursor) (hroom : c.run.length < k)
      (hrun : (iterateAtMost step k s).runWith b rules c = .ok s' c') :
      ∃ d, (step s').runWith b rules d = .ok none c' := by
    induction k generalizing s c with
    | zero => exact absurd hroom (Nat.not_lt_zero _)
    | succ k ih =>
      obtain ⟨found, c₁, hfound, hrest⟩ := ok_bind hrun
      cases found with
      | none =>
        cases hrest
        exact ⟨c, hfound⟩
      | some s₁ =>
        have hless := hmoves s c s₁ c₁ hfound
        exact ih s₁ c₁ (by omega) hrest
  exact hmost (c.room + 1) s c (by rw [c.room_eq]; exact Nat.lt_succ_self _) hrun

end Parser

namespace Grammar

open SqlSyntax.Parser

variable {K : Known} {s left : Select}

/-! ### Simple queries -/

theorem outputColumns_fit : outputColumns.Yields (fitting n)
    fun ts => ∀ t ∈ ts, ∀ v ∈ t.value, v = .column [.star] ∨ v.ValueFits n := by
  have hcolumn : outputColumn.Yields (fitting n)
      fun t => ∀ v ∈ t.value, v = .column [.star] ∨ v.ValueFits n := by
    unfold outputColumn
    refine yields_bind_any fun star => yields_ite (fun _ => ?_) fun _ => ?_
    · exact yields_pure (forall_mem_some (.inl rfl))
    · refine expression_fits.bind fun v hv => yields_bind_any fun name => ?_
      exact yields_pure (forall_mem_some (.inr hv))
  unfold outputColumns
  refine yields_bind_any fun k => yields_ite (fun _ => yields_pure (List.forall_mem_nil _)) fun _ => ?_
  exact yields_commaList_mem hcolumn

/-- Without operands and common table expressions, a query fits if its clauses do. -/
theorem isOperand_simple (hop : s.op = .none) (hleft : s.left = none) (hright : s.right = none)
    (htail : s.hasTail = false) (hctes : s.ctes = none) (h : s.ClausesFit n) :
    s.IsOperand SetOp.none.precedence n := by
  refine .inl ⟨htail, by rw [hop], .mk h ?_ ?_ ?_⟩
  · rw [hctes]
    exact nofun
  · rw [hleft]
    exact nofun
  · rw [hright]
    exact nofun

theorem selection_fits :
    selection.Yields (fitting n) (Select.IsOperand · SetOp.none.precedence n) := by
  unfold selection
  refine yields_bind_any fun distinct => outputColumns_fit.bind fun targets htargets => ?_
  refine (yields_listAfter .FROM sources_fit).bind fun items hitems => ?_
  refine yields_bind_any fun condition => yields_bind_any fun groups => ?_
  refine yields_bind_any fun having => yields_bind_any fun windows => yields_pure ?_
  exact isOperand_simple rfl rfl rfl rfl rfl
    ⟨htargets, nofun, hitems, nofun, nofun, nofun, nofun, nofun⟩

theorem rows_fit : rows.Yields (fitting n) (Select.IsOperand · SetOp.none.precedence n) := by
  have hvalue : valueOrDefault.Yields (fitting n) fun v => v = .default ∨ v.ValueFits n := by
    unfold valueOrDefault
    refine yields_bind_any fun default => yields_ite (fun _ => yields_pure (.inl rfl)) fun _ => ?_
    exact expression_fits.mono fun v hv => .inr hv
  have hrow : row.Yields (fitting n) fun r => ∀ v ∈ r, v = .default ∨ v.ValueFits n :=
    yields_parenthesized (yields_commaList_mem hvalue)
  unfold rows
  refine yields_bind_any fun first => yields_bind_any fun _ => ?_
  refine (yields_commaList_mem hrow).bind fun rs hrs => ?_
  refine yields_ite (fun _ => yields_pure ?_) fun _ => yields_refuseSince _ _
  exact isOperand_simple rfl rfl rfl rfl rfl
    ⟨nofun, hrs, nofun, nofun, nofun, nofun, nofun, nofun⟩

/-- A query in parentheses takes a level for them. -/
theorem simpleQuery_fits :
    simpleQuery.Yields (fitting n) (Select.IsOperand · SetOp.none.precedence n) := by
  unfold simpleQuery
  refine yields_bind_any fun k => ?_
  split
  · exact yields_bind_any fun _ => selection_fits
  · exact rows_fit
  · exact (yields_parenthesized query_fits).mono fun s hs => .inr hs
  · exact yields_unexpected _

/-! ### Combinations -/

theorem combinedWith_fits (op : SetOp) (hleft : left.IsOperand op.precedence n)
    {right : Parser Select}
    (hright : right.Yields (fitting n) (Select.IsOperand · (op.precedence + 1) n)) :
    (combinedWith op left right).Yields (fitting n) (Select.IsOperand · op.precedence n) := by
  unfold combinedWith
  refine yields_bind_any fun all => hright.bind fun s hs => yields_pure ?_
  exact Select.isOperand_combined all hleft hs

theorem moreIntersected_fits (hleft : left.IsOperand SetOp.intersect.precedence n) :
    (moreIntersected left).Yields (fitting n)
      fun o => ∀ s ∈ o, s.IsOperand SetOp.intersect.precedence n := by
  unfold moreIntersected
  refine yields_bind_any fun found => yields_ite (fun _ => ?_) fun _ => yields_pure forall_mem_none
  exact (combinedWith_fits .intersect hleft simpleQuery_fits).bind fun s hs =>
    yields_pure (forall_mem_some hs)

theorem intersection_fits :
    intersection.Yields (fitting n) (Select.IsOperand · SetOp.intersect.precedence n) := by
  unfold intersection
  refine simpleQuery_fits.bind fun s hs => ?_
  exact yields_iterate (hs.mono (by decide)) fun left hleft => moreIntersected_fits hleft

/-- The second query of a combination binds more tightly than its word. -/
theorem secondQuery_fits {op : SetOp} (hop : op ≠ .none) :
    (secondQuery op).Yields (fitting n) (Select.IsOperand · (op.precedence + 1) n) := by
  cases op with
  | none => exact absurd rfl hop
  | intersect => exact simpleQuery_fits
  | union | except => exact intersection_fits

end Grammar

/-! ### Runs of combinations -/

/-- Rules that are run with `n` levels, in a statement that does not end in the middle of a
combination. -/
structure RulesFit (b : Boundary) (rules : (r : Rule) → Cursor → Outcome r.Result) (n : Nat) :
    Prop where
  reaches : ∀ r (c : Cursor), c.Reaches (rules r c).cursor
  value : ∀ r c v c', Parser.Fits (fitting n) b c → rules r c = .ok v c' → (fitting n).value r v
  stop : b.stop ≠ .keyword .INTERSECT

variable {b : Boundary} {rules : (r : Rule) → Cursor → Outcome r.Result} {c c' : Cursor}
variable {s left : Select}

theorem RulesFit.of_run (h : RulesFit b rules n) {p : Parser α} {P : α → Prop} {a : α}
    (hp : p.Yields (fitting n) P) (hc : Parser.Fits (fitting n) b c)
    (hrun : p.runWith b rules c = .ok a c') : P a ∧ Parser.Fits (fitting n) b c' := by
  have hreach := Parser.reaches_runWith (b := b) h.reaches p c
  rw [hrun] at hreach
  exact ⟨Parser.Ensures.of_runWith h.reaches h.value hc (hp _ hc.current) hrun, hc.of_reaches hreach⟩

namespace Grammar

open SqlSyntax.Parser

/-- Behind `INTERSECT` the run moves on. -/
theorem run_moreIntersected_moves (h : RulesFit b rules n)
    (hrun : (moreIntersected left).runWith b rules c = .ok (some s) c') :
    c'.run.length < c.run.length := by
  have hcurrent : c.current b = .keyword .INTERSECT := by
    by_contra hne
    rw [run_moreIntersected_none hne] at hrun
    cases hrun
  obtain ⟨ts, hts⟩ : ∃ ts, c.run = .keyword .INTERSECT :: ts := by
    unfold Cursor.current at hcurrent
    cases hc : c.run with
    | nil =>
      rw [hc] at hcurrent
      exact absurd hcurrent h.stop
    | cons k ts =>
      rw [hc] at hcurrent
      exact ⟨ts, congrArg (· :: ts) hcurrent⟩
  obtain ⟨found, c₁, haccept, hbody⟩ := ok_bind hrun
  have hadvance : c₁ = c.advance := by
    simp only [acceptWord, accept, isAt, kind, skip, bind_eq, Parser.bind, Parser.runWith, pure_eq,
      hcurrent, decide_true, if_true] at haccept
    cases haccept
    rfl
  have hreach := reaches_runWith (b := b) h.reaches
    (if found then (do return some (← combinedWith .intersect left simpleQuery)) else pure none) c₁
  rw [hbody, Outcome.cursor_ok, hadvance] at hreach
  have hle := hreach.length_le
  rw [run_advance_cons hts] at hle
  rw [hts]
  exact Nat.lt_succ_of_le hle

/-- Queries combined by `INTERSECT` end where that word does not stand. -/
theorem run_intersection_ends (h : RulesFit b rules n)
    (hrun : intersection.runWith b rules c = .ok s c') : c'.current b ≠ .keyword .INTERSECT := by
  obtain ⟨first, c₁, -, hmore⟩ := ok_bind hrun
  obtain ⟨d, hend⟩ := iterate_ends (fun s c s' c' => run_moreIntersected_moves h) hmore
  intro hcurrent
  by_cases hd : d.current b = .keyword .INTERSECT
  · simp only [moreIntersected, acceptWord, accept, isAt, kind, skip, bind_eq, Parser.bind,
      Parser.runWith, pure_eq, hd, decide_true, if_true] at hend
    obtain ⟨s', c₂, -, hend⟩ := ok_bind hend
    cases hend
  · rw [run_moreIntersected_none hd] at hend
    cases hend
    exact hd hcurrent

/-- What a combination is in front of its next word: it binds tightly enough for that. -/
structure Ready (b : Boundary) (n : Nat) (s : Select) (c : Cursor) : Prop where
  fits : Parser.Fits (fitting n) b c
  operand : s.IsOperand SetOp.union.precedence n
  tight : c.current b = .keyword .INTERSECT → s.IsOperand SetOp.intersect.precedence n

theorem Ready.isOperand {op : SetOp} (h : Ready b n left c)
    (hop : (c.current b).keyword?.bind SetOp.ofWord? = some op) :
    op ≠ .none ∧ left.IsOperand op.precedence n := by
  generalize hk : c.current b = k at hop
  cases k with
  | keyword w =>
    cases w <;> cases hop
    · exact ⟨nofun, h.operand⟩
    · exact ⟨nofun, h.tight hk⟩
    · exact ⟨nofun, h.operand⟩
  | _ => cases hop

/-- Each word of a combination makes one that is ready for the next. -/
theorem run_moreCombined_fits (h : RulesFit b rules n) (hready : Ready b n left c)
    (hrun : (moreCombined left).runWith b rules c = .ok (some s) c') : Ready b n s c' := by
  rw [moreCombined, kind, bind_eq, Parser.bind, Parser.runWith, Parser.bind] at hrun
  cases hop : (c.current b).keyword?.bind SetOp.ofWord? with
  | none =>
    rw [hop] at hrun
    cases hrun
  | some op =>
    rw [hop] at hrun
    obtain ⟨hne, hleft⟩ := hready.isOperand hop
    obtain ⟨_, c₁, hskip, hword⟩ := ok_bind hrun
    have hfits := (h.of_run (yields_trivial skip) hready.fits hskip).2
    obtain ⟨s', c₂, hcombined, hend⟩ := ok_bind hword
    cases hend
    obtain ⟨hs, hfits'⟩ := h.of_run (combinedWith_fits op hleft (secondQuery_fits hne)) hfits hcombined
    refine ⟨hfits', hs.mono ?_, fun hcurrent => hs.mono ?_⟩
    · cases op <;> first | exact absurd rfl hne | decide
    · -- the second query of `UNION` or `EXCEPT` takes each `INTERSECT`
      obtain ⟨all, c₃, -, hsecond⟩ := ok_bind hcombined
      obtain ⟨right, c₄, hsecond, hend⟩ := ok_bind hsecond
      cases hend
      cases op with
      | none => exact absurd rfl hne
      | intersect => exact Nat.le_refl _
      | union | except => exact absurd hcurrent (run_intersection_ends h hsecond)

/-- **A combination fits in the levels with which it is read.** -/
theorem run_combination_fits (h : RulesFit b rules n) (hc : Parser.Fits (fitting n) b c)
    (hrun : combination.runWith b rules c = .ok s c') :
    s.Fits n ∧ Parser.Fits (fitting n) b c' := by
  have hfits := (h.of_run (yields_trivial combination) hc hrun).2
  obtain ⟨first, c₁, hfirst, hmore⟩ := ok_bind hrun
  obtain ⟨hfirst, hc₁⟩ := h.of_run simpleQuery_fits hc hfirst
  obtain ⟨d, hready⟩ := iterate_keeps (P := Ready b n)
    (fun left c hready s c' => run_moreCombined_fits h hready)
    ⟨hc₁, hfirst.mono (by decide), fun _ => hfirst.mono (by decide)⟩ hmore
  exact ⟨hready.operand.fits, hfits⟩

/-! ### Clauses behind a query -/

theorem queryOrder_fits (hs : s.Fits n) : (queryOrder s).Yields (fitting n) (Select.Fits · n) := by
  unfold queryOrder
  refine yields_bind_any fun first => yields_bind_any fun found => ?_
  refine yields_ite (fun _ => ?_) fun _ => yields_pure hs
  refine yields_bind_any fun _ => yields_ite (fun _ => ?_) fun _ => yields_fail _
  refine (yields_commaList_mem sortKey_plain.at_levels).bind fun order horder => yields_pure ?_
  exact hs.of_clauses { hs.clauses with order := horder } rfl rfl rfl rfl

theorem limit_fits (first : Nat) (hs : s.Fits n) :
    (limit first s).Yields (fitting n) (Select.Fits · n) := by
  have hcount : limitCount.Yields (fitting n) (Node.PlainIf True) := by
    unfold limitCount
    refine yields_bind_any fun all => yields_ite (fun _ => ?_) fun _ => ?_
    · exact yields_pure (Node.plainIf_const .null)
    · exact expression_fits.mono fun v hv => hv.1
  unfold limit
  refine yields_ite (fun _ => yields_fail _) fun _ => hcount.bind fun count hcount => ?_
  refine yields_bind_any fun comma => yields_ite (fun _ => ?_) fun _ => yields_pure ?_
  · exact yields_bind_any fun _ => yields_fail _
  · exact hs.of_clauses { hs.clauses with limit := forall_mem_some hcount } rfl rfl rfl rfl

theorem offset_fits (first : Nat) (hs : s.Fits n) :
    (offset first s).Yields (fitting n) (Select.Fits · n) := by
  unfold offset
  refine yields_ite (fun _ => yields_fail _) fun _ => expression_fits.bind fun count hcount => ?_
  have hoffset : ({ s with offset := some count } : Select).Fits n :=
    hs.of_clauses { hs.clauses with offset := forall_mem_some hcount.1 } rfl rfl rfl rfl
  refine yields_bind_any fun rows => yields_ite (fun _ => yields_pure hoffset) fun _ => ?_
  exact yields_bind_any fun _ => yields_pure hoffset

theorem fetch_fits (first : Nat) (hs : s.Fits n) :
    (fetch first s).Yields (fitting n) (Select.Fits · n) := by
  have hcount : fetchCount.Yields (fitting n) (Node.PlainIf True) := by
    unfold fetchCount
    refine yields_bind_any fun k => ?_
    split
    iterate 2
      · exact yields_pure (Node.plainIf_integer (by decide))
    · exact (operand_fits _).mono fun v hv => hv.1
  unfold fetch
  refine yields_ite (fun _ => yields_fail _) fun _ => yields_bind_any fun _ => ?_
  refine hcount.bind fun count hcount => yields_bind_any fun _ => ?_
  refine yields_bind_any fun style => yields_pure ?_
  exact hs.of_clauses { hs.clauses with limit := forall_mem_some hcount } rfl rfl rfl rfl

theorem locking_isRead : locking.Yields (fitting n)
    fun l => ∀ t ∈ l.tables, t.IsRead ∧ t.only = false ∧ t.label = none := by
  unfold locking
  refine yields_bind_any fun strength => ?_
  refine (yields_listAfter .OF (yields_commaList_mem tableName_isRead)).bind fun tables htables => ?_
  exact yields_bind_any fun wait => yields_pure htables

theorem moreClauses_fits (hs : s.Fits n) :
    (moreClauses s).Yields (fitting n) fun o => ∀ s' ∈ o, s'.Fits n := by
  have hsome {p : Parser Select} (hp : p.Yields (fitting n) (Select.Fits · n)) :
      (do return some (← p) : Parser (Option Select)).Yields (fitting n)
        fun o => ∀ s' ∈ o, s'.Fits n :=
    hp.bind fun s' hs' => yields_pure (forall_mem_some hs')
  unfold moreClauses
  refine yields_bind_any fun first => yields_bind_any fun k => ?_
  split
  · exact yields_bind_any fun _ => hsome (limit_fits first hs)
  · exact yields_bind_any fun _ => hsome (offset_fits first hs)
  · exact yields_bind_any fun _ => hsome (fetch_fits first hs)
  · refine yields_bind_any fun _ => locking_isRead.bind fun l hl => ?_
    refine yields_pure (forall_mem_some ?_)
    have hlocks := List.forall_mem_append.mpr ⟨hs.clauses.locks, List.forall_mem_singleton.mpr hl⟩
    exact hs.of_clauses { hs.clauses with locks := hlocks } rfl rfl rfl rfl
  · exact yields_pure forall_mem_none

theorem tail_fits (hs : s.Fits n) : (tail s).Yields (fitting n) (Select.Fits · n) := by
  unfold tail
  refine (queryOrder_fits hs).bind fun s₁ hs₁ => ?_
  refine (yields_iterate (P := fun s => s.Fits n) hs₁ fun s₂ hs₂ => moreClauses_fits hs₂).bind
    fun s' hs' => ?_
  refine yields_ite (fun _ => ?_) fun _ => yields_pure hs'
  exact yields_bind_any fun _ => yields_fail _

/-! ### Common table expressions -/

/-- Common table expressions that are read with `n` levels. -/
structure CtesFit (w : With) (n : Nat) : Prop where
  nonempty : w.ctes ≠ []
  names : ∀ c ∈ w.ctes, IsName c.name ∧ ∀ x ∈ c.columns, IsName x
  queries : ∀ c ∈ w.ctes, ∀ q, c.query = .select q → q.Fits (n - 1)

theorem ctes_fit : ctes.Yields (fitting n) (CtesFit · n) := by
  have hbody : cteBody.Yields (fitting n) fun v => ∀ q, v = .select q → q.Fits (n - 1) := by
    unfold cteBody
    refine yields_bind_any fun o => ?_
    split
    · next c => exact yields_pure fun q hq => absurd hq (noQuery_change c q)
    · refine query_fits.bind fun q hq => yields_pure ?_
      rintro q' ⟨⟩
      exact hq
  have hcte : cte.Yields (fitting n) fun c => (IsName c.name ∧ ∀ x ∈ c.columns, IsName x) ∧
      ∀ q, c.query = .select q → q.Fits (n - 1) := by
    unfold cte
    refine name_isRead.bind fun s hs => optionalNameList_isRead.bind fun columns hcolumns => ?_
    refine yields_bind_any fun _ => yields_bind_any fun m => ?_
    exact (yields_parenthesized hbody).bind fun v hv => yields_pure ⟨⟨hs, hcolumns⟩, hv⟩
  unfold ctes
  refine yields_bind_any fun recursive => (yields_commaList hcte).bind fun items hitems => ?_
  exact yields_pure ⟨hitems.1, fun c hc => (hitems.2 c hc).1, fun c hc => (hitems.2 c hc).2⟩

/-! ### Rules -/

theorem run_queryAfter_fits (h : RulesFit b rules n) (hc : Parser.Fits (fitting n) b c) {w : With}
    (hw : CtesFit w n) (hrun : (queryAfter w).runWith b rules c = .ok s c') :
    s.Fits n ∧ s.ctes = some w := by
  obtain ⟨first, c₁, hindex, hrun⟩ := ok_bind hrun
  have hc := (h.of_run (yields_trivial index) hc hindex).2
  obtain ⟨s₁, c₂, hwhole, hend⟩ := ok_bind (p := combination >>= tail) (by rw [bind_assoc]; exact hrun)
  obtain ⟨s₀, c₃, hcombination, htail⟩ := ok_bind hwhole
  obtain ⟨hs₀, hc⟩ := run_combination_fits h hc hcombination
  have hs₁ := (h.of_run (tail_fits hs₀) hc htail).1
  cases hctes : s₁.ctes with
  | some _ =>
    rw [if_pos (by rw [hctes]; rfl)] at hend
    cases hend
  | none =>
    rw [if_neg (by rw [hctes]; exact Bool.false_ne_true)] at hend
    cases hend
    exact ⟨hs₁.withCtes hw.nonempty hw.names hw.queries, rfl⟩

theorem run_queryWithClauses_fits (h : RulesFit b rules n) (hc : Parser.Fits (fitting n) b c)
    (hrun : queryWithClauses.runWith b rules c = .ok s c') : s.Fits n := by
  obtain ⟨found, c₁, haccept, hbody⟩ := ok_bind hrun
  have hc := (h.of_run (yields_trivial (acceptWord .WITH)) hc haccept).2
  split at hbody
  · obtain ⟨w, c₂, hctes, hafter⟩ := ok_bind hbody
    obtain ⟨hw, hc⟩ := h.of_run ctes_fit hc hctes
    exact (run_queryAfter_fits h hc hw hafter).1
  · obtain ⟨s₀, c₂, hcombination, htail⟩ := ok_bind hbody
    obtain ⟨hs₀, hc⟩ := run_combination_fits h hc hcombination
    exact (h.of_run (tail_fits hs₀) hc htail).1

end Grammar

/-- **The value of a rule fits in the levels with which it is run.** -/
theorem Rule.value_fits (hstop : b.stop ≠ .keyword .INTERSECT) {depth : Nat} {r : Rule}
    {v : r.Result} (hc : Parser.Fits (fitting depth) b c) (hrun : r.run b depth c = .ok v c') :
    (fitting depth).value r v := by
  induction depth generalizing r c c' with
  | zero => cases hrun
  | succ depth ih =>
    have h : RulesFit b (Rule.run b depth) depth :=
      ⟨Rule.reaches_run b depth, fun r c v c' hc hrun => ih hc hrun, hstop⟩
    have hc : Parser.Fits (fitting depth) b c := ⟨hc.run, hc.stop, hc.beyond⟩
    have hplain := (h.of_run (Grammar.body_plain r).at_levels hc hrun).1
    cases r with
    | expression above => exact ⟨hplain, Nat.succ_pos depth⟩
    | query => exact Grammar.run_queryWithClauses_fits h hc hrun
    | enclosed | elements => exact hplain
    | enclosedSource => exact (h.of_run Grammar.enclosedSource_fits hc hrun).1

theorem rulesFit_run (hstop : b.stop ≠ .keyword .INTERSECT) (n : Nat) :
    RulesFit b (Rule.run b n) n :=
  ⟨Rule.reaches_run b n, fun _ _ _ _ hc hrun => Rule.value_fits hstop hc hrun, hstop⟩

/-! ### Statements -/

namespace Grammar

open SqlSyntax.Parser

/-- A query that is a statement takes no level if common table expressions stand in front, and one
otherwise. -/
theorem run_statement_fits (h : RulesFit b rules n) (hc : Parser.Fits (fitting n) b c)
    (hrun : statement.runWith b rules c = .ok (.select s) c') :
    s.Fits n ∧ (s.ctes = none → s.Fits (n - 1)) := by
  have hselect {p : Parser Select} (hp : p.Yields (fitting n) (Select.Fits · (n - 1)))
      (hrun : (do return Node.select (← p) : Parser Node).runWith b rules c = .ok (.select s) c') :
      s.Fits n ∧ (s.ctes = none → s.Fits (n - 1)) := by
    obtain ⟨s', c₁, hp', hend⟩ := ok_bind hrun
    cases hend
    have hs := (h.of_run hp hc hp').1
    exact ⟨hs.mono (Nat.sub_le n 1), fun _ => hs⟩
  obtain ⟨k, c₁, hkind, hrun⟩ := ok_bind hrun
  obtain rfl : c = c₁ := (Outcome.ok.inj hkind).2
  split at hrun
  iterate 3
    · exact hselect query_fits hrun
  · obtain ⟨_, c₁, hskip, hrun⟩ := ok_bind hrun
    have hc := (h.of_run (yields_trivial skip) hc hskip).2
    obtain ⟨w, c₂, hctes, hrun⟩ := ok_bind hrun
    obtain ⟨hw, hc⟩ := h.of_run ctes_fit hc hctes
    obtain ⟨o, c₃, hchange, hrun⟩ := ok_bind hrun
    have hc := (h.of_run (yields_trivial change?) hc hchange).2
    cases o with
    | some x => exact absurd (Outcome.ok.inj hrun).1 (noQuery_change (x.withCtes w) s)
    | none =>
      obtain ⟨s', c₄, hafter, hend⟩ := ok_bind hrun
      cases hend
      obtain ⟨hs, hsome⟩ := run_queryAfter_fits h hc hw hafter
      refine ⟨hs, fun hnone => ?_⟩
      rw [hnone] at hsome
      cases hsome
  · exact absurd rfl ((h.of_run otherStatement_noQuery hc hrun).1 s)

end Grammar
end SqlSyntax
