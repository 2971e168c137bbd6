import SqlSyntax.Proofs.Source.Joins

/-!
# Checking for queries of constants

Whether a query or an item of `FROM` is made of constants is computed, down to a depth.

## Main definitions

* `Select.isOfConstants` — whether a query is made of constants.
* `Node.isJoined` — whether an item is joined from tables and subqueries of constants.

## Main results

* `Select.elementary_of_isOfConstants`, `Node.joined_of_isJoined` — **what passes the check is as
  it says.**
-/

namespace SqlSyntax

variable {depth : Nat} {v : Node} {s : Select}

/-! ### Constants -/

/-- Whether a node is a constant without a sign. -/
def Node.isConstant : Node → Bool
  | .const l => !l.isNegative
  | _ => false

theorem Node.isConstant_of_isConstant (h : v.isConstant = true) : v.IsConstant := by
  unfold isConstant at h
  split at h
  · exact ⟨_, rfl, by simpa using h⟩
  · cases h

theorem Node.isConstant_of_all {o : Option Node} (h : o.all isConstant = true) :
    ∀ v ∈ o, v.IsConstant := by
  rintro v rfl
  exact isConstant_of_isConstant h

theorem isIdentifier_of_lookup {s : String} (h : Keyword.lookup s.toList = none) : IsIdentifier s := by
  rintro w rfl
  rw [w.lookup_spelling] at h
  cases h

/-! ### Queries -/

/-- Whether a node is a query for which a test succeeds. -/
def Node.isQueryWith (test : Select → Bool) : Node → Bool
  | .select s => test s
  | _ => false

theorem Node.eq_select_of_isQueryWith {test : Select → Bool} (h : v.isQueryWith test = true) :
    ∃ q, v = .select q ∧ test q = true := by
  unfold isQueryWith at h
  split at h
  · exact ⟨_, rfl, h⟩
  · cases h

/-- A script whose first statement is a query for which a test succeeds has such a query. -/
theorem exists_query_of_isQueryWith {d : Dialect} {source : List Char} {test : Select → Bool}
    (h : ((parse d source).statements.head?.map RawStatement.node).any (Node.isQueryWith test) = true) :
    ∃ s, .select s ∈ (parse d source).statements.map RawStatement.node ∧ test s = true := by
  obtain ⟨n, hn, hquery⟩ := (Option.any_eq_true _ _).mp h
  obtain ⟨r, hr, rfl⟩ := Option.map_eq_some_iff.mp hn
  obtain ⟨s, hs, htest⟩ := Node.eq_select_of_isQueryWith hquery
  exact ⟨s, hs ▸ List.mem_map_of_mem (List.mem_of_head? hr), htest⟩

namespace Select

/-- Whether a query selects constants, and there is nothing else to it. -/
def isSelection : Select → Bool
  | ⟨none, targets, [], none, [], none, [], [], [], none, none, .unlimited, [], none, .none, false,
      none, none⟩ =>
    !targets.isEmpty && targets.all fun t => t.name.isNone && t.value.any Node.isConstant
  | _ => false

/-- Whether a query consists of rows of constants. -/
def isRows : Select → Bool
  | ⟨none, [], [], none, [], none, [], rows, [], none, none, .unlimited, [], none, .none, false,
      none, none⟩ =>
    !rows.isEmpty && rows.all fun r => r.all Node.isConstant
  | _ => false

/-- Whether a query is a combination of two that pass a test. -/
def isCombination (test : Select → Bool) : Select → Bool
  | ⟨none, [], [], none, [], none, [], [], [], none, none, .unlimited, [], none, op, _, some l,
      some r⟩ =>
    op != .none && test l && test r
  | _ => false

/-- Whether a query is made of constants and of queries that nest less than `depth` deep. -/
def isOfConstants : (depth : Nat) → Select → Bool
  | 0, _ => false
  | depth + 1, s =>
    s.order.all (fun k => k.key.isConstant) && s.limit.all Node.isConstant
      && s.offset.all Node.isConstant
      && s.ctes.all (fun w => w.ctes.all fun c =>
        (Keyword.lookup c.name.toList).isNone && c.query.isQueryWith (isOfConstants depth))
      && (s.core.isSelection || s.core.isRows || s.core.isCombination (isOfConstants depth))

theorem exists_ofColumns {targets : List Target}
    (h : ∀ t ∈ targets, (t.name.isNone && t.value.any Node.isConstant) = true) :
    ∃ es : List Node, targets = (es.map fun e => ⟨none, some e⟩) ∧ ∀ e ∈ es, e.IsConstant := by
  induction targets with
  | nil => exact ⟨[], rfl, List.forall_mem_nil _⟩
  | cons t targets ih =>
    obtain ⟨ht, htargets⟩ := List.forall_mem_cons.mp h
    obtain ⟨es, rfl, hes⟩ := ih htargets
    obtain ⟨name, value⟩ := t
    rw [Bool.and_eq_true, Option.isNone_iff_eq_none, Option.any_eq_true] at ht
    obtain ⟨rfl, e, rfl, he⟩ := ht
    exact ⟨e :: es, rfl, List.forall_mem_cons.mpr ⟨Node.isConstant_of_isConstant he, hes⟩⟩

theorem eq_ofColumns_of_isSelection (h : s.isSelection = true) :
    ∃ es, s = .ofColumns es ∧ es ≠ [] ∧ ∀ e ∈ es, e.IsAtom := by
  unfold isSelection at h
  split at h
  · rw [Bool.and_eq_true, Bool.not_eq_true', List.isEmpty_eq_false_iff] at h
    obtain ⟨es, rfl, hes⟩ := exists_ofColumns fun t ht => List.all_eq_true.mp h.2 t ht
    exact ⟨es, rfl, fun hnil => h.1 (hnil ▸ rfl), fun e he => .inl (hes e he)⟩
  · cases h

theorem elementary_of_isRows (h : s.isRows = true) : s.Elementary := by
  unfold isRows at h
  split at h
  · rw [Bool.and_eq_true, Bool.not_eq_true', List.isEmpty_eq_false_iff] at h
    refine .rows h.1 fun r hr v hv => .inl (Node.isConstant_of_isConstant ?_)
    exact List.all_eq_true.mp (List.all_eq_true.mp h.2 r hr) v hv
  · cases h

theorem elementary_of_isCombination {test : Select → Bool} (htest : ∀ q, test q = true → q.Elementary)
    (h : s.isCombination test = true) : s.Elementary := by
  unfold isCombination at h
  split at h
  · simp only [Bool.and_eq_true, bne_iff_ne] at h
    exact .combined h.1.1 _ (htest _ h.1.2) (htest _ h.2)
  · cases h

/-- **What passes the check for constants is made of them.** -/
theorem elementary_of_isOfConstants (h : s.isOfConstants depth = true) : s.Elementary := by
  induction depth generalizing s with
  | zero => cases h
  | succ depth ih =>
    simp only [isOfConstants, Bool.and_eq_true] at h
    obtain ⟨⟨⟨⟨horder, hlimit⟩, hoffset⟩, hctes⟩, hcore⟩ := h
    have htail : s.AtomicTail :=
      ⟨fun k hk => .inl (Node.isConstant_of_isConstant (List.all_eq_true.mp horder k hk)),
        Node.isConstant_of_all hlimit, Node.isConstant_of_all hoffset⟩
    have hcte : ∀ w ∈ s.ctes, ∀ c ∈ w.ctes,
        IsIdentifier c.name ∧ ∃ q, c.query = .select q ∧ q.Elementary := by
      intro w hw c hc
      rw [hw] at hctes
      have hboth := List.all_eq_true.mp hctes c hc
      rw [Bool.and_eq_true, Option.isNone_iff_eq_none] at hboth
      obtain ⟨q, hq, htest⟩ := Node.eq_select_of_isQueryWith hboth.2
      exact ⟨isIdentifier_of_lookup hboth.1, q, hq, ih htest⟩
    have hcore : s.core.Elementary := by
      simp only [Bool.or_eq_true] at hcore
      obtain (h | h) | h := hcore
      · obtain ⟨es, heq, hne, hes⟩ := eq_ofColumns_of_isSelection h
        exact heq ▸ .columns hne hes
      · exact elementary_of_isRows h
      · exact elementary_of_isCombination (fun _ => ih) h
    refine .clauses hcore htail (fun w hw c hc => (hcte w hw c hc).1) (fun w hw c hc => ?_)
      fun w hw c hc q hq => ?_
    · obtain ⟨-, q, hq, -⟩ := hcte w hw c hc
      exact ⟨q, hq⟩
    · obtain ⟨-, q', hq', helementary⟩ := hcte w hw c hc
      cases hq.symm.trans hq'
      exact helementary

end Select

/-! ### Items of `FROM` -/

namespace Node

/-- Whether an item of `FROM` is joined from tables and subqueries of constants that nest less
than `depth` deep. -/
def isJoined : (depth : Nat) → Node → Bool
  | 0, _ => false
  | depth + 1, n =>
    match n with
    | .table _ => true
    | .derivedTable d => !d.lateral && d.query.isSelection
    | .join j => j.condition.all isConstant && j.left.isJoined depth && j.right.isJoined depth
    | _ => false

/-- **What passes the check for joins is joined.** -/
theorem joined_of_isJoined (h : v.isJoined depth = true) : v.Joined := by
  induction depth generalizing v with
  | zero => cases h
  | succ depth ih =>
    unfold isJoined at h
    split at h
    · exact .table _
    · next d =>
      obtain ⟨lateral, q, label⟩ := d
      rw [Bool.and_eq_true, Bool.not_eq_true'] at h
      obtain ⟨rfl, hquery⟩ : lateral = false ∧ q.isSelection = true := h
      obtain ⟨es, rfl, hne, hes⟩ := Select.eq_ofColumns_of_isSelection hquery
      exact .derivedTable hne hes label
    · simp only [Bool.and_eq_true] at h
      exact .join (fun v hv => .inl (isConstant_of_all h.1.1 v hv)) (ih h.1.2) (ih h.2)
    · cases h

end Node

end SqlSyntax
