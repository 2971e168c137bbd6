import SqlSyntax.Grammar.Source
import SqlSyntax.Proofs.Expression.Simple
import SqlSyntax.Tree.Building

/-!
# Trees that fit in some levels

The parentheses that are written around a query or a join take a level of nesting each, and so
does every expression.  A tree fits in some levels if what is written for it needs no more of
them.  The parentheses that are written differ from those that were read, so a tree that was
read within a limit has to be shown to fit in it.

## Main definitions

* `Alias.IsRead`, `TableRef.IsRead` — names of tables that can be read.
* `Node.SourceFits`, `Node.SecondFits` — an item of `FROM` fits in some levels.
* `Select.Fits` — a query fits in some levels behind the rule for queries.
* `Select.IsOperand` — a query that can be combined with others.

## Main results

* `SourceFits.labelled` — parentheses around an item leave room for a name behind them.
* `Select.fits_combined` — **operands that fit make a combination that does.**
-/

namespace SqlSyntax

variable {m n : Nat}

/-! ### Names of tables -/

/-- A name for a table that a text can contain. -/
structure Alias.IsRead (a : Alias) : Prop where
  name : IsName a.name
  columns : ∀ s ∈ a.columns, IsName s

theorem TableRef.names_ne_nil (t : TableRef) : t.names ≠ [] := by
  simp [names]

/-- A table whose dotted name a text can contain. -/
structure TableRef.IsRead (t : TableRef) : Prop where
  names : ∀ s ∈ t.names, IsName s
  whole : TableRef.ofNames? t.names = some { t with only := false, label := none }

theorem TableRef.names_of_ofNames? {names : List String} {t : TableRef}
    (h : TableRef.ofNames? names = some t) : t.names = names ∧ t.only = false ∧ t.label = none := by
  unfold TableRef.ofNames? at h
  split at h <;> first
    | (cases h; exact ⟨rfl, rfl, rfl⟩)
    | cases h

/-- A table that is made of names is read. -/
theorem TableRef.isRead_of_ofNames? {names : List String} {t : TableRef}
    (h : TableRef.ofNames? names = some t) (hnames : ∀ s ∈ names, IsName s) :
    t.IsRead ∧ t.only = false ∧ t.label = none := by
  obtain ⟨heq, honly, hlabel⟩ := names_of_ofNames? h
  refine ⟨⟨heq ▸ hnames, ?_⟩, honly, hlabel⟩
  rw [heq, h]
  obtain ⟨catalog, schema, name, only, persistence, label⟩ := t
  obtain rfl : only = false := honly
  obtain rfl : label = none := hlabel
  rfl

/-! ### Items of `FROM` -/

/-- An expression that is plain if it is simple, for which there is a level. -/
def Node.ValueFits (v : Node) (n : Nat) : Prop :=
  v.PlainIf True ∧ 0 < n

/-- The output columns are all columns, or expressions for which there is a level. -/
def Select.TargetsFit (s : Select) (n : Nat) : Prop :=
  ∀ t ∈ s.targets, ∀ v ∈ t.value, v = .column [.star] ∨ v.ValueFits n

/-- A join has a condition where it needs one, and one only. -/
structure Join.IsRead (j : Join) (n : Nat) : Prop where
  condition : ∀ v ∈ j.condition, v.ValueFits n
  columns : ∀ s ∈ j.columns, IsName s
  label : ∀ a ∈ j.label, a.IsRead
  natural : j.natural = true → j.condition = none ∧ j.columns = []
  single : j.columns ≠ [] → j.condition = none
  crossed : j.natural = false → j.condition = none → j.columns = [] → j.kind = .inner

/-- An item of `FROM` fits in `n` levels.  A subquery takes a level for its parentheses, one for
itself and one for what it selects; a name of a join or a join on the right takes one for
parentheses. -/
inductive Node.SourceFits : Node → Nat → Prop
  | table {t : TableRef} {n : Nat} (ht : t.IsRead) (hlabel : ∀ a ∈ t.label, a.IsRead) :
    SourceFits (.table t) n
  | derivedTable {d : DerivedTable} {n : Nat} (htargets : d.query.TargetsFit (n - 2))
    (hlabel : ∀ a ∈ d.label, a.IsRead) : SourceFits (.derivedTable d) n
  | tableFunction (f : TableFunction) (n : Nat) : SourceFits (.tableFunction f) n
  | join {j : Join} {k m n : Nat} (hlabel : m + j.label.isSome.toNat ≤ n)
    (hopen : k + (isOpenJoin j.right).toNat ≤ m) (hj : j.IsRead m) (hleft : SourceFits j.left m)
    (hright : SourceFits j.right k) : SourceFits (.join j) n

/-- An item fits in `n` levels on the right of a join, where a join without a name takes
parentheses. -/
def Node.SecondFits (i : Node) (n : Nat) : Prop :=
  ∃ k, k + (isOpenJoin i).toNat ≤ n ∧ i.SourceFits k

/-- What parentheses among the items of `FROM` hold fits in the levels with these
parentheses. -/
def Enclosed.SourceFits : Enclosed → Nat → Prop
  | .query s, n => s.TargetsFit (n - 2)
  | .item i, n => ∃ m < n, i.SourceFits m

theorem Node.ValueFits.mono {v : Node} (h : v.ValueFits m) (hle : m ≤ n) : v.ValueFits n :=
  ⟨h.1, Nat.lt_of_lt_of_le h.2 hle⟩

theorem Select.TargetsFit.mono {s : Select} (h : s.TargetsFit m) (hle : m ≤ n) : s.TargetsFit n :=
  fun t ht v hv => (h t ht v hv).imp_right fun h => h.mono hle

theorem Join.IsRead.mono {j : Join} (h : j.IsRead m) (hle : m ≤ n) : j.IsRead n :=
  { h with condition := fun v hv => (h.condition v hv).mono hle }

/-- An item that takes no parentheses fits on the right of a join. -/
theorem Node.SecondFits.of_fits {i : Node} (h : i.SourceFits n) (hopen : isOpenJoin i = false) :
    i.SecondFits n :=
  ⟨n, by simp [hopen], h⟩

namespace Node.SourceFits

variable {i : Node}

theorem mono (h : i.SourceFits m) (hle : m ≤ n) : i.SourceFits n := by
  cases h with
  | table ht hlabel => exact .table ht hlabel
  | derivedTable htargets hlabel =>
    exact .derivedTable (htargets.mono (Nat.sub_le_sub_right hle 2)) hlabel
  | tableFunction f => exact .tableFunction f n
  | join hlabel hopen hj hleft hright => exact .join (Nat.le_trans hlabel hle) hopen hj hleft hright

/-- Parentheses around an item leave room for a name behind them, and for the item on the right
of a join. -/
theorem labelled (h : i.SourceFits m) (hlt : m < n) {label : Option Alias}
    (hlabel : ∀ a ∈ label, a.IsRead) : (i.labelled label).SecondFits n := by
  cases label with
  | none => exact ⟨m, Nat.le_trans (Nat.add_le_add_left (Bool.toNat_le _) m) hlt, h⟩
  | some a =>
    have hlabel : ∀ b ∈ some a, b.IsRead := hlabel
    cases h with
    | table ht _ => exact .of_fits (.table ⟨ht.names, ht.whole⟩ hlabel) rfl
    | derivedTable htargets _ =>
      have htargets : Select.TargetsFit _ (n - 2) := htargets.mono (by omega)
      exact .of_fits (.derivedTable htargets hlabel) rfl
    | tableFunction f => exact .of_fits (.tableFunction _ n) rfl
    | @join j k l _ hlevels hopen hj hleft hright =>
      have hlevel : l + 1 ≤ n :=
        Nat.le_trans (Nat.succ_le_succ (Nat.le_trans (Nat.le_add_right l _) hlevels)) hlt
      have hj : Join.IsRead { j with label := some a } l :=
        ⟨hj.condition, hj.columns, hlabel, hj.natural, hj.single, hj.crossed⟩
      exact .of_fits (.join (j := { j with label := some a }) hlevel hopen hj hleft hright) rfl

end Node.SourceFits

/-- An item that fits on the right of a join fits anywhere. -/
theorem Node.SecondFits.fits {i : Node} : i.SecondFits n → i.SourceFits n
  | ⟨k, hle, h⟩ => h.mono (Nat.le_trans (Nat.le_add_right k _) hle)

/-! ### Queries -/

/-- The clauses of a query, but for the queries in them, fit in `n` levels. -/
structure Select.ClausesFit (s : Select) (n : Nat) : Prop where
  targets : s.TargetsFit n
  rows : ∀ r ∈ s.rows, ∀ v ∈ r, v = .default ∨ v.ValueFits n
  sources : ∀ i ∈ s.sources, i.SourceFits n
  order : ∀ k ∈ s.order, k.key.PlainIf True ∧ k.direction.IsRead
  limit : ∀ v ∈ s.limit, v.PlainIf True
  offset : ∀ v ∈ s.offset, v.PlainIf True
  locks : ∀ l ∈ s.locks, ∀ t ∈ l.tables, t.IsRead ∧ t.only = false ∧ t.label = none
  ctes : ∀ w ∈ s.ctes, w.ctes ≠ [] ∧
    ∀ c ∈ w.ctes, IsName c.name ∧ ∀ x ∈ c.columns, IsName x

/-- A query fits in `n` levels behind the rule for queries.  A common table expression takes one
for its parentheses, and so does an operand of a combination that is written with them. -/
inductive Select.Fits : Select → Nat → Prop
  | mk {s : Select} {n : Nat} (clauses : s.ClausesFit n)
    (queries : ∀ w ∈ s.ctes, ∀ c ∈ w.ctes, ∀ q, c.query = .select q → Fits q (n - 1))
    (left : ∀ l, s.left = some l → Fits l (n - (l.wrapsLeft s.op).toNat))
    (right : ∀ r, s.right = some r → Fits r (n - (r.wrapsRight s.op).toNat)) : Fits s n

namespace Select

variable {s t : Select} {op : SetOp} {left right : Select}

theorem ClausesFit.mono (h : s.ClausesFit m) (hle : m ≤ n) : s.ClausesFit n where
  targets := h.targets.mono hle
  rows r hr v hv := (h.rows r hr v hv).imp_right fun h => h.mono hle
  sources i hi := (h.sources i hi).mono hle
  order := h.order
  limit := h.limit
  offset := h.offset
  locks := h.locks
  ctes := h.ctes

namespace Fits

theorem clauses (h : s.Fits n) : s.ClausesFit n := by
  obtain ⟨h, -, -, -⟩ := h
  exact h

theorem mono (h : s.Fits m) (hle : m ≤ n) : s.Fits n := by
  induction h generalizing n with
  | mk clauses _ _ _ ihqueries ihleft ihright =>
    exact .mk (clauses.mono hle)
      (fun w hw c hc q hq => ihqueries w hw c hc q hq (Nat.sub_le_sub_right hle 1))
      (fun l hl => ihleft l hl (Nat.sub_le_sub_right hle _))
      (fun r hr => ihright r hr (Nat.sub_le_sub_right hle _))

/-- A query that differs only in its clauses fits if these do. -/
theorem of_clauses (h : s.Fits n) (hclauses : t.ClausesFit n) (hctes : t.ctes = s.ctes)
    (hop : t.op = s.op) (hleft : t.left = s.left) (hright : t.right = s.right) : t.Fits n := by
  obtain ⟨-, queries, left, right⟩ := h
  exact .mk hclauses (hctes ▸ queries) (hleft ▸ hop ▸ left) (hright ▸ hop ▸ right)

/-- Common table expressions in front of a query that has none. -/
theorem withCtes (h : s.Fits n) {w : With} (hsome : w.ctes ≠ [])
    (hnames : ∀ c ∈ w.ctes, IsName c.name ∧ ∀ x ∈ c.columns, IsName x)
    (hqueries : ∀ c ∈ w.ctes, ∀ q, c.query = .select q → q.Fits (n - 1)) :
    ({ s with ctes := some w } : Select).Fits n := by
  obtain ⟨clauses, -, left, right⟩ := h
  refine .mk { clauses with ctes := ?_ } ?_ left right
  · rintro w ⟨⟩
    exact ⟨hsome, hnames⟩
  · rintro w ⟨⟩
    exact hqueries

end Fits

/-- A query that can be an operand of a combination: it has no clauses behind it and binds tightly
enough, or it was read in parentheses. -/
def IsOperand (s : Select) (precedence n : Nat) : Prop :=
  (s.hasTail = false ∧ precedence ≤ s.op.precedence ∧ s.Fits n) ∨ s.Fits (n - 1)

theorem IsOperand.fits {precedence : Nat} (h : s.IsOperand precedence n) : s.Fits n :=
  h.elim (fun h => h.2.2) fun h => h.mono (Nat.sub_le n 1)

theorem IsOperand.mono {p p' : Nat} (h : s.IsOperand p n) (hle : p' ≤ p) : s.IsOperand p' n :=
  h.imp_left fun h => ⟨h.1, Nat.le_trans hle h.2.1, h.2.2⟩

theorem IsOperand.fits_left (h : s.IsOperand op.precedence n) :
    s.Fits (n - (s.wrapsLeft op).toNat) := by
  obtain ⟨htail, hle, h⟩ | h := h
  · have hwraps : s.wrapsLeft op = false := by simp [wrapsLeft, htail, hle]
    rw [hwraps]
    exact h
  · exact h.mono (Nat.sub_le_sub_left (Bool.toNat_le _) n)

theorem IsOperand.fits_right (h : s.IsOperand (op.precedence + 1) n) :
    s.Fits (n - (s.wrapsRight op).toNat) := by
  obtain ⟨htail, hle, h⟩ | h := h
  · have hwraps : s.wrapsRight op = false := by simp [wrapsRight, htail, Nat.lt_of_succ_le hle]
    rw [hwraps]
    exact h
  · exact h.mono (Nat.sub_le_sub_left (Bool.toNat_le _) n)

/-- **Operands that fit make a combination that does.** -/
theorem fits_combined (all : Bool) (hleft : left.IsOperand op.precedence n)
    (hright : right.IsOperand (op.precedence + 1) n) : (combined op all left right).Fits n := by
  refine .mk ⟨nofun, nofun, nofun, nofun, nofun, nofun, nofun, nofun⟩ nofun ?_ ?_
  · rintro l ⟨⟩
    exact hleft.fits_left
  · rintro r ⟨⟩
    exact hright.fits_right

/-- A combination is an operand of those that bind no more tightly. -/
theorem isOperand_combined (all : Bool) (hleft : left.IsOperand op.precedence n)
    (hright : right.IsOperand (op.precedence + 1) n) :
    (combined op all left right).IsOperand op.precedence n :=
  .inl ⟨rfl, Nat.le_refl _, fits_combined all hleft hright⟩

end Select

end SqlSyntax
