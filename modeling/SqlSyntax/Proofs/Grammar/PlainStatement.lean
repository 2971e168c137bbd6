import SqlSyntax.Proofs.Grammar.FittingSource

/-!
# Statements of words and names that are read

The statements about transactions, and those that remove or empty objects, are made of words
and names.  What such a statement is read as uses only some of its fields: which ones depends
on the kind of the statement, and the others have their defaults.

## Main definitions

* `Transaction.IsRead`, `Drop.IsRead`, `Truncate.IsRead` — what the statements are read as.
* `Utility` — a statement of one of these kinds.

## Main results

* `transaction_isRead`, `drop_isRead`, `truncate_isRead` — the statements, behind their word.
* `statement_utilityRead` — **every such statement is one that can be read.**
-/

namespace SqlSyntax

/-- A statement about transactions as it is read: one that starts a transaction has
characteristics, one that ends it may chain another, and the others name a savepoint. -/
inductive Transaction.IsRead : Transaction → Prop
  | opens {k : TransactionKind} (hk : k ∈ [.begin, .start]) (modes : List TransactionMode) :
    IsRead { kind := k, modes := modes }
  | ends {k : TransactionKind} (hk : k ∈ [.commit, .rollback]) (chain : Bool) :
    IsRead { kind := k, chain := chain }
  | names {k : TransactionKind} (hk : k.namesSavepoint = true) {s : String} (hs : IsName s) :
    IsRead { kind := k, savepoint := some s }

/-- Objects to remove as they are read.  Only indexes are removed without blocking. -/
structure Drop.IsRead (s : Drop) : Prop where
  some : s.objects ≠ []
  objects : ∀ names ∈ s.objects, names ≠ [] ∧ ∀ t ∈ names, IsName t
  concurrently : s.concurrently = true → s.kind = .index

/-- Tables to empty as they are read. -/
structure Truncate.IsRead (s : Truncate) : Prop where
  some : s.tables ≠ []
  tables : ∀ t ∈ s.tables, t.IsRead ∧ t.label = none

/-- A statement of words and names. -/
inductive Utility
  | transaction (s : Transaction)
  | drop (s : Drop)
  | truncate (s : Truncate)
  deriving DecidableEq, Repr

namespace Utility

/-- The statement as a node. -/
def node : Utility → Node
  | transaction s => .transaction s
  | drop s => .drop s
  | truncate s => .truncate s

/-- The statement is as it is read. -/
def IsRead : Utility → Prop
  | transaction s => s.IsRead
  | drop s => s.IsRead
  | truncate s => s.IsRead

end Utility

/-- If the statement is one of words and names, it is as it is read. -/
def Node.UtilityRead (n : Node) : Prop :=
  ∀ u : Utility, n = u.node → u.IsRead

namespace Grammar

open SqlSyntax.Parser

variable {q : Prop}

/-! ### Transactions -/

theorem rollback_isRead : rollback.Yields (plainly q) Transaction.IsRead := by
  unfold rollback
  refine yields_bind_any fun _ => yields_bind_any fun toName => yields_ite (fun _ => ?_) fun _ => ?_
  · exact yields_bind_any fun _ => name_plain.bind fun s hs => yields_pure (.names rfl hs.1)
  · exact yields_bind_any fun chain => yields_pure (.ends (by decide) chain)

theorem transaction_isRead (t : TransactionWord) :
    (transaction t).Yields (plainly q) Transaction.IsRead := by
  cases t with
  | begin | start =>
    exact yields_bind_any fun _ => yields_bind_any fun ms => yields_pure (.opens (by decide) ms)
  | commit | abort =>
    exact yields_bind_any fun _ => yields_bind_any fun chain => yields_pure (.ends (by decide) chain)
  | rollback => exact rollback_isRead
  | savepoint => exact name_plain.bind fun s hs => yields_pure (.names rfl hs.1)
  | release => exact yields_bind_any fun _ => name_plain.bind fun s hs => yields_pure (.names rfl hs.1)

/-! ### Objects -/

theorem drop_isRead : drop.Yields (plainly q) Drop.IsRead := by
  have hconcurrently (k : ObjectKind) :
      (dropConcurrently k).Yields (plainly q) fun b => b = true → k = .index := by
    unfold dropConcurrently
    exact yields_ite (fun hk => (yields_trivial _).mono fun _ _ _ => hk) fun _ => yields_pure nofun
  have hnames : dottedName.Yields (plainly q) fun names => names ≠ [] ∧ ∀ s ∈ names, IsName s :=
    dottedName_plain.mono fun _ h => ⟨h.1, fun s hs => (h.2 s hs).1⟩
  unfold drop
  refine yields_bind_any fun k => (hconcurrently k).bind fun concurrently hconcurrently => ?_
  refine yields_bind_any fun lenient => (yields_commaList hnames).bind fun objects hobjects => ?_
  exact yields_bind_any fun behavior => yields_pure ⟨hobjects.1, hobjects.2, hconcurrently⟩

theorem truncate_isRead : truncate.Yields (plainly q) Truncate.IsRead := by
  have htable : changedTable.Yields (plainly q) fun t => t.IsRead ∧ t.label = none := by
    unfold changedTable
    refine yields_bind_any fun only => tableName_plain.bind fun t ht => ?_
    have hread : ({ t with only := only } : TableRef).IsRead ∧ t.label = none :=
      ⟨⟨ht.1.names, ht.1.whole⟩, ht.2.2⟩
    exact yields_ite (fun _ => yields_bind_any fun _ => yields_pure hread) fun _ => yields_pure hread
  unfold truncate
  refine yields_bind_any fun _ => (yields_commaList htable).bind fun tables htables => ?_
  exact yields_bind_any fun restart => yields_bind_any fun behavior =>
    yields_pure ⟨htables.1, htables.2⟩

/-! ### Statements -/

/-- **Every statement of words and names is as it is read.** -/
theorem statement_utilityRead : statement.Yields (plainly q) Node.UtilityRead := by
  have hother : OtherStatements (plainly q) Node.UtilityRead :=
    { change := fun c u heq => by cases c <;> cases u <;> cases heq
      definition := fun n hn u heq => by
        rw [heq] at hn
        cases u <;> exact hn.elim
      drop := drop_isRead.mono fun s hs u heq => by cases u <;> cases heq; exact hs
      truncate := truncate_isRead.mono fun s hs u heq => by cases u <;> cases heq; exact hs
      transaction := fun t =>
        (transaction_isRead t).mono fun s hs u heq => by cases u <;> cases heq; exact hs }
  have hselect (s : Select) : (Node.select s).UtilityRead := fun u heq => by cases u <;> cases heq
  exact statement_yields hother ((yields_trivial _).mono fun s _ => hselect s)
    fun _ => (yields_trivial _).mono fun s _ => hselect s

end Grammar
end SqlSyntax
