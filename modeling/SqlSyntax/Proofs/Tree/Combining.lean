import SqlSyntax.Proofs.Tree.Grouping
import SqlSyntax.Tree.Weight

/-!
# Grouped combinations

Queries that are combined group by how tightly `UNION`, `INTERSECT` and `EXCEPT` bind: the first
query binds at least as tightly as the combination, the second more tightly.  A combination that
is grouped so is determined by its simple queries and the words between them.

## Main definitions

* `Select.inorder` — the simple queries of a combination and its words, from left to right.
* `Select.Grouped` — the combinations that are grouped by precedence.

## Main results

* `Select.Grouped.eq_of_inorder` — **queries and words from left to right determine a grouped
  combination.**
-/

namespace SqlSyntax

variable {op : SetOp} {all : Bool} {s t left right : Select}

/-! ### From left to right -/

/-- A simple query, or what stands between two queries. -/
inductive CombinationItem
  | query (s : Select)
  /-- The word of a combination, and whether duplicates are kept. -/
  | word (op : SetOp) (all : Bool)

/-- How tightly an item binds that is a word. -/
def CombinationItem.precedence? : CombinationItem → Option Nat
  | query _ => none
  | word op _ => some op.precedence

theorem Select.sizeOf_left_lt (h : s.left = some left) : sizeOf left < sizeOf s := by
  obtain ⟨_, _, _, _, _, _, _, _, _, _, _, _, _, _, _, _, l, _⟩ := s
  obtain rfl : l = some left := h
  simp only [Select.mk.sizeOf_spec, sizeOf_some]
  omega

theorem Select.sizeOf_right_lt (h : s.right = some right) : sizeOf right < sizeOf s := by
  obtain ⟨_, _, _, _, _, _, _, _, _, _, _, _, _, _, _, _, _, r⟩ := s
  obtain rfl : r = some right := h
  simp only [Select.mk.sizeOf_spec, sizeOf_some]
  omega

/-- The simple queries of a combination and the words between them. -/
def Select.inorder (s : Select) : List CombinationItem :=
  match hleft : s.left, hright : s.right with
  | some l, some r =>
    have := sizeOf_left_lt hleft
    have := sizeOf_right_lt hright
    l.inorder ++ .word s.op s.all :: r.inorder
  | _, _ => [.query s]
termination_by s

theorem inorder_combined (op : SetOp) (all : Bool) (left right : Select) :
    (Select.combined op all left right).inorder
      = left.inorder ++ .word op all :: right.inorder := by
  rw [Select.inorder]
  rfl

theorem inorder_simple (h : s.left = none) : s.inorder = [.query s] := by
  rw [Select.inorder]
  split
  · next hleft _ =>
    rw [h] at hleft
    cases hleft
  · rfl

/-! ### Grouped combinations -/

/-- The query is no combination. -/
structure Select.IsSimple (s : Select) : Prop where
  op : s.op = .none
  left : s.left = none

/-- The combinations of simple queries that are grouped by precedence. -/
inductive Select.Grouped : Select → Prop
  | simple {s : Select} (h : s.IsSimple) : Grouped s
  /-- Equal precedence groups to the left. -/
  | combined {op : SetOp} {left right : Select} (all : Bool) (hop : op ≠ .none)
    (hleft : Grouped left) (hright : Grouped right) (le : op.precedence ≤ left.op.precedence)
    (lt : op.precedence < right.op.precedence) : Grouped (Select.combined op all left right)

theorem SetOp.precedence_le_intersect (h : op ≠ .none) :
    op.precedence ≤ SetOp.intersect.precedence := by
  cases op <;> first | exact absurd rfl h | decide

/-- All other words bind equally. -/
theorem SetOp.precedence_le_union (h : op ≠ .none) (h' : op ≠ .intersect) :
    op.precedence ≤ SetOp.union.precedence := by
  cases op <;> first | exact absurd rfl h | exact absurd rfl h' | decide

namespace Select.Grouped

/-- The words of a combination bind at least as tightly as it does itself. -/
theorem precedence_le (h : s.Grouped) :
    ∀ i ∈ s.inorder, ∀ k ∈ i.precedence?, s.op.precedence ≤ k := by
  induction h with
  | simple h =>
    rw [inorder_simple h.left]
    exact List.forall_mem_singleton.mpr nofun
  | combined all hop hleft hright le lt ihleft ihright =>
    rw [inorder_combined]
    refine List.forall_mem_append.mpr ⟨?_, List.forall_mem_cons.mpr ⟨?_, ?_⟩⟩
    · exact fun i hi k hk => Nat.le_trans le (ihleft i hi k hk)
    · rintro k ⟨⟩
      exact Nat.le_refl _
    · exact fun i hi k hk => Nat.le_trans (Nat.le_of_lt lt) (ihright i hi k hk)

/-- A combination has a word in it. -/
theorem inorder_ne_singleton (op : SetOp) (all : Bool) (left right s : Select) :
    (Select.combined op all left right).inorder ≠ [.query s] := by
  intro h
  have hword : CombinationItem.word op all ∈ [CombinationItem.query s] := by
    rw [← h, inorder_combined]
    simp
  simp at hword

/-- **Queries and words from left to right determine a grouped combination.** -/
theorem eq_of_inorder (hs : s.Grouped) (ht : t.Grouped) (h : s.inorder = t.inorder) : s = t := by
  induction hs generalizing t with
  | simple hs =>
    rw [inorder_simple hs.left] at h
    cases ht with
    | simple ht =>
      rw [inorder_simple ht.left] at h
      cases h
      rfl
    | combined => exact absurd h.symm (inorder_ne_singleton _ _ _ _ _)
  | @combined op left right all hop hleft hright le lt ihleft ihright =>
    cases ht with
    | simple ht =>
      rw [inorder_simple ht.left] at h
      exact absurd h (inorder_ne_singleton _ _ _ _ _)
    | @combined op' left' right' all' hop' hleft' hright' le' lt' =>
      -- both lists split at the last of their loosest words
      rw [inorder_combined, inorder_combined] at h
      obtain ⟨hl, hword, hr⟩ := append_cons_inj CombinationItem.precedence? rfl rfl h
        (fun i hi k hk => Nat.le_trans le (hleft.precedence_le i hi k hk))
        (fun i hi k hk => Nat.lt_of_lt_of_le lt (hright.precedence_le i hi k hk))
        (fun i hi k hk => Nat.le_trans le' (hleft'.precedence_le i hi k hk))
        (fun i hi k hk => Nat.lt_of_lt_of_le lt' (hright'.precedence_le i hi k hk))
      cases hword
      rw [ihleft hleft' hl, ihright hright' hr]

end Select.Grouped

end SqlSyntax
