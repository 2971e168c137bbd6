import SqlSyntax.Proofs.Expression.Readback
import SqlSyntax.Proofs.Tree.Fitting
import SqlSyntax.Proofs.Grammar.Within

/-!
# Reading constants and columns

Constants without a sign and columns are read from their own tokens, with no rule but that for
expressions.  So one level of nesting is enough for them.

## Main definitions

* `Node.IsConstant`, `Node.IsAtom` — a constant without a sign, or a column too.

## Main results

* `Node.IsAtom.reads_operand` — **an atom is read back within one level.**
-/

namespace SqlSyntax

open Grammar

variable {n : Nat} {rest : List TokenKind} {v : Node} {above : Level}
variable {R : (r : Rule) → List TokenKind → r.Result → List TokenKind → Prop}

/-- A constant without a sign. -/
def Node.IsConstant (v : Node) : Prop :=
  ∃ l, v = .const l ∧ l.isNegative = false

/-- A constant without a sign, or a column. -/
def Node.IsAtom (v : Node) : Prop :=
  v.IsConstant ∨ ∃ names, v = .ofNames names

namespace Node

theorem ne_nil_of_plain_ofNames {names : List String} (h : (ofNames names).Plain) : names ≠ [] := by
  rintro rfl
  obtain ⟨names, star, hne, hfields⟩ := plain_column_inv h
  obtain ⟨s, names, rfl⟩ := List.exists_cons_of_ne_nil hne
  cases hfields

namespace IsAtom

/-- An atom is simple. -/
theorem plain (h : v.IsAtom) (hv : v.PlainIf True) : v.Plain := by
  refine hv (all_iff.mpr ?_)
  rcases h with ⟨l, rfl, -⟩ | ⟨names, rfl⟩
  · exact ⟨trivial, List.forall_mem_singleton.mpr (all_iff.mpr ⟨trivial, List.forall_mem_nil _⟩)⟩
  · exact ⟨trivial, List.forall_mem_nil _⟩

theorem reads (h : v.IsAtom) (hv : v.PlainIf True) (hrest : Follows 0 rest) :
    leftOperand.ReadsWith R (settle (v.kinds ++ rest)) v (settle rest) := by
  have hplain := h.plain hv
  rcases h with ⟨l, rfl, hsign⟩ | ⟨names, rfl⟩
  · exact reads_const (plain_const_inv hplain) hsign
  · obtain ⟨s, names, rfl⟩ := List.exists_cons_of_ne_nil (ne_nil_of_plain_ofNames hplain)
    rw [← column_columnFields, kinds_column]
    exact reads_columnReference s names false hrest

/-- An atom is read back within one level. -/
theorem reads_operand (h : v.IsAtom) (hv : v.ValueFits n) (hrest : Follows 0 rest) :
    (operand above).ReadsWith (Rule.Within n) (settle (v.kinds ++ rest)) v (settle rest) := by
  obtain ⟨m, rfl⟩ := Nat.exists_eq_succ_of_ne_zero (Nat.ne_of_gt hv.2)
  have hstop : (moreOperations above v).ReadsWith (Rule.Within m) (settle rest) none (settle rest) :=
    reads_moreOperations_none (hrest.mono (Nat.zero_le _)).stops
  refine ⟨v, settle rest, ?_, rfl, rfl⟩
  exact Parser.readsWith_bind (h.reads hv.1 hrest) (Parser.Steps.last hstop).reads

/-- The first token of an atom. -/
theorem starts (h : v.IsAtom) (hv : v.PlainIf True) (hrest : Follows 0 rest) :
    (firstOf (settle (v.kinds ++ rest))).opensOperand = true :=
  ((h.plain hv).leads.starts (hrest.mono (Nat.zero_le _))).1

theorem ne_star (h : v.IsAtom) : v ≠ .column [.star] := by
  rcases h with ⟨l, rfl, -⟩ | ⟨names, rfl⟩
  · nofun
  · cases names <;> nofun

theorem ne_default (h : v.IsAtom) : v ≠ .default := by
  rcases h with ⟨l, rfl, -⟩ | ⟨names, rfl⟩ <;> nofun

end IsAtom

namespace IsConstant

/-- A constant is a single token that is no name. -/
theorem firstOf_ne (h : v.IsConstant) (hv : v.PlainIf True) {w : Keyword}
    (hw : w ∉ [Keyword.FALSE, .TRUE, .NULL]) (rest : List TokenKind) :
    firstOf (settle (v.kinds ++ rest)) ≠ .keyword w := by
  have hplain := IsAtom.plain (.inl h) hv
  obtain ⟨l, rfl, hsign⟩ := h
  obtain ⟨k, hkinds, hk⟩ := token_of_isRead (plain_const_inv hplain) hsign
  rw [hkinds, List.singleton_append, settle_cons, firstOf_cons]
  obtain hk | ⟨w', hw', rfl, hword⟩ := hk
  · have hsettled : k.isSettled = true := by
      cases k <;> first | rfl | cases hk
    rw [before_eq hsettled]
    rintro rfl
    cases hk
  · rw [before_eq hword.settled]
    rintro ⟨⟩
    exact hw hw'

/-- A constant binds more tightly than any operator. -/
theorem level_eq (h : v.IsConstant) : v.level = Level.primary := by
  obtain ⟨l, rfl, hsign⟩ := h
  simp [level, hsign]

/-- A constant that stands for all rows is null. -/
theorem eq_null (h : v.IsConstant) (hall : isAllRows v = true) : v = .const .null := by
  obtain ⟨l, rfl, -⟩ := h
  cases l <;> first | rfl | cases hall

end IsConstant
end Node
end SqlSyntax
