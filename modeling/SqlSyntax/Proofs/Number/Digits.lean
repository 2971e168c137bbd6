import Mathlib.Data.List.Forall2
import Mathlib.Data.List.Induction
import Mathlib.Data.Nat.Digits.Defs
import SqlSyntax.Number.Digits

/-!
# Digits and the numbers that they write

A number is written by its digits in a radix, the most significant first.  The readers of
digits are compared with the value that a list of digits has in the theory of numbers.

## Main definitions

* `AreDigits radix cs ds` — the characters `cs` are digits of `radix` with the values `ds`.
* `Writes radix cs n` — the characters `cs` are digits of `radix` that write the number `n`.

## Main results

* `valueOfDigits_eq` — the value of digits is that of the theory.
* `leadingDigits_of_areDigits` — digits are read whatever follows them.
* `fixedDigits_eq_some_iff` — **a fixed number of digits is read if and only if they are there.**
-/

namespace SqlSyntax

variable {radix k n : Nat} {cs t : List Char} {ds : List Nat}

/-- The characters are digits of a radix, with these values. -/
def AreDigits (radix : Nat) (cs : List Char) (ds : List Nat) : Prop :=
  List.Forall₂ (fun c d => digitValue radix c = some d) cs ds

/-- The characters are digits of a radix that write a number, the most significant digit
first. -/
def Writes (radix : Nat) (cs : List Char) (n : Nat) : Prop :=
  ∃ ds, AreDigits radix cs ds ∧ n = Nat.ofDigits radix ds.reverse

/-! ### The value of digits -/

/-- One more digit behind others. -/
theorem ofDigits_reverse_concat (radix : Nat) (ds : List Nat) (d : Nat) :
    Nat.ofDigits radix (ds ++ [d]).reverse = Nat.ofDigits radix ds.reverse * radix + d := by
  rw [List.reverse_append, List.reverse_singleton, List.singleton_append, Nat.ofDigits_cons,
    Nat.add_comm, Nat.mul_comm]

theorem valueOfDigits_eq (radix : Nat) (ds : List Nat) :
    valueOfDigits radix ds = Nat.ofDigits radix ds.reverse := by
  -- the last digit is added last
  induction ds using List.reverseRecOn with
  | nil => rfl
  | append_singleton ds d ih =>
    rw [ofDigits_reverse_concat, ← ih, valueOfDigits, List.foldl_append]
    rfl

/-- One more digit behind a number. -/
theorem Writes.concat {c : Char} {d : Nat} (h : Writes radix cs n) (hc : digitValue radix c = some d) :
    Writes radix (cs ++ [c]) (n * radix + d) := by
  obtain ⟨ds, hds, rfl⟩ := h
  exact ⟨ds ++ [d], List.rel_append hds (.cons hc .nil), (ofDigits_reverse_concat radix ds d).symm⟩

/-! ### Digits that are there -/

theorem AreDigits.isDigitOf (h : AreDigits radix cs ds) : ∀ c ∈ cs, isDigitOf radix c = true := by
  induction h with
  | nil => exact nofun
  | cons hc _ ih =>
    refine List.forall_mem_cons.mpr ⟨?_, ih⟩
    rw [SqlSyntax.isDigitOf, hc]
    rfl

/-- Digits are read whatever follows them. -/
theorem leadingDigits_of_areDigits (h : AreDigits radix cs ds) (t : List Char) :
    leadingDigits radix (cs ++ t) = ds ++ leadingDigits radix t := by
  induction h with
  | nil => rfl
  | cons hc _ ih =>
    rw [List.cons_append, leadingDigits, hc, List.cons_append, ← ih]

theorem leadingDigits_take (h : AreDigits radix cs ds) (t : List Char) :
    leadingDigits radix ((cs ++ t).take cs.length) = ds := by
  rw [List.take_left]
  have hread := leadingDigits_of_areDigits h []
  rwa [List.append_nil, leadingDigits, List.append_nil] at hread

theorem length_leadingDigits_le (radix : Nat) (cs : List Char) :
    (leadingDigits radix cs).length ≤ cs.length := by
  induction cs with
  | nil => exact Nat.le_refl 0
  | cons c cs ih =>
    rw [leadingDigits]
    split
    · exact Nat.succ_le_succ ih
    · exact Nat.zero_le _

/-- If as many digits are read as there are characters, then all are digits. -/
theorem areDigits_leadingDigits (h : (leadingDigits radix cs).length = cs.length) :
    AreDigits radix cs (leadingDigits radix cs) := by
  induction cs with
  | nil => exact .nil
  | cons c cs ih =>
    rw [leadingDigits] at h ⊢
    cases hc : digitValue radix c with
    | none =>
      rw [hc] at h
      cases h
    | some d =>
      rw [hc] at h
      exact .cons hc (ih (Nat.succ.inj h))

/-- **A fixed number of digits is read if and only if they are there.** -/
theorem fixedDigits_eq_some_iff : fixedDigits radix k cs = some n ↔
    ∃ w t, cs = w ++ t ∧ w.length = k ∧ Writes radix w n := by
  rw [fixedDigits]
  constructor
  · intro h
    split at h
    · next hlength =>
      have hfits : k ≤ (cs.take k).length := hlength.symm.trans_le (length_leadingDigits_le radix _)
      have hwhole : (cs.take k).length = k := Nat.le_antisymm (List.length_take_le k cs) hfits
      refine ⟨cs.take k, cs.drop k, (List.take_append_drop k cs).symm, hwhole,
        leadingDigits radix (cs.take k), areDigits_leadingDigits (hlength.trans hwhole.symm), ?_⟩
      rw [← valueOfDigits_eq]
      exact (Option.some.inj h).symm
    · cases h
  · rintro ⟨w, t, rfl, rfl, ds, hds, rfl⟩
    rw [leadingDigits_take hds, if_pos hds.length_eq.symm, valueOfDigits_eq]

/-- Digits that write a number are read whatever follows them. -/
theorem Writes.fixedDigits_eq (h : Writes radix cs n) (t : List Char) :
    fixedDigits radix cs.length (cs ++ t) = some n :=
  fixedDigits_eq_some_iff.mpr ⟨cs, t, rfl, rfl, h⟩

/-- A number starts with a digit. -/
theorem Writes.any_head? (h : Writes radix cs n) (hne : cs.length ≠ 0) (t : List Char) :
    (cs ++ t).head?.any (isDigitOf radix) = true := by
  obtain ⟨ds, hds, -⟩ := h
  cases cs with
  | nil => exact absurd rfl hne
  | cons c cs => exact hds.isDigitOf c List.mem_cons_self

theorem writes_iff : Writes radix cs n ↔ fixedDigits radix cs.length cs = some n := by
  constructor
  · intro h
    have hread := h.fixedDigits_eq []
    rwa [List.append_nil] at hread
  · intro h
    obtain ⟨w, t, hcs, hlength, hw⟩ := fixedDigits_eq_some_iff.mp h
    rw [hcs, List.length_append, Nat.left_eq_add, List.length_eq_zero_iff] at hlength
    rwa [hcs, hlength, List.append_nil]

instance : Decidable (Writes radix cs n) :=
  decidable_of_iff _ writes_iff.symm

end SqlSyntax
