import SqlSyntax.Proofs.Expression.Plain
import SqlSyntax.Proofs.Lexeme.Choice
import SqlSyntax.Proofs.Lexeme.Leaves
import SqlSyntax.Proofs.Lexeme.Spells
import SqlSyntax.Proofs.Number.Int4
import SqlSyntax.Proofs.Rendering.Kinds

/-!
# Written numbers, operators and marks are read back

An integer is written in decimal digits and all other numbers as they were read, so both
are numerals as a whole.  An operator is one as a whole too.

## Main results

* `Int4.parse_toDigits` — the digits of a number have its value.
* `isToken_integer`, `isToken_float`, `begins_param` — **numbers and parameters are read back.**
* `isToken_operator`, `begins_operatorChar`, `begins_dot`, `begins_colon`, `begins_symbol` —
  operators and marks.
-/

namespace SqlSyntax

variable {d : Dialect} {cs t : List Char} {c : Char}

/-! ### The value of digits -/

theorem isDigitOf_of_isDigit (hc : c.isDigit = true) : isDigitOf 10 c = true :=
  of_isDigit (P := fun c => isDigitOf 10 c = true) (by decide) hc

namespace Int4

/-- The decimal digits of a number write it. -/
theorem writes_toDigits (n : Nat) : Writes 10 (Nat.toDigits 10 n) n := by
  have hdigit : ∀ d < 10, digitValue 10 (Nat.digitChar d) = some d := by decide
  induction n using Nat.strongRecOn with
  | ind n ih =>
    rw [Nat.toDigits_eq_if (by decide)]
    by_cases hsmall : n < 10
    · rw [if_pos hsmall]
      exact ⟨[n], .cons (hdigit n hsmall) .nil, Nat.ofDigits_singleton.symm⟩
    · have hrest := (ih (n / 10) (by omega)).concat (hdigit (n % 10) (by omega))
      rw [if_neg hsmall]
      rwa [Nat.div_add_mod' n 10] at hrest

/-- The value of decimal digits is read back. -/
theorem parse_toDigits (n : Nat) (hn : (n : Int) ≤ greatest) :
    parse (Nat.toDigits 10 n) = .ok n := by
  obtain ⟨ds, hds, hvalue⟩ := writes_toDigits n
  have hmagnitude : IsMagnitude (Nat.toDigits 10 n) (Nat.ofDigits 10 ds.reverse) :=
    .decimal (separated_of_areDigits hds Nat.toDigits_ne_nil)
  rw [← hvalue] at hmagnitude
  refine parse_eq_ok_iff.mpr ⟨⟨[], _, [], ?_, nofun, nofun, .bare hmagnitude⟩, ?_⟩
  · rw [List.nil_append, List.append_nil]
  · rw [inRange_iff]
    unfold greatest at hn
    omega

end Int4

/-! ### Numerals -/

theorem digitRun_digits (h : ∀ c ∈ cs, c.isDigit = true) (inside : Bool) :
    digitRun 10 inside cs = cs.length := by
  induction cs generalizing inside with
  | nil => rfl
  | cons c cs ih =>
    rw [List.forall_mem_cons] at h
    rw [digitRun, if_pos (isDigitOf_of_isDigit h.1), ih h.2, List.length_cons]

/-- Decimal digits are a numeral as a whole. -/
theorem numeral_digits (h : ∀ c ∈ cs, c.isDigit = true) : numeral cs = ⟨cs.length, false⟩ := by
  have hmarked : markedLength cs = none := markedLength_of_forall fun c hc =>
    of_isDigit (P := fun c => markedRadix c = none) (by decide) (h c hc)
  rw [numeral, hmarked]
  simp only [Option.elim, decimalNumeral, digitRun_digits h, List.drop_length, fractionLength,
    exponentLength, Nat.add_zero]
  rfl

/-- A numeral is read as a number as a whole. -/
theorem isToken_numeral {k : TokenKind} (hk : k.isInner = true)
    (hc : c.isDigit = true ∨ c = '.' ∧ cs.head?.any Char.isDigit = true)
    (hlength : (numeral (c :: cs)).length = (c :: cs).length)
    (hkind : (if (numeral (c :: cs)).isFloat then TokenKind.float (String.ofList (c :: cs))
      else match Int4.parse (c :: cs) with
        | .ok v => .integer v
        | .error _ => .float (String.ofList (c :: cs))) = k) : IsToken d (c :: cs) k := by
  have hstart : isBlank c = false ∧ c ≠ '-' ∧ c ≠ '/' := by
    rcases hc with hc | ⟨rfl, -⟩
    · exact of_isDigit (P := fun c => isBlank c = false ∧ c ≠ '-' ∧ c ≠ '/') (by decide) hc
    · decide
  refine IsToken.of_read hk hstart.1 (startsComment_of_ne hstart.2.1 hstart.2.2 cs) fun start => ?_
  rw [readToken_number hc, readNumber, hlength, List.take_length, List.drop_length,
    List.takeWhile_nil, ← hkind]
  rfl

theorem isToken_float (h : IsFloat cs) : IsToken d cs (.float (String.ofList cs)) := by
  obtain ⟨hhead, hlength, hfloat⟩ := h
  cases cs with
  | nil => rcases hhead with hhead | ⟨hhead, -⟩ <;> cases hhead
  | cons c cs =>
    have hc : c.isDigit = true ∨ c = '.' ∧ cs.head?.any Char.isDigit = true :=
      hhead.imp id fun h => ⟨Option.some.inj h.1, h.2⟩
    refine isToken_numeral rfl hc hlength ?_
    rcases hfloat with hfloat | hlarge
    · exact if_pos hfloat
    · split
      · rfl
      · cases hparse : Int4.parse (c :: cs) with
        | ok v =>
          rw [hparse] at hlarge
          cases hlarge
        | error p => rfl

theorem toList_toString_nat (n : Nat) : (toString (n : Int)).toList = Nat.toDigits 10 n := by
  rw [Int.toString_eq_repr, Int.repr_eq_if, if_pos (Int.natCast_nonneg n), Int.toNat_natCast,
    Nat.toList_repr]

theorem isDigit_toDigits (n : Nat) : ∀ c ∈ Nat.toDigits 10 n, c.isDigit = true :=
  fun _ hc => Nat.isDigit_of_mem_toDigits (by decide) (by decide) hc

/-- An integer without sign is read back. -/
theorem isToken_integer {n : Int} (h : IsNatural n) :
    IsToken d (toString n).toList (.integer n) := by
  obtain ⟨m, rfl⟩ := Int.eq_ofNat_of_zero_le h.1
  have hdigits := isDigit_toDigits m
  have hparse := Int4.parse_toDigits m (Int4.inRange_iff.mp h.2).2
  have hnumeral := numeral_digits hdigits
  rw [toList_toString_nat]
  cases hcs : Nat.toDigits 10 m with
  | nil => exact absurd hcs Nat.toDigits_ne_nil
  | cons c cs =>
    rw [hcs] at hdigits hparse hnumeral
    refine isToken_numeral rfl (.inl (hdigits c List.mem_cons_self)) ?_ ?_
    · rw [hnumeral]
    · rw [hnumeral, hparse]
      rfl

theorem takeWhile_eq_nil_of_head {p : Char → Bool} (h : ∀ x ∈ t.head?, p x = false) :
    t.takeWhile p = [] := by
  cases t with
  | nil => rfl
  | cons x t => rw [List.takeWhile_cons, h x rfl, if_neg Bool.false_ne_true]

/-- A parameter is read back in front of all but the parts of names. -/
theorem begins_param {n : Int} (h : IsNatural n) (ht : ∀ x ∈ t.head?, isNamePart x = false) :
    Begins d ('$' :: (toString n).toList) t (.param n) := by
  obtain ⟨m, rfl⟩ := Int.eq_ofNat_of_zero_le h.1
  have hdigits := isDigit_toDigits m
  have hparse := Int4.parse_toDigits m (Int4.inRange_iff.mp h.2).2
  rw [toList_toString_nat]
  refine ⟨rfl, '$', _, rfl, rfl, rfl, fun start => ?_⟩
  have hhead : (Nat.toDigits 10 m ++ t).head?.any Char.isDigit = true := by
    cases hcs : Nat.toDigits 10 m with
    | nil => exact absurd hcs Nat.toDigits_ne_nil
    | cons c cs =>
      rw [hcs] at hdigits
      exact hdigits c List.mem_cons_self
  have hrun : (Nat.toDigits 10 m ++ t).takeWhile Char.isDigit = Nat.toDigits 10 m := by
    have hdigit : ∀ x ∈ t.head?, x.isDigit = false := by
      intro x hx
      have hpart := ht x hx
      rw [isNamePart, Bool.or_eq_false_iff, Bool.or_eq_false_iff] at hpart
      exact hpart.1.2
    rw [List.takeWhile_append_of_pos hdigits, takeWhile_eq_nil_of_head hdigit, List.append_nil]
  have hjunk : (('$' :: (Nat.toDigits 10 m ++ t)).drop (1 + (Nat.toDigits 10 m).length)).takeWhile
      isNamePart = [] := by
    rw [Nat.add_comm, List.drop_succ_cons, List.drop_left, takeWhile_eq_nil_of_head ht]
  rw [readToken_param hhead, readParam]
  simp only [List.drop_succ_cons, List.drop_zero, hrun, hjunk, List.length_nil, Nat.add_zero, hparse]
  rw [List.length_cons, Nat.add_comm 1]
  rfl

/-! ### Operators and marks -/

theorem isInner_operatorKind (s : String) : (operatorKind s).isInner = true := by
  unfold operatorKind
  split <;> rfl

/-- An operator is read back. -/
theorem isToken_operatorChars (h : operatorChars cs = cs) (hne : cs ≠ []) :
    IsToken d cs (operatorKind (String.ofList cs)) := by
  cases cs with
  | nil => exact absurd rfl hne
  | cons c cs =>
    have hrun : operatorRun (c :: cs) ≠ [] := by
      intro hnil
      have hprefix := operatorChars_isPrefix (c :: cs)
      rw [h, hnil, List.prefix_nil] at hprefix
      cases hprefix
    have hc : (isOperatorChar c && !startsComment (c :: cs)) = true := by
      rw [operatorRun] at hrun
      exact Classical.byContradiction fun hneg => hrun (if_neg hneg)
    rw [Bool.and_eq_true, Bool.not_eq_true'] at hc
    have hblank : isBlank c = false :=
      of_isOperatorChar (P := fun c => isBlank c = false) (by decide) hc.1
    refine IsToken.of_read (isInner_operatorKind _) hblank hc.2 fun start => ?_
    rw [readToken_operator hc.1, readOperator, h, List.length_cons]

theorem isToken_operator {op : String} (h : IsOperator op) :
    IsToken d op.toList (operatorKind op) := by
  have hne : op.toList ≠ [] := fun hnil => h.nonempty (String.toList_eq_nil_iff.mp hnil)
  have htoken := isToken_operatorChars (d := d) h.whole hne
  rwa [String.ofList_toList] at htoken

/-- A single operator character is read back in front of all but operators. -/
theorem begins_operatorChar (hc : isOperatorChar c = true)
    (ht : ∀ x ∈ t.head?, isOperatorChar x = false) :
    Begins d [c] t (operatorKind (String.ofList [c])) := by
  have hblank : isBlank c = false :=
    of_isOperatorChar (P := fun c => isBlank c = false) (by decide) hc
  have hcomment : startsComment (c :: t) = false := by
    cases t with
    | nil => simp [startsComment]
    | cons x t =>
      have hx := ht x rfl
      unfold startsComment
      split
      · next heq =>
        cases heq
        cases hx
      · next heq =>
        cases heq
        cases hx
      · rfl
  have hrest : operatorRun t = [] := by
    cases t with
    | nil => rfl
    | cons x t =>
      rw [operatorRun, ht x rfl]
      rfl
  have hchars : operatorChars (c :: t) = [c] := by
    have hrun : operatorRun (c :: t) = [c] := by
      rw [operatorRun, hc, hcomment, hrest]
      rfl
    have hsign : dropSigns [c] = [c] := by
      cases h : isSign c <;> simp [dropSigns, h]
    rw [operatorChars, hrun, hsign, ite_self]
  refine ⟨isInner_operatorKind _, c, [], rfl, hblank, hcomment, fun start => ?_⟩
  rw [List.nil_append, readToken_operator hc, readOperator, hchars]

/-- A dot is read back in front of all but digits and dots. -/
theorem begins_dot (ht : ∀ x ∈ t.head?, x.isDigit = false ∧ x ≠ '.') : Begins d ['.'] t .dot := by
  refine ⟨rfl, '.', [], rfl, rfl, rfl, fun start => ?_⟩
  have hdigit : ¬ t.head?.any Char.isDigit = true := by
    cases t with
    | nil => exact Bool.false_ne_true
    | cons x t =>
      have hx := (ht x rfl).1
      rw [List.head?_cons, Option.any_some, hx]
      exact Bool.false_ne_true
  have hdot : t.head? ≠ some '.' := fun h => (ht '.' h).2 rfl
  rw [List.nil_append, readToken_bare (by decide), if_neg, if_neg fun h => hdot h.2,
    if_neg fun h => absurd h.1 (by decide), if_neg fun h => absurd h.1 (by decide)]
  · rfl
  · rintro (h | h)
    · cases h
    · exact hdigit h.2

/-- A colon is read back in front of all that makes no other token of it. -/
theorem begins_colon (ht : ∀ x ∈ t.head?, x ≠ ':' ∧ x ≠ '=') : Begins d [':'] t .colon := by
  refine ⟨rfl, ':', [], rfl, rfl, rfl, fun start => ?_⟩
  have hdouble : t.head? ≠ some ':' := fun h => (ht ':' h).1 rfl
  have hequals : t.head? ≠ some '=' := fun h => (ht '=' h).2 rfl
  have hnumber : ¬ (Char.isDigit ':' = true ∨ (':' = '.' ∧ t.head?.any Char.isDigit = true)) := by
    rintro (h | h)
    · cases h
    · exact absurd h.1 (by decide)
  rw [List.nil_append, readToken_bare (by decide), if_neg hnumber,
    if_neg fun h => absurd h.1 (by decide), if_neg fun h => hdouble h.2, if_neg fun h => hequals h.2]
  rfl

/-- A parenthesis, a bracket or a comma is read back whatever follows. -/
theorem begins_symbol (hc : c ∈ ['(', ')', '[', ']', ',']) : Begins d [c] t (symbolKind c) := by
  simp only [List.mem_cons, List.not_mem_nil, or_false] at hc
  rcases hc with rfl | rfl | rfl | rfl | rfl <;>
    exact ⟨rfl, _, [], rfl, rfl, rfl, fun _ => rfl⟩

end SqlSyntax
