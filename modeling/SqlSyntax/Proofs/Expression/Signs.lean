import SqlSyntax.Proofs.Expression.Chain
import SqlSyntax.Proofs.Expression.Operands
import SqlSyntax.Proofs.Expression.Simple
import SqlSyntax.Proofs.Lexeme.NumberTokens

/-!
# Minus signs in front of a number

A minus sign in front of a number is no operator: the number changes instead.  Between integers
and texts the number may change its form, but its value is the opposite each time.  What comes of
any number of signs is written with at most one.

## Main results

* `Literal.HasValue.negate` — one sign, and `Literal.HasValue.iterate_negate` — **any number of
  signs.**
* `within_signs` — signs in front of a constant are read in as many levels, and one more.
* `exists_spells_number` — how numbers are written.
-/

namespace SqlSyntax

open Grammar

variable {d : Dialect} {v : Literal} {cs : List Char} {n : Int} {q : ℚ}

/-! ### The opposite of a number -/

theorem isNumeral_toDigits (m : Nat) : IsNumeral (Nat.toDigits 10 m) m := by
  obtain ⟨ds, hds, hvalue⟩ := Int4.writes_toDigits m
  have hmagnitude : Int4.IsMagnitude (Nat.toDigits 10 m) (Nat.ofDigits 10 ds.reverse) :=
    .decimal (Int4.separated_of_areDigits hds Nat.toDigits_ne_nil)
  rw [← hvalue] at hmagnitude
  exact .whole (.magnitude hmagnitude)

/-- What is taken for plain decimal digits is a numeral behind a sign. -/
theorem Int4.ofDecimal?_eq_some (h : ofDecimal? cs = some n) :
    ∃ negative body m, splitSign cs = (negative, body) ∧ IsNumeral body (m : Nat) ∧
      n = signed negative m := by
  unfold ofDecimal? at h
  rcases hsign : splitSign cs with ⟨negative, body⟩
  cases hdigits : fixedDigits 10 body.length body with
  | none => simp [hsign, hdigits] at h
  | some m =>
    simp only [hsign, hdigits, Option.ite_none_right_eq_some, Bool.and_eq_true, Bool.not_eq_true',
      Option.some.injEq] at h
    obtain ⟨⟨hne, -⟩, rfl⟩ := h
    obtain ⟨ds, hds, rfl⟩ := writes_iff.mpr hdigits
    have hne : body ≠ [] := by
      rintro rfl
      cases hne
    exact ⟨negative, body, _, rfl, .whole (.magnitude (.decimal (separated_of_areDigits hds hne))),
      rfl⟩

theorem StartsNumeral.splitSign_eq (h : StartsNumeral cs) : splitSign cs = (false, cs) := by
  cases cs with
  | nil => rfl
  | cons c cs =>
    obtain ⟨hminus, hplus⟩ := h.ne_sign
    unfold splitSign
    split
    · next heq => exact absurd (List.cons.inj heq).1 hminus
    · next heq => exact absurd (List.cons.inj heq).1 hplus
    · rfl

/-- A text that becomes an integer has its value. -/
theorem Literal.HasValue.eq_ofDecimal {s : String} (h : (Literal.float s).HasValue q)
    (hn : Int4.ofDecimal? s.toList = some n) : q = n := by
  obtain ⟨negative, body, m, hsign, hbody, rfl⟩ := Int4.ofDecimal?_eq_some hn
  generalize htext : Literal.float s = v at h
  cases h with
  | integer => cases htext
  | unsigned h =>
    cases htext
    rw [String.toList_ofList, h.startsNumeral.splitSign_eq] at hsign
    cases hsign
    rw [h.unique hbody, Int4.signed, if_neg Bool.false_ne_true, Int.cast_natCast]
  | negative h =>
    cases htext
    rw [String.toList_ofList] at hsign
    cases hsign
    rw [h.unique hbody, Int4.signed, if_pos rfl, Int.cast_neg, Int.cast_natCast]

/-- The opposite of a number has the opposite value. -/
theorem Literal.HasValue.negated (h : v.HasValue q) :
    ∃ w, v.negated = some w ∧ w.HasValue (-q) := by
  cases h with
  | integer n =>
    by_cases hleast : n = Int4.least
    · -- only the opposite of the least integer is kept as text
      subst hleast
      have htext : String.ofList (Nat.toDigits 10 2147483648) = toString (-Int4.least) := by
        rw [← toList_toString_nat, String.ofList_toList]
        rfl
      have hvalue : -((Int4.least : Int) : ℚ) = (2147483648 : Nat) := by
        rw [← Int.cast_neg]
        rfl
      refine ⟨.float (toString (-Int4.least)), by rw [negated, if_pos rfl], ?_⟩
      rw [hvalue, ← htext]
      exact .unsigned (isNumeral_toDigits _)
    · refine ⟨.integer (-n), by rw [negated, if_neg hleast], ?_⟩
      rw [← Int.cast_neg]
      exact .integer (-n)
  | @unsigned cs q h =>
    have hminus (cs' : List Char) : cs ≠ '-' :: cs' := by
      rintro rfl
      exact h.startsNumeral.ne_sign.1 rfl
    exact ⟨_, congrArg (some ∘ float) (negatedText_unsigned hminus), .negative h⟩
  | @negative cs q h =>
    rw [neg_neg]
    exact ⟨_, congrArg (some ∘ float) (negatedText_negative cs), .unsigned h⟩

/-- **A minus sign in front of a number gives its opposite**, and never an operation. -/
theorem Literal.HasValue.negate (h : v.HasValue q) (hread : v.IsRead) :
    ∃ w : Literal, Node.negate (.const v) = .const w ∧ w.IsRead ∧ w.HasValue (-q) := by
  obtain ⟨w, hw, hvalue⟩ := h.negated
  have hsame (hfloat : ∀ s, w = .float s → Int4.ofDecimal? s.toList = none)
      (hnegate : Node.negate (.const v) = .const w) :
      ∃ w : Literal, Node.negate (.const v) = .const w ∧ w.IsRead ∧ w.HasValue (-q) :=
    ⟨w, hnegate, hread.negated hw hfloat, hvalue⟩
  cases w with
  | float s =>
    cases hn : Int4.ofDecimal? s.toList with
    | none =>
      refine hsame (fun s' heq => ?_) (by simp only [Node.negate, hw, hn])
      cases heq
      exact hn
    | some n =>
      -- the text fits an integer now
      refine ⟨.integer n, by simp only [Node.negate, hw, hn]; rfl,
        .integer (Int4.inRange_of_ofDecimal? hn), ?_⟩
      rw [hvalue.eq_ofDecimal hn]
      exact .integer n
  | _ => exact hsame (fun s heq => by cases heq) (by simp only [Node.negate, hw])

/-- **Any number of minus signs in front of a number** change the sign of its value as often. -/
theorem Literal.HasValue.iterate_negate (h : v.HasValue q) (hread : v.IsRead) (signs : Nat) :
    ∃ w : Literal, Node.negate^[signs] (.const v) = .const w ∧ w.IsRead ∧
      w.HasValue ((-1) ^ signs * q) := by
  induction signs with
  | zero => exact ⟨v, rfl, hread, by rwa [pow_zero, one_mul]⟩
  | succ signs ih =>
    obtain ⟨w, hw, hwread, hvalue⟩ := ih
    obtain ⟨w', hw', hread', hvalue'⟩ := hvalue.negate hwread
    refine ⟨w', by rw [Function.iterate_succ_apply', hw, hw'], hread', ?_⟩
    rwa [pow_succ, mul_neg_one, neg_mul]

/-- The opposite of the least integer is no integer, whatever it is written like. -/
example : Node.negate^[3] (.const (.float "02147483648")) = .const (.integer (-2147483648)) ∧
    Node.negate^[4] (.const (.float "02147483648")) = .const (.float "2147483648") :=
  ⟨rfl, rfl⟩

/-! ### Reading -/

/-- Signs in front of a constant are read if nothing goes on behind it.  Each of them takes a
level, and so does the constant. -/
theorem Grammar.within_signs {k : TokenKind} {rest : List TokenKind} (hk : k.constant? = some v)
    (hrest : Level.ofInfix? (firstOf rest) = none) (signs : Nat) (above : Level) :
    Rule.Within (signs + 1) (.expression above) (List.replicate signs .minus ++ k :: rest)
      (Node.negate^[signs] (.const v)) rest := by
  have hnone {R : (r : Rule) → List TokenKind → r.Result → List TokenKind → Prop} (above : Level)
      (n : Node) : (operations above n).ReadsWith R rest n rest :=
    reads_iterate_none (reads_noLink fun l hl => by rw [hrest] at hl; cases hl)
  induction signs generalizing above with
  | zero => exact Parser.readsWith_bind (reads_constantToken hk) (hnone above _)
  | succ signs ih =>
    rw [Function.iterate_succ_apply', List.replicate_succ, List.cons_append]
    have hoperand : (operand Level.sign).ReadsWith (Rule.Within (signs + 1))
        (List.replicate signs .minus ++ k :: rest) (Node.negate^[signs] (.const v)) rest :=
      ⟨_, _, ih Level.sign, rfl, rfl⟩
    exact Parser.readsWith_bind (reads_minus hoperand) (hnone above _)

/-! ### Writing -/

theorem constant?_integerKind (n : Int) : (integerKind n).constant?
    = some (if Int4.inRange n then .integer n else .float (toString n)) := by
  unfold integerKind
  split <;> rfl

/-- A sign in front of a token that starts with no operator. -/
theorem IsToken.spells_minus {k : TokenKind} (h : IsToken d cs k) (hhead : ∀ x ∈ cs.head?, Opens x) :
    Spells d ('-' :: cs) [.minus, k] := by
  have hrest : Spells d (cs ++ []) [k] := Begins.spells h (spells_nil d)
  rw [List.append_nil] at hrest
  exact (begins_operatorChar rfl fun x hx => (hhead x hx).1).spells hrest

/-- A number is written with at most one sign, and the sign gives the number back. -/
theorem exists_spells_number (h : v.HasValue q) (hread : v.IsRead) (d : Dialect) :
    ∃ (signs : Nat) (k : TokenKind) (w : Literal), signs ≤ 1 ∧ k.constant? = some w ∧
      Spells d v.text.toList (List.replicate signs .minus ++ [k]) ∧
      Node.negate^[signs] (.const w) = .const v := by
  have hunsigned {k : TokenKind} (hk : k.constant? = some v) (htoken : IsToken d v.text.toList k) :
      ∃ (signs : Nat) (k : TokenKind) (w : Literal), signs ≤ 1 ∧ k.constant? = some w ∧
        Spells d v.text.toList (List.replicate signs .minus ++ [k]) ∧
        Node.negate^[signs] (.const w) = .const v := by
    have hspells : Spells d (v.text.toList ++ []) [k] := Begins.spells htoken (spells_nil d)
    rw [List.append_nil] at hspells
    exact ⟨0, k, v, Nat.zero_le _, hk, hspells, rfl⟩
  cases hread with
  | @integer n hrange =>
    by_cases hneg : n < 0
    · obtain ⟨m, rfl⟩ : ∃ m : Nat, n = -(m : Int) := ⟨n.natAbs, by omega⟩
      have htoken : IsToken d _ _ := isToken_integerKind (Int.natCast_nonneg m) hrange
      rw [toList_toString_nat] at htoken
      have htext : (Literal.integer (-(m : Int))).text.toList = '-' :: Nat.toDigits 10 m :=
        toList_toString_neg m (by omega)
      -- the digits behind the sign are a float if they are those of the least integer
      have hnegate := negate_integer hrange hneg
      rw [Int.neg_neg] at hnegate
      refine ⟨1, _, _, Nat.le_refl _, constant?_integerKind m, ?_, by rwa [Function.iterate_one]⟩
      rw [htext]
      exact htoken.spells_minus fun x hx =>
        opens_of_isDigit (isDigit_toDigits m x (List.mem_of_mem_head? hx))
    · exact hunsigned rfl (isToken_integer ⟨by omega, hrange⟩)
  | @float cs hcs =>
    refine hunsigned (k := .float (String.ofList cs)) rfl ?_
    rw [Literal.text, String.toList_ofList]
    exact isToken_float hcs
  | @negative cs hcs hlarge =>
    have hnegate := negate_float hcs hlarge
    refine ⟨1, .float (String.ofList cs), _, Nat.le_refl _, rfl, ?_, by rwa [Function.iterate_one]⟩
    rw [Literal.text, String.toList_ofList]
    exact (isToken_float hcs).spells_minus hcs.head.2
  | _ => cases h

end SqlSyntax
