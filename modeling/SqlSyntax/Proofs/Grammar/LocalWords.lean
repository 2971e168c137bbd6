import SqlSyntax.Proofs.Grammar.Local

/-!
# Words and lists keep to their statement

## Main definitions

* `TokenKind.Inner` — a token that ends no statement.

## Main results

* `keeps_isAt`, `keeps_isBefore` — what a test for a token makes known.
-/

namespace SqlSyntax

/-- The token ends no statement. -/
class TokenKind.Inner (k : TokenKind) : Prop where
  not_ends : k.endsStatement = false

instance (w : Keyword) : TokenKind.Inner (.keyword w) := ⟨rfl⟩

instance : TokenKind.Inner .comma := ⟨rfl⟩

instance : TokenKind.Inner .dot := ⟨rfl⟩

instance : TokenKind.Inner .star := ⟨rfl⟩

instance : TokenKind.Inner .colon := ⟨rfl⟩

instance : TokenKind.Inner .eq := ⟨rfl⟩

instance : TokenKind.Inner .leftParen := ⟨rfl⟩

instance : TokenKind.Inner .rightParen := ⟨rfl⟩

instance : TokenKind.Inner .leftBracket := ⟨rfl⟩

instance : TokenKind.Inner .rightBracket := ⟨rfl⟩

instance : TokenKind.Inner .nullsAhead := ⟨rfl⟩

instance : TokenKind.Inner .withAhead := ⟨rfl⟩

namespace Grammar

open SqlSyntax.Parser

variable {α β : Type} {known : Nat}

/-! ### Tests for a token -/

section Tests

variable (k : TokenKind) [hk : k.Inner]

/-- No end of a statement is the token. -/
theorem decide_end_eq {e : TokenKind} (he : e.endsStatement = true) : decide (e = k) = false := by
  rw [decide_eq_false_iff_not]
  rintro rfl
  rw [hk.not_ends] at he
  exact Bool.noConfusion he

/-- A token that is there is one of the statement. -/
theorem keeps_isAt : (isAt k).Keeps (fun found => if found then 1 else 0) 0 := by
  simp only [isAt, Parser.kind, Parser.bind_eq, Parser.bind, Parser.pure_eq, Keeps]
  refine ⟨fun _ => ?_, fun j _ => ?_⟩
  · rw [decide_end_eq k rfl, decide_end_eq k rfl]
    exact ⟨rfl, Nat.le_refl 0⟩
  · split <;> omega

/-- The same for the token behind one of the statement. -/
theorem keeps_isBefore : (isBefore k).Keeps (fun found => if found then 2 else 1) 1 := by
  simp only [isBefore, Parser.nextKind, Parser.bind_eq, Parser.bind, Parser.pure_eq, Keeps]
  refine ⟨fun h => absurd h Nat.one_ne_zero, fun _ => ?_, fun j _ => ?_⟩
  · rw [decide_end_eq k rfl, decide_end_eq k rfl]
    exact ⟨rfl, Nat.le_refl 1⟩
  · split <;> omega

instance : Peeking (isBefore k) :=
  ⟨(keeps_isBefore k).mono (Nat.le_refl 1) fun found => by split <;> omega⟩

variable {p q : Parser α}

instance [hp : p.LocalFrom 1] [hq : q.Local] :
    (isAt k >>= fun found => if found = true then p else q).Local := by
  refine ⟨(keeps_isAt k).bind fun found => ?_⟩
  cases found
  · exact hq.keeps
  · exact hp.keeps

instance [hp : p.LocalFrom 2] [hq : q.LocalFrom 1] :
    (isBefore k >>= fun found => if found = true then p else q).LocalFrom 1 := by
  refine ⟨(keeps_isBefore k).bind fun found => ?_⟩
  cases found
  · exact hq.keeps
  · exact hp.keeps

instance : (isAt k).Local :=
  ⟨(keeps_isAt k).mono (Nat.le_refl 0) fun _ => Nat.zero_le _⟩

instance : (accept k).Local := by
  unfold accept
  infer_instance

instance : (expect k).Local := by
  unfold expect
  infer_instance

end Tests

section Words

variable (v w : Keyword) {p q : Parser α}

instance [p.LocalFrom 1] [q.Local] :
    (isAtWord w >>= fun found => if found = true then p else q).Local := by
  unfold isAtWord
  infer_instance

instance : (isAtWord w).Local := by
  unfold isAtWord
  infer_instance

/-- Two keywords that are there are tokens of the statement. -/
theorem keeps_isAtWords : (isAtWords v w).Keeps (fun found => if found then 2 else 0) 0 := by
  refine (keeps_isAt (.keyword v)).bind fun found => ?_
  cases found with
  | false => exact Nat.le_refl 0
  | true =>
    refine (keeps_isBefore (.keyword w)).mono (Nat.le_refl 1) fun found => ?_
    cases found <;> simp

instance [hp : p.LocalFrom 2] [hq : q.Local] :
    (isAtWords v w >>= fun found => if found = true then p else q).Local := by
  refine ⟨(keeps_isAtWords v w).bind fun found => ?_⟩
  cases found
  · exact hq.keeps
  · exact hp.keeps

instance : (acceptWord w).Local := by
  unfold acceptWord
  infer_instance

instance : (skipWord w).Local := by
  unfold skipWord
  infer_instance

instance : (expectWord w).Local := by
  unfold expectWord
  infer_instance

instance [p.Local] : (after w p).Local := by
  unfold after
  infer_instance

instance {p : Parser (List α)} [p.Local] : (listAfter w p).Local := by
  unfold listAfter
  infer_instance

end Words

/-! ### Lists -/

section Lists

variable (mark : TokenKind) [mark.Inner] (item : Parser α) [item.Local] (items : List α)

instance : (parenthesized item).Local := by
  unfold parenthesized
  infer_instance

instance : (moreItems mark item items).Local := by
  unfold moreItems
  infer_instance

instance : (itemsAfter mark item items).Local := by
  unfold itemsAfter
  infer_instance

instance : (commaList item).Local := by
  unfold commaList
  infer_instance

end Lists

/-! ### Names -/

instance : integer.Local := by
  unfold integer
  refine local_kind rfl (inferInstanceAs (unexpected _).Local) fun k _ => ?_
  split <;> infer_instance

instance (value : Option α) (expected : Expected) : (readAs value expected).LocalFrom 1 := by
  unfold readAs
  cases value <;> infer_instance

instance : name.Local :=
  local_kind rfl (inferInstanceAs (unexpected _).Local) fun _ _ => inferInstance

instance : callName.Local :=
  local_kind rfl (inferInstanceAs (unexpected _).Local) fun _ _ => inferInstance

instance : label.Local :=
  local_kind rfl (inferInstanceAs (unexpected _).Local) fun _ _ => inferInstance

instance : columnLabel.Local := by
  unfold columnLabel
  refine local_kind rfl (inferInstanceAs label.Local) fun k _ => ?_
  split <;> infer_instance

instance : dottedName.Local := by
  unfold dottedName
  infer_instance

instance (first : Nat) (names : List String) : (tableOfNames first names).Local := by
  unfold tableOfNames
  split <;> infer_instance

instance : tableName.Local := by
  unfold tableName
  infer_instance

instance : nameList.Local := by
  unfold nameList
  infer_instance

instance : optionalNameList.Local := by
  unfold optionalNameList
  infer_instance

instance : optionalAlias.Local := by
  unfold optionalAlias
  refine LocalFrom.bind inferInstance fun explicit => ?_
  exact local_kind rfl inferInstance fun _ _ => inferInstance

/-! ### Rules -/

instance (above : Level) : (operand above).Local := by
  unfold operand
  infer_instance

instance : expression.Local := by
  unfold expression
  infer_instance

instance : expressions.Local := by
  unfold expressions
  infer_instance

instance : query.Local := by
  unfold query
  infer_instance

instance : valueOrDefault.Local := by
  unfold valueOrDefault
  infer_instance

instance : optionalCondition.Local := by
  unfold optionalCondition
  infer_instance

end Grammar
end SqlSyntax
