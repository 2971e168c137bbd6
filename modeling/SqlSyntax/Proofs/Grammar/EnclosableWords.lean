import SqlSyntax.Proofs.Grammar.Enclosable

/-!
# Words and lists in parentheses

## Main definitions

* `TokenKind.Within` — a token that closes no parenthesis and ends no statement.

## Main results

* `enclosable_isAt_close` — asking for a closing parenthesis itself.
-/

namespace SqlSyntax

/-- The token closes no parenthesis and ends no statement. -/
class TokenKind.Within (k : TokenKind) : Prop extends k.Inner where
  ne_close : k ≠ .rightParen

instance (w : Keyword) : TokenKind.Within (.keyword w) := ⟨TokenKind.noConfusion⟩

instance : TokenKind.Within .comma := ⟨TokenKind.noConfusion⟩

instance : TokenKind.Within .dot := ⟨TokenKind.noConfusion⟩

instance : TokenKind.Within .star := ⟨TokenKind.noConfusion⟩

instance : TokenKind.Within .colon := ⟨TokenKind.noConfusion⟩

instance : TokenKind.Within .eq := ⟨TokenKind.noConfusion⟩

instance : TokenKind.Within .leftParen := ⟨TokenKind.noConfusion⟩

instance : TokenKind.Within .leftBracket := ⟨TokenKind.noConfusion⟩

instance : TokenKind.Within .rightBracket := ⟨TokenKind.noConfusion⟩

instance : TokenKind.Within .nullsAhead := ⟨TokenKind.noConfusion⟩

instance : TokenKind.Within .withAhead := ⟨TokenKind.noConfusion⟩

namespace Grammar

open SqlSyntax.Parser

variable {α β : Type}

/-! ### Tests for a token -/

section Tests

variable (k : TokenKind) [hk : k.Within]

/-- Neither a closing parenthesis nor the end of the text is the token. -/
theorem alike_close_end :
    (done (decide (.rightParen = k)) : Parser Bool).Alike (done (decide (.eof = k))) := by
  rw [decide_eq_false hk.ne_close.symm, decide_end_eq k rfl]
  exact Alike.refl _

instance : (isAt k).Enclosable :=
  enclosable_kind (.inl (alike_close_end k)) fun _ => inferInstance

instance : (isBefore k).Enclosable :=
  enclosable_nextKind (alike_close_end k) fun _ => inferInstance

instance : (accept k).Enclosable := by
  unfold accept
  infer_instance

instance : (expect k).Enclosable := by
  unfold expect
  infer_instance

end Tests

/-- A parser may ask for a closing parenthesis, if it fails at the end of a text. -/
theorem enclosable_isAt_close {f : Bool → Parser α} (hend : (f false).Stuck)
    [hf : ∀ found, (f found).Enclosable] : (isAt .rightParen >>= f).Enclosable := by
  rw [isAt, bind_assoc]
  exact enclosable_kind (.inr hend) fun _ => inferInstance

instance : (expect .rightParen).Enclosable := by
  unfold expect accept
  rw [bind_assoc]
  exact enclosable_isAt_close fun _ => trivial

theorem stuck_expect_close {f : Unit → Parser α} : (expect .rightParen >>= f).Stuck :=
  ⟨fun _ => trivial, fun _ => trivial⟩

section Words

variable (v w : Keyword) {p : Parser α}

instance : (isAtWord w).Enclosable := by
  unfold isAtWord
  infer_instance

instance : (isAtWords v w).Enclosable := by
  unfold isAtWords
  infer_instance

instance : (acceptWord w).Enclosable := by
  unfold acceptWord
  infer_instance

instance : (skipWord w).Enclosable := by
  unfold skipWord
  infer_instance

instance : (expectWord w).Enclosable := by
  unfold expectWord
  infer_instance

instance [p.Enclosable] : (after w p).Enclosable := by
  unfold after
  infer_instance

instance {p : Parser (List α)} [p.Enclosable] : (listAfter w p).Enclosable := by
  unfold listAfter
  infer_instance

end Words

/-! ### Lists -/

section Lists

variable (mark : TokenKind) [mark.Within] (item : Parser α) [item.Enclosable] (items : List α)

instance : (parenthesized item).Enclosable := by
  unfold parenthesized
  infer_instance

instance : (moreItems mark item items).Enclosable := by
  unfold moreItems
  infer_instance

instance : (itemsAfter mark item items).Enclosable := by
  unfold itemsAfter
  exact Enclosable.bind
    (enclosable_iterate (turns_of_loopStep (.items mark item)) (fun _ => inferInstance) _)
    fun _ => inferInstance

instance : (commaList item).Enclosable := by
  unfold commaList
  infer_instance

end Lists

/-! ### Names -/

instance : integer.Enclosable := by
  unfold integer
  refine enclosable_kind (.inl rfl) fun k => ?_
  split <;> infer_instance

instance (value : Option α) (expected : Expected) : (readAs value expected).Enclosable := by
  unfold readAs
  split <;> infer_instance

instance : name.Enclosable :=
  enclosable_kind (.inl rfl) fun _ => inferInstance

instance : callName.Enclosable :=
  enclosable_kind (.inl rfl) fun _ => inferInstance

instance : label.Enclosable :=
  enclosable_kind (.inl rfl) fun _ => inferInstance

instance : columnLabel.Enclosable := by
  unfold columnLabel
  refine enclosable_kind (.inl rfl) fun k => ?_
  split <;> infer_instance

instance : dottedName.Enclosable := by
  unfold dottedName
  infer_instance

instance (first : Nat) (names : List String) : (tableOfNames first names).Enclosable := by
  unfold tableOfNames
  split <;> infer_instance

/-- The place of a name has a say in its problem only. -/
theorem alike_tableOfNames (m n : Nat) (names : List String) :
    (tableOfNames m names).Alike (tableOfNames n names) := by
  unfold tableOfNames
  split
  · exact Alike.refl _
  · exact alike_refuseSince m n _

instance : tableName.Enclosable := by
  unfold tableName
  exact enclosable_index (fun m n => alike_bind _ (alike_tableOfNames m n)) fun _ => inferInstance

instance : nameList.Enclosable := by
  unfold nameList
  infer_instance

instance : optionalNameList.Enclosable := by
  unfold optionalNameList
  infer_instance

instance : optionalAlias.Enclosable := by
  unfold optionalAlias
  refine Enclosable.bind inferInstance fun explicit => ?_
  exact enclosable_kind (.inl rfl) fun _ => inferInstance

/-! ### Rules -/

instance (above : Level) : (operand above).Enclosable := by
  unfold operand
  infer_instance

instance : expression.Enclosable := by
  unfold expression
  infer_instance

instance : expressions.Enclosable := by
  unfold expressions
  infer_instance

instance : query.Enclosable := by
  unfold query
  infer_instance

instance : valueOrDefault.Enclosable := by
  unfold valueOrDefault
  infer_instance

instance : optionalCondition.Enclosable := by
  unfold optionalCondition
  infer_instance

end Grammar
end SqlSyntax
