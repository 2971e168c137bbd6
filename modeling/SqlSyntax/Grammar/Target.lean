import SqlSyntax.Grammar.Basic

/-!
# Output columns and assignments

## Main definitions

* `outputColumn`, `optionalReturning` — what a statement gives back.
* `assignments` — what it sets.
-/

namespace SqlSyntax.Grammar

open SqlSyntax.Parser

/-- Whether a token is a label that needs no `AS`. -/
def isBareLabel : TokenKind → Bool
  | .name _ => true
  | .keyword w => w.category = .unreserved
  | _ => false

/-- An optional label for an output column. -/
def optionalLabel : Parser (Option String) := do
  if ← acceptWord .AS then return some (← columnLabel)
  else if isBareLabel (← kind) then return some (← label)
  else return none

/-- An output column: all columns, or an expression with an optional label. -/
def outputColumn : Parser Target := do
  if ← accept .star then return ⟨none, some (Node.column [.star])⟩
  else
    let value ← expression
    return ⟨← optionalLabel, some value⟩

/-- The output columns behind `RETURNING`, if there are any. -/
def optionalReturning : Parser (List Target) :=
  listAfter .RETURNING (commaList outputColumn)

/-- A column to fill. -/
def columnToFill : Parser Target := do
  return ⟨some (← name), none⟩

/-- An assignment. -/
def assignment : Parser Target := do
  let column ← name
  expect .eq
  return ⟨some column, some (← valueOrDefault)⟩

/-- One or more assignments. -/
def assignments : Parser (List Target) :=
  commaList assignment

end SqlSyntax.Grammar
