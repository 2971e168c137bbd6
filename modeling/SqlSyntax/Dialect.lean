import SqlSyntax.Text.Quoted

/-!
# Dialects

The settings that change how a text is cut into tokens: whether a backslash is an
ordinary character in a plain string constant, whether its use as an escape
draws a warning, and how long a name may be.

## Main definitions

* `Dialect` — a dialect with its settings.
* `Dialect.postgres` — PostgreSQL with the settings of a new server.
-/

namespace SqlSyntax

/-- The settings of a dialect. -/
structure Dialect where
  /-- The name of the dialect. -/
  name : String
  /-- A backslash is an ordinary character in a plain string constant. -/
  standardStrings : Bool
  /-- An escape in a plain string constant draws a warning. -/
  escapeWarning : Bool
  /-- The longest name that is kept whole, in bytes. -/
  maxNameLength : Nat
  deriving DecidableEq, Repr, Inhabited

namespace Dialect

/-- A dialect with the usual settings. -/
def named (name : String) : Dialect :=
  ⟨name, true, true, 63⟩

/-- PostgreSQL with the settings of a new server. -/
def postgres : Dialect :=
  named "postgres"

/-- A name as the dialect writes it. -/
def quoteName (_ : Dialect) (name : String) : String :=
  SqlSyntax.quoteName name

end Dialect
end SqlSyntax
