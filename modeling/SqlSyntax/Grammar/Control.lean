import SqlSyntax.Grammar.Basic
import SqlSyntax.Tree.Building

/-!
# Transactions and settings

The statements that control transactions and the parameters of a session.

## Main definitions

* `TransactionWord`, `transaction` — the statements about transactions.
* `setting`, `reset`, `showSetting` — the statements about parameters, behind
  their first word.
-/

namespace SqlSyntax.Grammar

open SqlSyntax.Parser

/-! ### Transactions -/

/-- The words that start a statement about transactions. -/
inductive TransactionWord
  | begin | start | commit | rollback | abort | savepoint | release
  deriving DecidableEq, Repr

/-- What a keyword that starts a statement about transactions means. -/
def TransactionWord.ofWord? : Keyword → Option TransactionWord
  | .BEGIN => some begin
  | .START => some start
  | .COMMIT | .END => some commit
  | .ROLLBACK => some rollback
  | .ABORT => some abort
  | .SAVEPOINT => some savepoint
  | .RELEASE => some release
  | _ => none

/-- Reads `WORK` or `TRANSACTION`, which mean nothing. -/
def skipTransaction : Parser Unit := do
  if ← acceptWord .WORK then return () else skipWord .TRANSACTION

/-- Whether a new transaction follows. -/
def optionalChain : Parser Bool := do
  if ← acceptWord .AND then
    let no ← acceptWord .NO
    expectWord .CHAIN
    return !no
  else return false

/-- An isolation level. -/
def isolationLevel : Parser IsolationLevel := do
  match (← kind).spelledKeyword? with
  | some .SERIALIZABLE => do
    skip
    return .serializable
  | some .REPEATABLE => do
    skip
    expectWord .READ
    return .repeatableRead
  | some .READ => do
    skip
    if ← acceptWord .COMMITTED then return .readCommitted
    else
      expectWord .UNCOMMITTED
      return .readUncommitted
  | _ => unexpected .isolationLevel

/-- A characteristic of a transaction, if one starts here. -/
def optionalMode : Parser (Option TransactionMode) := do
  match (← kind).spelledKeyword? with
  | some .ISOLATION => do
    skip
    expectWord .LEVEL
    return some (.isolation (← isolationLevel))
  | some .READ => do
    skip
    if ← acceptWord .ONLY then return some .readOnly
    else
      expectWord .WRITE
      return some .readWrite
  | some .DEFERRABLE => do
    skip
    return some .deferrable
  | some .NOT => do
    if ← isBefore (.keyword .DEFERRABLE) then
      skip
      skip
      return some .notDeferrable
    else return none
  | _ => return none

/-- A comma between characteristics, which may be left out. -/
def modeComma (modes : List TransactionMode) : Parser Bool := do
  if modes.isEmpty then return false else accept .comma

/-- A further characteristic of a transaction, if there is one. -/
def moreModes (modes : List TransactionMode) : Parser (Option (List TransactionMode)) := do
  let comma ← modeComma modes
  match ← optionalMode with
  | some m => return some (m :: modes)
  | none => if comma then misplaced else return none

/-- The characteristics of a transaction. -/
def transactionModes : Parser (List TransactionMode) := do
  return (← iterate moreModes []).reverse

/-- A return to a savepoint or the start of a transaction. -/
def rollback : Parser Transaction := do
  skipTransaction
  if ← acceptWord .TO then
    skipWord .SAVEPOINT
    return {
      kind := .rollbackTo
      savepoint := some (← name) }
  else return {
    kind := .rollback
    chain := ← optionalChain }

/-- A statement about transactions, behind its first word. -/
def transaction : TransactionWord → Parser Transaction
  | .begin => do
    skipTransaction
    return {
      kind := .begin
      modes := ← transactionModes }
  | .start => do
    expectWord .TRANSACTION
    return {
      kind := .start
      modes := ← transactionModes }
  | .commit => do
    skipTransaction
    return {
      kind := .commit
      chain := ← optionalChain }
  | .rollback => rollback
  | .abort => do
    skipTransaction
    return {
      kind := .rollback
      chain := ← optionalChain }
  | .savepoint => do
    return {
      kind := .savepoint
      savepoint := some (← name) }
  | .release => do
    skipWord .SAVEPOINT
    return {
      kind := .release
      savepoint := some (← name) }

/-! ### Settings -/

/-- The name of the parameter that the words `TIME ZONE` stand for. -/
def zoneSetting : String :=
  "timezone"

/-- The dotted name of a parameter.  All its parts are names. -/
def dottedSetting : Parser String := do
  return ".".intercalate (← itemsAfter .dot name [← name])

/-- The name of a parameter. -/
def settingName : Parser String := do
  if ← isAtWords .TIME .ZONE then
    skip
    skip
    return zoneSetting
  else dottedSetting

/-- A number without a sign. -/
def number? : TokenKind → Option Literal
  | .integer n => some (.integer n)
  | .float s => some (.float s)
  | _ => none

/-- The number behind a sign. -/
def signedNumber (negative : Bool) : Parser Literal := do
  match number? (← kind) with
  | some v => do
    skip
    return if negative then v.negated.getD v else v
  | none => misplaced

/-- Whether a keyword can be the value of a parameter. -/
def isSettingWord (w : Keyword) : Bool :=
  w == .TRUE || w == .FALSE || w == .ON || !w.isReserved

/-- The value of a parameter that a token is. -/
def settingValue? : TokenKind → Option Literal
  | .string s => some (.string s)
  | .name s => some (.string s)
  | .keyword w => if isSettingWord w then some (.string w.spelling) else none
  | k => number? k

/-- The value of a parameter.  Words are strings. -/
def settingValue : Parser Node := do
  match ← kind with
  | .plus => do
    skip
    return Node.const (← signedNumber false)
  | .minus => do
    skip
    return Node.const (← signedNumber true)
  | k => return Node.const (← readAs (settingValue? k) .settingValue)

/-- Whether a setting holds for the transaction only. -/
def isLocal : Parser Bool := do
  if ← acceptWord .LOCAL then return true
  else
    skipWord .SESSION
    return false

/-- The time zone to set, behind its name. -/
def zoneValue (isLocal : Bool) : Parser Node := do
  match (← kind).spelledKeyword? with
  | some .DEFAULT | some .LOCAL => do
    skip
    return Node.setting .setDefault (some zoneSetting) [] isLocal
  | _ => return Node.setting .set (some zoneSetting) [← settingValue] isLocal

/-- Reads `TO` or an equals sign. -/
def settingSign : Parser Unit := do
  if ← acceptWord .TO then return () else expect .eq

/-- The parameter to set, with its values. -/
def settingWithValue (isLocal : Bool) : Parser Node := do
  let s ← dottedSetting
  settingSign
  if ← acceptWord .DEFAULT then return Node.setting .setDefault (some s) [] isLocal
  else return Node.setting .set (some s) (← commaList settingValue) isLocal

/-- A parameter to set. -/
def setting : Parser Node := do
  let loc ← isLocal
  if ← isAtWords .TIME .ZONE then
    skip
    skip
    zoneValue loc
  else settingWithValue loc

/-- A parameter to reset, or all. -/
def reset : Parser Node := do
  if ← acceptWord .ALL then return Node.setting .resetAll none [] false
  else return Node.setting .reset (some (← settingName)) [] false

/-- A parameter to show, or all. -/
def showSetting : Parser Node := do
  if ← acceptWord .ALL then return Node.showSetting "all"
  else return Node.showSetting (← settingName)

end SqlSyntax.Grammar
