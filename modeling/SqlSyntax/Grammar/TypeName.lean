import SqlSyntax.Grammar.Basic
import SqlSyntax.Rendering.TypeSpelling
import SqlSyntax.Tree.Building

/-!
# Type names

Types that come with the system are written in words of their own and kept
under the system's names for them.  All other types have a dotted name.

## Main definitions

* `plainType` — a type without `SETOF` and dimensions.
* `intervalModifiers` — the fields that an interval is restricted to.
* `typeName` — a type.
-/

namespace SqlSyntax

/-- The fields of an interval. -/
def IntervalField.all : List IntervalField :=
  [.year, .month, .day, .hour, .minute, .second]

/-- The field that a keyword stands for. -/
def IntervalField.ofWord? (w : Keyword) : Option IntervalField :=
  all.find? fun f => f.word = w

/-- The range from one field to a later one, if it can be written. -/
def IntervalRange.between? (first last : IntervalField) : Option IntervalRange :=
  all.find? fun r => r.first = first && !r.more.isEmpty && r.last = last

namespace Grammar

open SqlSyntax.Parser

/-! ### Modifiers -/

/-- Modifiers in parentheses, if there are any. -/
def optionalModifiers : Parser (List Node) := do
  if ← isAt .leftParen then parenthesized expressions else return []

/-- The last field of a range that starts with `first`. -/
def rangeEnd (first : IntervalField) : Parser IntervalRange := do
  match ((← kind).keyword?.bind IntervalField.ofWord?).bind (IntervalRange.between? first) with
  | some r => do
    skip
    return r
  | none => misplaced

/-- The range of fields that starts with `first`, which has been read.  Seconds
are the last field of any range. -/
def intervalRange (first : IntervalField) : Parser IntervalRange := do
  if first = .second then return ⟨first, []⟩
  else if ← acceptWord .TO then rangeEnd first
  else return ⟨first, []⟩

/-- The precision of the seconds of a range, in parentheses, if it is there. -/
def optionalPrecision (r : IntervalRange) : Parser (List Node) := do
  if r.last = .second then
    if ← isAt .leftParen then return [Node.integer (← parenthesized integer)]
    else return []
  else return []

/-- The modifiers for an optional range of fields behind an interval. -/
def intervalModifiers : Parser (List Node) := do
  match (← kind).keyword?.bind IntervalField.ofWord? with
  | none => return []
  | some first =>
    skip
    let r ← intervalRange first
    return Node.integer r.mask :: (← optionalPrecision r)

/-! ### System types -/

/-- A system type with optional modifiers. -/
def modifiedType (type : String) : Parser TypeName := do
  return { TypeName.system type with modifiers := ← optionalModifiers }

/-- A system type whose length is one unless another is given. -/
def fixedLengthType (type : String) : Parser TypeName := do
  let modifiers ← optionalModifiers
  return { TypeName.system type with
    modifiers := if modifiers.isEmpty then [Node.integer 1] else modifiers }

/-- A system type of strings of a fixed length, or with `VARYING` one of any
length. -/
def stringType (fixed varying : String) : Parser TypeName := do
  if ← acceptWord .VARYING then modifiedType varying else fixedLengthType fixed

/-- The binary floating-point type of a precision in bits that was read from the
token at `first` on. -/
def floatOfPrecision (first : Nat) (bits : Int) : Parser TypeName :=
  if bits ≤ 0 then .fail ⟨.precisionTooLow, first, first⟩
  else if bits ≤ 24 then return TypeName.system "float4"
  else if bits ≤ 53 then return TypeName.system "float8"
  else .fail ⟨.precisionTooHigh, first, first⟩

/-- What may follow `FLOAT`. -/
def floatType : Parser TypeName := do
  if ← accept .leftParen then
    let first ← index
    let bits ← integer
    expect .rightParen
    floatOfPrecision first bits
  else return TypeName.system "float8"

/-- Whether a time has a zone, in words that may follow it. -/
def optionalZone : Parser Bool := do
  match ← kind with
  | .withAhead => do
    skip
    expectWord .TIME
    expectWord .ZONE
    return true
  | .withoutAhead => do
    skip
    expectWord .TIME
    expectWord .ZONE
    return false
  | _ => return false

/-- A type of times, without or with a zone. -/
def timeType (plain zoned : String) : Parser TypeName := do
  let modifiers ← optionalModifiers
  let hasZone ← optionalZone
  return { TypeName.system (if hasZone then zoned else plain) with modifiers := modifiers }

/-- What may follow `INTERVAL`: a precision or a range of fields. -/
def intervalType : Parser TypeName := do
  if ← isAt .leftParen then
    let precision ← parenthesized integer
    return { TypeName.system "interval" with
      modifiers := [Node.integer IntervalRange.fullMask, Node.integer precision] }
  else return { TypeName.system "interval" with modifiers := ← intervalModifiers }

/-- A type with a dotted name. -/
def namedType : Parser TypeName := do
  let names ← itemsAfter .dot label [← callName]
  return { TypeName.named names with modifiers := ← optionalModifiers }

/-- The system type that a single keyword stands for. -/
def wordType? : Keyword → Option String
  | .INT | .INTEGER => some "int4"
  | .SMALLINT => some "int2"
  | .BIGINT => some "int8"
  | .REAL => some "float4"
  | .BOOLEAN => some "bool"
  | _ => none

/-- A type that starts with the keyword `w`. -/
def typeOfWord (w : Keyword) : Parser TypeName := do
  match wordType? w, w with
  | some type, _ => do
    skip
    return TypeName.system type
  | none, .FLOAT => do
    skip
    floatType
  | none, .DOUBLE => do
    if ← isBefore (.keyword .PRECISION) then
      skip
      skip
      return TypeName.system "float8"
    else namedType
  | none, .DEC | none, .DECIMAL | none, .NUMERIC => do
    skip
    modifiedType "numeric"
  | none, .BIT => do
    skip
    stringType "bit" "varbit"
  | none, .CHAR | none, .CHARACTER | none, .NCHAR => do
    skip
    stringType "bpchar" "varchar"
  | none, .NATIONAL => do
    skip
    if ← acceptWord .CHARACTER then stringType "bpchar" "varchar"
    else
      expectWord .CHAR
      stringType "bpchar" "varchar"
  | none, .VARCHAR => do
    skip
    modifiedType "varchar"
  | none, .TIMESTAMP => do
    skip
    timeType "timestamp" "timestamptz"
  | none, .TIME => do
    skip
    timeType "time" "timetz"
  | none, .INTERVAL => do
    skip
    intervalType
  | none, _ => namedType

/-- A type without `SETOF` and dimensions. -/
def plainType : Parser TypeName := do
  match (← kind).keyword? with
  | some w => typeOfWord w
  | none => namedType

/-! ### Dimensions -/

/-- The size of a dimension behind its opening bracket. -/
def dimension : Parser Int := do
  if ← accept .rightBracket then return -1
  else
    let n ← integer
    expect .rightBracket
    return n

/-- A further dimension in brackets, if there is one. -/
def moreDimensions (bounds : List Int) : Parser (Option (List Int)) := do
  if ← accept .leftBracket then return some ((← dimension) :: bounds) else return none

/-- The dimensions of an array type: the word `ARRAY` with an optional size, or
any number of brackets. -/
def dimensions : Parser (List Int) := do
  if ← acceptWord .ARRAY then
    if ← accept .leftBracket then
      let n ← integer
      expect .rightBracket
      return [n]
    else return [-1]
  else return (← iterate moreDimensions []).reverse

/-- A type. -/
def typeName : Parser TypeName := do
  let setof ← acceptWord .SETOF
  let type ← plainType
  return { type with
    setof := setof
    bounds := ← dimensions }

end Grammar
end SqlSyntax
