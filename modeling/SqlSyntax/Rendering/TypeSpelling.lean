import SqlSyntax.Rendering.Piece
import SqlSyntax.Tree.Level

/-!
# How types are written

Types that come with the system have a name inside and a spelling of their own.
An interval may be restricted to a range of fields, which its first modifier
stores as a set of bits.

## Main definitions

* `IntervalField`, `IntervalRange` — the fields of an interval.
* `IntervalRange.words`, `IntervalRange.ofMask?` — how a range is written, and
  the range that a modifier stores.
* `systemSpelling` — the spelling of a system type.
* `typePieces` — a type without its dimensions.
-/

namespace SqlSyntax

/-! ### Intervals -/

/-- A field of an interval. -/
inductive IntervalField
  | year | month | day | hour | minute | second
  deriving DecidableEq, Repr, Inhabited

namespace IntervalField

/-- The bit for a field. -/
def bit : IntervalField → Int
  | month => 2
  | year => 4
  | day => 8
  | hour => 1024
  | minute => 2048
  | second => 4096

/-- The word for a field. -/
def word : IntervalField → Keyword
  | year => .YEAR
  | month => .MONTH
  | day => .DAY
  | hour => .HOUR
  | minute => .MINUTE
  | second => .SECOND

end IntervalField

/-- A range of fields: a first field with those that follow it, down to the
last. -/
structure IntervalRange where
  /-- The first field. -/
  first : IntervalField
  /-- The fields after it. -/
  more : List IntervalField
  deriving DecidableEq, Repr

namespace IntervalRange

/-- The ranges that can be written. -/
def all : List IntervalRange :=
  [⟨.year, []⟩, ⟨.month, []⟩, ⟨.day, []⟩, ⟨.hour, []⟩, ⟨.minute, []⟩, ⟨.second, []⟩,
    ⟨.year, [.month]⟩, ⟨.day, [.hour]⟩, ⟨.day, [.hour, .minute]⟩,
    ⟨.day, [.hour, .minute, .second]⟩, ⟨.hour, [.minute]⟩, ⟨.hour, [.minute, .second]⟩,
    ⟨.minute, [.second]⟩]

/-- The modifier that stores a range: the bits of all its fields. -/
def mask (r : IntervalRange) : Int :=
  ((r.first :: r.more).map IntervalField.bit).foldr (· + ·) 0

/-- The modifier for all fields. -/
def fullMask : Int := 32767

/-- The range that a modifier stores. -/
def ofMask? (mask : Int) : Option IntervalRange :=
  all.find? fun r => r.mask == mask

/-- The last field of a range. -/
def last (r : IntervalRange) : IntervalField :=
  r.more.getLast?.getD r.first

/-- The words of a range: its first field and, if there are more, its last. -/
def words (r : IntervalRange) : List Keyword :=
  if r.more.isEmpty then [r.first.word] else [r.first.word, .TO, r.last.word]

/-- A range as it is written. -/
def pieces (r : IntervalRange) : List Piece :=
  spaced (r.words.map fun k => [.typeWord k])

/-- The text of a range. -/
def text (r : IntervalRange) : String :=
  Piece.join r.pieces

end IntervalRange

/-! ### System types -/

namespace TypeName

/-- A type with a name. -/
def named (names : List String) : TypeName :=
  { names := names }

/-- A type that comes with the system. -/
def system (name : String) : TypeName :=
  named (systemName name)

end TypeName

/-- The name of a type that comes with the system. -/
def systemType? : List String → Option String
  | [schema, name] => if schema == systemSchema then some name else none
  | _ => none

/-- The words of a system type before and behind its modifiers.  Some types are
written like that only if they have none. -/
def systemSpelling (plain : Bool) (name : String) : Option (List Keyword × List Keyword) :=
  match name, plain with
  | "int2", true => some ([.SMALLINT], [])
  | "int4", true => some ([.INTEGER], [])
  | "int8", true => some ([.BIGINT], [])
  | "float4", true => some ([.REAL], [])
  | "float8", true => some ([.DOUBLE, .PRECISION], [])
  | "bool", true => some ([.BOOLEAN], [])
  | "numeric", _ => some ([.NUMERIC], [])
  | "bpchar", _ => some ([.CHARACTER], [])
  | "varchar", _ => some ([.CHARACTER, .VARYING], [])
  | "bit", _ => some ([.BIT], [])
  | "varbit", _ => some ([.BIT, .VARYING], [])
  | "timestamp", _ => some ([.TIMESTAMP], [])
  | "timestamptz", _ => some ([.TIMESTAMP], [.WITH, .TIME, .ZONE])
  | "time", _ => some ([.TIME], [])
  | "timetz", _ => some ([.TIME], [.WITH, .TIME, .ZONE])
  | _, _ => none

/-- Keywords in lower case with gaps between them. -/
def typeWords (ks : List Keyword) : List Piece :=
  spaced (ks.map fun k => [.typeWord k])

/-- The modifiers of a type in parentheses, if there are any. -/
def modifierPieces (modifiers : List (List Piece)) : List Piece :=
  if modifiers.isEmpty then [] else parens (commas modifiers)

/-- The value of an integer constant. -/
def integerOf? : Node → Option Int
  | .const (.integer n) => some n
  | _ => none

/-- The modifiers of an interval: a precision, a range of fields, or a range
that ends in seconds with their precision.  `values` are the modifiers as
integers, if all are. -/
def intervalPieces (values : Option (List Int)) (modifiers : List (List Piece)) : List Piece :=
  let plain := modifierPieces modifiers
  match values with
  | some (mask :: rest) =>
    match mask == IntervalRange.fullMask, IntervalRange.ofMask? mask, rest with
    | true, _, [p] => parens [.mark (.integer p)]
    | _, some r, [] => .gap :: r.pieces
    | _, some r, [p] =>
      if r.last = .second then .gap :: r.pieces ++ parens [.mark (.integer p)] else plain
    | _, _, _ => plain
  | _ => plain

/-- A type without its dimensions, from its name, the integers that its
modifiers are, and the modifiers as they are written. -/
def typePieces (names : List String) (values : Option (List Int))
    (modifiers : List (List Piece)) : List Piece :=
  match systemType? names with
  | some "interval" => .typeWord .INTERVAL :: intervalPieces values modifiers
  | some name =>
    match systemSpelling modifiers.isEmpty name with
    | some (before, behind) =>
      typeWords before ++ modifierPieces modifiers
        ++ (if behind.isEmpty then [] else .gap :: typeWords behind)
    | none => dotted names ++ modifierPieces modifiers
  | none => dotted names ++ modifierPieces modifiers

/-- The dimensions of an array type. -/
def boundPieces (bounds : List Int) : List Piece :=
  bounds.flatMap fun b => brackets (if b < 0 then [] else [.mark (.integer b)])

end SqlSyntax
