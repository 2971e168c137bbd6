import SqlSyntax.Grammar.Expression
import SqlSyntax.Lexeme.Numeral
import SqlSyntax.Lexeme.Operator
import SqlSyntax.Rendering.Node
import SqlSyntax.Tree.Walk

/-!
# Plain expressions

Expressions without subqueries, windows, and the functions, types and steps into
values that are not written the way they were read.  The parser builds only some of
the trees that could be put together from their nodes, and only those are written
so that they can be read back.

## Main definitions

* `Node.IsSimple` — a node that a plain expression may contain.
* `IsOperator`, `IsName`, `Literal.IsRead`, `TokenKind.IsRead` — the leaves and tokens that
  can be read.
* `Node.Plain` — the expressions of simple nodes that the parser builds.
-/

namespace SqlSyntax

/-! ### Simple nodes -/

/-- The functions with a syntax of their own that are written as calls. -/
def unspokenFunctions : List String :=
  ["position", "substring", "ltrim", "rtrim", "btrim"]

/-- The modifiers of an interval as its words give them: none, a precision, a range
of fields, or a range that ends in seconds with their precision. -/
def isSpokenInterval : Option (List Int) → Bool
  | some [] => true
  | some [mask] => (IntervalRange.ofMask? mask).isSome
  | some [mask, p] =>
    0 ≤ p && (mask == IntervalRange.fullMask
      || (IntervalRange.ofMask? mask).any fun r => r.last == .second)
  | _ => false

/-- A type that does not come with the system, or that words of its own give. -/
def TypeName.isSpoken (t : TypeName) : Bool :=
  match systemType? t.names with
  | none => true
  | some "interval" => isSpokenInterval (t.modifiers.mapM integerOf?)
  | some "bpchar" | some "bit" => !t.modifiers.isEmpty
  | some name => (systemSpelling t.modifiers.isEmpty name).isSome

/-- A field of a date or time that is no longer than a name if it is written as one. -/
def IsField (field : String) : Prop :=
  Quoted.isBareName field.toList = true → byteLength field.toList ≤ 63

/-- If a call is an `EXTRACT`, its field can be written. -/
def Call.HasField (c : Call) : Prop :=
  c.isSpecial "extract" = true → ∀ field, c.args.head? = some (.string field) → IsField field

/-- The steps into a value are not read as parts of its name: a column without a star is followed
by a subscript. -/
def Node.StepsApart : Node → List Step → Prop
  | .column fields, steps => .star ∉ fields ∧ ∃ s more, steps = .subscript s :: more
  | _, _ => True

/-- The bound of a slice makes no other token of the colon in front of it.  What binds as tightly
as a sign starts with none of the characters that would. -/
def Node.LeavesColon (n : Node) : Prop :=
  Level.sign ≤ n.level ∨ ∀ c ∈ n.text.toList.head?, c ≠ ':' ∧ c ≠ '='

/-- A constant or a column, as the bounds of a subscript mostly are. -/
def Node.IsIndex (n : Node) : Prop :=
  (∃ v, n = .const v) ∨ ∃ fields, n = .column fields

/-- The bounds of a step, which only a subscript has. -/
def Step.bounds : Step → List Node
  | .subscript s => s.lower.toList ++ s.upper.toList
  | _ => []

theorem Step.forall_mem_bounds {P : Node → Prop} {s : Subscript} :
    (∀ n ∈ (Step.subscript s).bounds, P n) ↔ (∀ n ∈ s.lower, P n) ∧ ∀ n ∈ s.upper, P n := by
  simp only [bounds, List.forall_mem_append, Option.mem_toList, Option.mem_def]

/-- A node that a plain expression may contain.  A type has to be spoken if `named` holds,
which says that the schema of the system is named. -/
def Node.IsSimple (named : Prop) : Node → Prop
  | .subquery _ => False
  | .indirection arg steps => arg.StepsApart steps
  | .subscript s => s.slice = true → ∀ n ∈ s.upper, n.LeavesColon
  | .call c => c.window = none ∧ (∀ f ∈ unspokenFunctions, c.isSpecial f = false) ∧ c.HasField
  | .typeName t => named → t.isSpoken = true
  | _ => True

/-! ### Leaves -/

/-- A name that a text can contain. -/
def IsName (s : String) : Prop :=
  s ≠ "" ∧ byteLength s.toList ≤ 63

/-- An operator that a text can contain. -/
structure IsOperator (op : String) : Prop where
  nonempty : op ≠ ""
  whole : operatorChars op.toList = op.toList
  spelled : (operatorKind op).operator? = some op

/-- The text of a number that is no 32-bit integer. -/
def IsFloat (cs : List Char) : Prop :=
  (cs.head?.any Char.isDigit = true ∨ cs.head? = some '.' ∧ cs.tail.head?.any Char.isDigit = true) ∧
    (numeral cs).length = cs.length ∧
      ((numeral cs).isFloat = true ∨ (Int4.parse cs).toOption = none)

/-- The text of a number has no sign. -/
theorem IsFloat.ne_minus {cs cs' : List Char} (h : IsFloat cs) : cs ≠ '-' :: cs' := by
  rintro rfl
  rcases h.1 with h | ⟨h, -⟩
  · exact absurd h (by simp)
  · exact absurd h (by simp)

/-- A text without sign gets one. -/
theorem Literal.negatedText_unsigned {cs : List Char} (h : ∀ cs', cs ≠ '-' :: cs') :
    negatedText (String.ofList cs) = String.ofList ('-' :: cs) := by
  rw [negatedText, String.toList_ofList]
  split
  · next cs' => exact absurd rfl (h cs')
  · rfl

/-- A text with a sign loses it. -/
theorem Literal.negatedText_negative (cs : List Char) :
    negatedText (String.ofList ('-' :: cs)) = String.ofList cs := by
  rw [negatedText, String.toList_ofList]
  rfl

/-- A number of a text. -/
def IsNatural (n : Int) : Prop :=
  0 ≤ n ∧ Int4.inRange n = true

/-- A literal that can be read.  A number may have got its sign from an operator in
front of it; it is kept as text only if it is too large for an integer. -/
inductive Literal.IsRead : Literal → Prop
  | string (s : String) : IsRead (.string s)
  | integer {n : Int} (h : Int4.inRange n = true) : IsRead (.integer n)
  | float {cs : List Char} (h : IsFloat cs) : IsRead (.float (String.ofList cs))
  | negative {cs : List Char} (h : IsFloat cs) (large : Int4.ofDecimal? ('-' :: cs) = none) :
    IsRead (.float (String.ofList ('-' :: cs)))
  | boolean (b : Bool) : IsRead (.boolean b)
  | binary {cs : List Char} (h : ∀ c ∈ cs, isDigitOf 2 c = true) :
    IsRead (.bits (String.ofList ('b' :: cs)))
  | hex {cs : List Char} (h : ∀ c ∈ cs, isDigitOf 16 c = true) :
    IsRead (.bits (String.ofList ('x' :: cs)))
  | null : IsRead .null

/-- A token that a text can contain. -/
def TokenKind.IsRead : TokenKind → Prop
  | name s => IsName s
  | op s => IsOperator s ∧ operatorKind s = .op s
  | integer n | param n => IsNatural n
  | float s => IsFloat s.toList
  | binary s => ∀ c ∈ s.toList, isDigitOf 2 c = true
  | hex s => ∀ c ∈ s.toList, isDigitOf 16 c = true
  | _ => True

/-- A sort direction that can be read. -/
def SortDirection.IsRead : SortDirection → Prop
  | byOperator op => IsOperator op
  | _ => True

/-- A type that can be read, up to its modifiers. -/
structure TypeName.IsRead (t : TypeName) : Prop where
  nonempty : t.names ≠ []
  names : ∀ s ∈ t.names, IsName s
  bounds : ∀ b ∈ t.bounds, b = -1 ∨ IsNatural b
  spoken : t.isSpoken = true

/-- A subscript that can be read, up to its bounds. -/
structure Subscript.IsRead (s : Subscript) : Prop where
  single : s.slice = false → s.lower = none ∧ s.upper.isSome = true
  colon : s.slice = true → ∀ n ∈ s.upper, n.LeavesColon

/-- A step that can be read, up to the bounds of a subscript. -/
def Step.IsRead : Step → Prop
  | .subscript s => s.IsRead
  | .field name => IsName name
  | .star => True

/-! ### Expressions -/

/-- An argument of a call, which may have a name. -/
def Node.argument (name : Option String) (arg : Node) : Node :=
  name.elim arg fun s => .namedArg s arg

/-- The call of a function with arguments. -/
def Call.full (function : List String) (args : List (Option String × Node)) (order : List SortKey)
    (filter : Option Node) (distinct : Bool) : Call where
  function := function
  args := args.map fun a => Node.argument a.1 a.2
  order := order
  filter := filter
  distinct := distinct

/-- The fields of a column reference that may end in a star. -/
def columnFields (names : List String) (star : Bool) : List ColumnField :=
  names.map .name ++ if star then [.star] else []

/-- The expressions of simple nodes that the parser builds. -/
inductive Node.Plain : Node → Prop
  | const {v : Literal} (h : v.IsRead) : Plain (.const v)
  | column {names : List String} (nonempty : names ≠ []) (h : ∀ s ∈ names, IsName s)
    (star : Bool) : Plain (.column (columnFields names star))
  | param {n : Int} (h : IsNatural n) : Plain (.param n)
  | prefixed {op : String} {arg : Node} (hop : IsOperator op)
    (level : Level.ofSign? (operatorKind op) = some (Level.ofPrefix op)) (harg : Plain arg)
    (sign : op = "-" → Node.negate arg = Node.prefixed "-" arg) : Plain (Node.prefixed op arg)
  | operation {kind : OperationKind} {op : String} {l r : Node}
    (hkind : kind = .op ∨ kind = .opAny ∨ kind = .opAll) (hop : IsOperator op) (hl : Plain l)
    (hr : Plain r) : Plain (.operation kind op (some l) (some r))
  | distinct {l r : Node} (negated : Bool) (hl : Plain l) (hr : Plain r) :
    Plain (.operation (if negated then .notDistinct else .distinct) "=" (some l) (some r))
  | nullIf {l r : Node} (hl : Plain l) (hr : Plain r) :
    Plain (.operation .nullIf "=" (some l) (some r))
  | inList {arg : Node} {items : List Node} (negated : Bool) (harg : Plain arg)
    (nonempty : items ≠ []) (hitems : ∀ n ∈ items, Plain n) :
    Plain (.operation .inList (if negated then "<>" else "=") (some arg) (some (.list items)))
  | range {arg low high : Node} (negated symmetric : Bool) (harg : Plain arg) (hlow : Plain low)
    (hhigh : Plain high) : Plain (Grammar.rangeTest negated symmetric arg low high)
  | matched {m : Grammar.PatternMatch} {arg pattern : Node} {escape : Option Node}
    (hm : m = .like ∨ m = .ilike ∨ m = .similar) (negated : Bool) (harg : Plain arg)
    (hpattern : Plain pattern) (hescape : ∀ e ∈ escape, Plain e) :
    Plain (.operation m.kind (if negated then m.negatedOp else m.op) (some arg)
      (some (m.pattern pattern escape)))
  | junction {op : Junction} {first : Node} {more : List Node} (hop : op ≠ .not)
    (nonempty : more ≠ []) (flat : ∀ args, first ≠ .junction op args) (hfirst : Plain first)
    (hmore : ∀ n ∈ more, Plain n) : Plain (.junction op (first :: more))
  | negation {arg : Node} (harg : Plain arg) : Plain (Node.negation arg)
  | nullTest {arg : Node} (negated : Bool) (harg : Plain arg) : Plain (.nullTest arg negated)
  | truthTest {arg : Node} (truth : Truth) (negated : Bool) (harg : Plain arg) :
    Plain (.truthTest arg truth negated)
  | call {function : List String} (nonempty : function ≠ []) (hfunction : ∀ s ∈ function, IsName s)
    {filter : Option Node} (hfilter : ∀ n ∈ filter, Plain n) :
    Plain (.call { function := function, args := [], filter := filter })
  | starCall {function : List String} (nonempty : function ≠ [])
    (hfunction : ∀ s ∈ function, IsName s) {filter : Option Node}
    (hfilter : ∀ n ∈ filter, Plain n) :
    Plain (.call { function := function, args := [], filter := filter, star := true })
  | fullCall {function : List String} (nonempty : function ≠ [])
    (hfunction : ∀ s ∈ function, IsName s) {filter : Option Node}
    (hfilter : ∀ n ∈ filter, Plain n) {args : List (Option String × Node)} (some : args ≠ [])
    (hnames : ∀ a ∈ args, ∀ s ∈ a.1, IsName s) (hargs : ∀ a ∈ args, Plain a.2)
    {order : List SortKey} (hkeys : ∀ k ∈ order, Plain k.key)
    (hdirections : ∀ k ∈ order, k.direction.IsRead) (distinct : Bool) :
    Plain (.call (Call.full function args order filter distinct))
  | extract {field : String} {source : Node} (hfield : IsField field) (hsource : Plain source) :
    Plain (.call (Call.system "extract" [Node.string field, source]))
  | timeZone {zone source : Node} (hzone : Plain zone) (hsource : Plain source) :
    Plain (.call (Call.system "timezone" [zone, source]))
  | cast {arg : Node} {type : TypeName} (harg : Plain arg) (htype : type.IsRead)
    (hmodifiers : ∀ n ∈ type.modifiers, Plain n) : Plain (.cast arg type)
  | collate {arg : Node} {names : List String} (harg : Plain arg) (nonempty : names ≠ [])
    (hnames : ∀ s ∈ names, IsName s) : Plain (.collate arg names)
  | caseExpr {operand : Option Node} {arms : List CaseArm} {otherwise : Option Node}
    (hoperand : ∀ n ∈ operand, Plain n) (nonempty : arms ≠ [])
    (hconditions : ∀ a ∈ arms, Plain a.condition) (hresults : ∀ a ∈ arms, Plain a.result)
    (hotherwise : ∀ n ∈ otherwise, Plain n) : Plain (.caseExpr operand arms otherwise)
  | array {es : List Node} (hes : ∀ n ∈ es, Plain n) : Plain (.array es)
  | row {fs : List Node} {explicit : Bool} (hfs : ∀ n ∈ fs, Plain n)
    (marked : explicit = false → 2 ≤ fs.length) : Plain (.row fs explicit)
  | indirection {arg : Node} {steps : List Step} (harg : Plain arg) (nonempty : steps ≠ [])
    (apart : arg.StepsApart steps) (hsteps : ∀ s ∈ steps, s.IsRead)
    (hbounds : ∀ s ∈ steps, ∀ n ∈ s.bounds, Plain n) : Plain (.indirection arg steps)
  | coalesce {args : List Node} (nonempty : args ≠ []) (hargs : ∀ n ∈ args, Plain n) :
    Plain (.coalesce args)
  | extremum {args : List Node} (op : Extremum) (nonempty : args ≠ [])
    (hargs : ∀ n ∈ args, Plain n) : Plain (.extremum op args)
  | valueFunction {f : ValueFunction} {precision : Option Int}
    (h : ∀ p ∈ precision, f.takesPrecision = true ∧ IsNatural p) :
    Plain (.valueFunction f precision)

end SqlSyntax
