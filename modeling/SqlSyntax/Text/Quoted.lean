import SqlSyntax.Keyword.Table

/-!
# Quoted names and strings

A name is written bare where that reads back as the same name, and between
double quotes otherwise; a string constant is written between single quotes.  A
quote inside is written twice.  A string with a backslash takes the `E` form,
which writes the backslash twice.

## Main definitions

* `Quoted.double` — the text with every occurrence of a character written twice.
* `Quoted.isBareName`, `quoteName` — names.
* `quoteString` — string constants.
-/

namespace SqlSyntax
namespace Quoted

/-- The text with every occurrence of `q` written twice. -/
def double (q : Char) : List Char → List Char
  | [] => []
  | c :: cs => if c = q then q :: q :: double q cs else c :: double q cs

@[simp] theorem double_nil (q : Char) : double q [] = [] := rfl

@[simp] theorem double_cons (q c : Char) (cs : List Char) :
    double q (c :: cs) = if c = q then q :: q :: double q cs else c :: double q cs := rfl

/-- A lower-case letter or an underscore. -/
def isBareStart (c : Char) : Bool :=
  c.isLower || c == '_'

/-- A lower-case letter, a digit or an underscore. -/
def isBareChar (c : Char) : Bool :=
  c.isLower || c.isDigit || c == '_'

/-- Whether a word is a keyword that cannot stand for every kind of name. -/
def isGuarded (cs : List Char) : Bool :=
  (Keyword.lookupEntry cs).any fun e => e.category != .unreserved

/-- Whether a name can be written without quotes. -/
def isBareName (cs : List Char) : Bool :=
  cs.head?.any isBareStart && cs.all isBareChar && !isGuarded cs

/-- The characters of a name as written. -/
def nameChars (cs : List Char) : List Char :=
  if isBareName cs then cs else '"' :: double '"' cs ++ ['"']

/-- The characters of a string constant as written. -/
def stringChars (cs : List Char) : List Char :=
  if cs.contains '\\' then
    'E' :: '\'' :: double '\\' (double '\'' cs) ++ ['\'']
  else '\'' :: double '\'' cs ++ ['\'']

end Quoted

/-- A name, in double quotes unless it can be written bare. -/
def quoteName (name : String) : String :=
  String.ofList (Quoted.nameChars name.toList)

/-- A string constant. -/
def quoteString (text : String) : String :=
  String.ofList (Quoted.stringChars text.toList)

/-- Names joined by a separator, each quoted as needed. -/
def quoteNames (separator : String) (names : List String) : String :=
  separator.intercalate (names.map quoteName)

/-- A dotted name, each part quoted as needed. -/
def quoteDotted (names : List String) : String :=
  quoteNames "." names

end SqlSyntax
