/-!
# Keywords

The words that have a meaning of their own in SQL, named by their spelling in
upper case.  A keyword's category says where it may still be used as a name.

## Main definitions

* `Keyword`, `Keyword.all` — the keywords, in alphabetical order.
* `Keyword.spelling` — a keyword in lower case.
* `Keyword.category` — how far a keyword is reserved.
* `Keyword.isColumnName`, `Keyword.isTypeName` — where a keyword is a name.
-/

namespace SqlSyntax

/-- How far a keyword is reserved. -/
inductive KeywordCategory
  /-- Usable as any kind of name. -/
  | unreserved
  /-- Usable as a column or table name, not as a function or type name. -/
  | columnName
  /-- Usable as a function or type name, not as a column name. -/
  | typeOrFunctionName
  /-- Usable only as a column label. -/
  | reserved
  deriving DecidableEq, Repr, Inhabited

/-- The keywords of SQL. -/
inductive Keyword
  | ABORT | ABSOLUTE | ACTION | ADD | ALL | ALTER | ALWAYS | ANALYSE | ANALYZE | AND | ANY
  | ARRAY | AS | ASC | ASYMMETRIC | AT | AUTHORIZATION | BEGIN | BETWEEN | BIGINT | BINARY
  | BIT | BOOLEAN | BOTH | BY | CASCADE | CASE | CAST | CHAIN | CHAR | CHARACTER | CHECK
  | COALESCE | COLLATE | COLLATION | COLUMN | COMMIT | COMMITTED | CONCURRENTLY | CONFLICT
  | CONSTRAINT | CONTINUE | CREATE | CROSS | CURRENT | CURRENT_CATALOG | CURRENT_DATE
  | CURRENT_ROLE | CURRENT_SCHEMA | CURRENT_TIME | CURRENT_TIMESTAMP | CURRENT_USER | CYCLE
  | DATA | DAY | DEC | DECIMAL | DEFAULT | DEFERRABLE | DEFERRED | DELETE | DESC | DISTINCT
  | DO | DOUBLE | DROP | ELSE | END | ESCAPE | EXCEPT | EXCLUDE | EXISTS | EXTRACT | FALSE
  | FETCH | FILTER | FIRST | FLOAT | FOLLOWING | FOR | FOREIGN | FROM | FULL | GRANT
  | GREATEST | GROUP | GROUPS | HAVING | HOUR | IDENTITY | IF | ILIKE | IMMEDIATE | IN | INDEX
  | INITIALLY | INNER | INSERT | INT | INTEGER | INTERSECT | INTERVAL | INTO | IS | ISNULL
  | ISOLATION | JOIN | KEY | LAST | LATERAL | LEADING | LEAST | LEFT | LEVEL | LIKE | LIMIT
  | LOCAL | LOCALTIME | LOCALTIMESTAMP | LOCKED | MATERIALIZED | MINUTE | MONTH | NATIONAL
  | NATURAL | NCHAR | NEXT | NO | NONE | NOT | NOTHING | NOTNULL | NOWAIT | NULL | NULLIF
  | NULLS | NUMERIC | OF | OFFSET | ON | ONLY | OPTION | OR | ORDER | ORDINALITY | OTHERS
  | OUTER | OVER | OVERLAPS | OVERLAY | PARTITION | PLACING | POSITION | PRECEDING | PRECISION
  | PRIMARY | RANGE | READ | REAL | RECURSIVE | REFERENCES | RELEASE | RENAME | REPEATABLE
  | REPLACE | RESET | RESTART | RESTRICT | RETURNING | RIGHT | ROLLBACK | ROW | ROWS
  | SAVEPOINT | SCHEMA | SECOND | SELECT | SEQUENCE | SERIALIZABLE | SESSION | SESSION_USER
  | SET | SETOF | SHARE | SHOW | SIMILAR | SKIP | SMALLINT | SOME | START | SUBSTRING
  | SYMMETRIC | SYSTEM_USER | TABLE | TABLESAMPLE | TEMP | TEMPORARY | THEN | TIES | TIME
  | TIMESTAMP | TO | TRAILING | TRANSACTION | TREAT | TRIM | TRUE | TRUNCATE | UESCAPE
  | UNBOUNDED | UNCOMMITTED | UNION | UNIQUE | UNKNOWN | UNLOGGED | UPDATE | USER | USING
  | VALUES | VARCHAR | VARIADIC | VARYING | VERBOSE | VIEW | WHEN | WHERE | WINDOW | WITH
  | WITHOUT | WORK | WRITE | YEAR | ZONE
  deriving DecidableEq, Repr, Inhabited

namespace Keyword

/-- All keywords, in alphabetical order. -/
def all : List Keyword := [
  .ABORT, .ABSOLUTE, .ACTION, .ADD, .ALL, .ALTER, .ALWAYS, .ANALYSE, .ANALYZE, .AND, .ANY,
  .ARRAY, .AS, .ASC, .ASYMMETRIC, .AT, .AUTHORIZATION, .BEGIN, .BETWEEN, .BIGINT, .BINARY,
  .BIT, .BOOLEAN, .BOTH, .BY, .CASCADE, .CASE, .CAST, .CHAIN, .CHAR, .CHARACTER, .CHECK,
  .COALESCE, .COLLATE, .COLLATION, .COLUMN, .COMMIT, .COMMITTED, .CONCURRENTLY, .CONFLICT,
  .CONSTRAINT, .CONTINUE, .CREATE, .CROSS, .CURRENT, .CURRENT_CATALOG, .CURRENT_DATE,
  .CURRENT_ROLE, .CURRENT_SCHEMA, .CURRENT_TIME, .CURRENT_TIMESTAMP, .CURRENT_USER, .CYCLE,
  .DATA, .DAY, .DEC, .DECIMAL, .DEFAULT, .DEFERRABLE, .DEFERRED, .DELETE, .DESC, .DISTINCT,
  .DO, .DOUBLE, .DROP, .ELSE, .END, .ESCAPE, .EXCEPT, .EXCLUDE, .EXISTS, .EXTRACT, .FALSE,
  .FETCH, .FILTER, .FIRST, .FLOAT, .FOLLOWING, .FOR, .FOREIGN, .FROM, .FULL, .GRANT,
  .GREATEST, .GROUP, .GROUPS, .HAVING, .HOUR, .IDENTITY, .IF, .ILIKE, .IMMEDIATE, .IN, .INDEX,
  .INITIALLY, .INNER, .INSERT, .INT, .INTEGER, .INTERSECT, .INTERVAL, .INTO, .IS, .ISNULL,
  .ISOLATION, .JOIN, .KEY, .LAST, .LATERAL, .LEADING, .LEAST, .LEFT, .LEVEL, .LIKE, .LIMIT,
  .LOCAL, .LOCALTIME, .LOCALTIMESTAMP, .LOCKED, .MATERIALIZED, .MINUTE, .MONTH, .NATIONAL,
  .NATURAL, .NCHAR, .NEXT, .NO, .NONE, .NOT, .NOTHING, .NOTNULL, .NOWAIT, .NULL, .NULLIF,
  .NULLS, .NUMERIC, .OF, .OFFSET, .ON, .ONLY, .OPTION, .OR, .ORDER, .ORDINALITY, .OTHERS,
  .OUTER, .OVER, .OVERLAPS, .OVERLAY, .PARTITION, .PLACING, .POSITION, .PRECEDING, .PRECISION,
  .PRIMARY, .RANGE, .READ, .REAL, .RECURSIVE, .REFERENCES, .RELEASE, .RENAME, .REPEATABLE,
  .REPLACE, .RESET, .RESTART, .RESTRICT, .RETURNING, .RIGHT, .ROLLBACK, .ROW, .ROWS,
  .SAVEPOINT, .SCHEMA, .SECOND, .SELECT, .SEQUENCE, .SERIALIZABLE, .SESSION, .SESSION_USER,
  .SET, .SETOF, .SHARE, .SHOW, .SIMILAR, .SKIP, .SMALLINT, .SOME, .START, .SUBSTRING,
  .SYMMETRIC, .SYSTEM_USER, .TABLE, .TABLESAMPLE, .TEMP, .TEMPORARY, .THEN, .TIES, .TIME,
  .TIMESTAMP, .TO, .TRAILING, .TRANSACTION, .TREAT, .TRIM, .TRUE, .TRUNCATE, .UESCAPE,
  .UNBOUNDED, .UNCOMMITTED, .UNION, .UNIQUE, .UNKNOWN, .UNLOGGED, .UPDATE, .USER, .USING,
  .VALUES, .VARCHAR, .VARIADIC, .VARYING, .VERBOSE, .VIEW, .WHEN, .WHERE, .WINDOW, .WITH,
  .WITHOUT, .WORK, .WRITE, .YEAR, .ZONE]

/-- A keyword in lower case. -/
def spelling : Keyword → String
  | .ABORT => "abort"
  | .ABSOLUTE => "absolute"
  | .ACTION => "action"
  | .ADD => "add"
  | .ALL => "all"
  | .ALTER => "alter"
  | .ALWAYS => "always"
  | .ANALYSE => "analyse"
  | .ANALYZE => "analyze"
  | .AND => "and"
  | .ANY => "any"
  | .ARRAY => "array"
  | .AS => "as"
  | .ASC => "asc"
  | .ASYMMETRIC => "asymmetric"
  | .AT => "at"
  | .AUTHORIZATION => "authorization"
  | .BEGIN => "begin"
  | .BETWEEN => "between"
  | .BIGINT => "bigint"
  | .BINARY => "binary"
  | .BIT => "bit"
  | .BOOLEAN => "boolean"
  | .BOTH => "both"
  | .BY => "by"
  | .CASCADE => "cascade"
  | .CASE => "case"
  | .CAST => "cast"
  | .CHAIN => "chain"
  | .CHAR => "char"
  | .CHARACTER => "character"
  | .CHECK => "check"
  | .COALESCE => "coalesce"
  | .COLLATE => "collate"
  | .COLLATION => "collation"
  | .COLUMN => "column"
  | .COMMIT => "commit"
  | .COMMITTED => "committed"
  | .CONCURRENTLY => "concurrently"
  | .CONFLICT => "conflict"
  | .CONSTRAINT => "constraint"
  | .CONTINUE => "continue"
  | .CREATE => "create"
  | .CROSS => "cross"
  | .CURRENT => "current"
  | .CURRENT_CATALOG => "current_catalog"
  | .CURRENT_DATE => "current_date"
  | .CURRENT_ROLE => "current_role"
  | .CURRENT_SCHEMA => "current_schema"
  | .CURRENT_TIME => "current_time"
  | .CURRENT_TIMESTAMP => "current_timestamp"
  | .CURRENT_USER => "current_user"
  | .CYCLE => "cycle"
  | .DATA => "data"
  | .DAY => "day"
  | .DEC => "dec"
  | .DECIMAL => "decimal"
  | .DEFAULT => "default"
  | .DEFERRABLE => "deferrable"
  | .DEFERRED => "deferred"
  | .DELETE => "delete"
  | .DESC => "desc"
  | .DISTINCT => "distinct"
  | .DO => "do"
  | .DOUBLE => "double"
  | .DROP => "drop"
  | .ELSE => "else"
  | .END => "end"
  | .ESCAPE => "escape"
  | .EXCEPT => "except"
  | .EXCLUDE => "exclude"
  | .EXISTS => "exists"
  | .EXTRACT => "extract"
  | .FALSE => "false"
  | .FETCH => "fetch"
  | .FILTER => "filter"
  | .FIRST => "first"
  | .FLOAT => "float"
  | .FOLLOWING => "following"
  | .FOR => "for"
  | .FOREIGN => "foreign"
  | .FROM => "from"
  | .FULL => "full"
  | .GRANT => "grant"
  | .GREATEST => "greatest"
  | .GROUP => "group"
  | .GROUPS => "groups"
  | .HAVING => "having"
  | .HOUR => "hour"
  | .IDENTITY => "identity"
  | .IF => "if"
  | .ILIKE => "ilike"
  | .IMMEDIATE => "immediate"
  | .IN => "in"
  | .INDEX => "index"
  | .INITIALLY => "initially"
  | .INNER => "inner"
  | .INSERT => "insert"
  | .INT => "int"
  | .INTEGER => "integer"
  | .INTERSECT => "intersect"
  | .INTERVAL => "interval"
  | .INTO => "into"
  | .IS => "is"
  | .ISNULL => "isnull"
  | .ISOLATION => "isolation"
  | .JOIN => "join"
  | .KEY => "key"
  | .LAST => "last"
  | .LATERAL => "lateral"
  | .LEADING => "leading"
  | .LEAST => "least"
  | .LEFT => "left"
  | .LEVEL => "level"
  | .LIKE => "like"
  | .LIMIT => "limit"
  | .LOCAL => "local"
  | .LOCALTIME => "localtime"
  | .LOCALTIMESTAMP => "localtimestamp"
  | .LOCKED => "locked"
  | .MATERIALIZED => "materialized"
  | .MINUTE => "minute"
  | .MONTH => "month"
  | .NATIONAL => "national"
  | .NATURAL => "natural"
  | .NCHAR => "nchar"
  | .NEXT => "next"
  | .NO => "no"
  | .NONE => "none"
  | .NOT => "not"
  | .NOTHING => "nothing"
  | .NOTNULL => "notnull"
  | .NOWAIT => "nowait"
  | .NULL => "null"
  | .NULLIF => "nullif"
  | .NULLS => "nulls"
  | .NUMERIC => "numeric"
  | .OF => "of"
  | .OFFSET => "offset"
  | .ON => "on"
  | .ONLY => "only"
  | .OPTION => "option"
  | .OR => "or"
  | .ORDER => "order"
  | .ORDINALITY => "ordinality"
  | .OTHERS => "others"
  | .OUTER => "outer"
  | .OVER => "over"
  | .OVERLAPS => "overlaps"
  | .OVERLAY => "overlay"
  | .PARTITION => "partition"
  | .PLACING => "placing"
  | .POSITION => "position"
  | .PRECEDING => "preceding"
  | .PRECISION => "precision"
  | .PRIMARY => "primary"
  | .RANGE => "range"
  | .READ => "read"
  | .REAL => "real"
  | .RECURSIVE => "recursive"
  | .REFERENCES => "references"
  | .RELEASE => "release"
  | .RENAME => "rename"
  | .REPEATABLE => "repeatable"
  | .REPLACE => "replace"
  | .RESET => "reset"
  | .RESTART => "restart"
  | .RESTRICT => "restrict"
  | .RETURNING => "returning"
  | .RIGHT => "right"
  | .ROLLBACK => "rollback"
  | .ROW => "row"
  | .ROWS => "rows"
  | .SAVEPOINT => "savepoint"
  | .SCHEMA => "schema"
  | .SECOND => "second"
  | .SELECT => "select"
  | .SEQUENCE => "sequence"
  | .SERIALIZABLE => "serializable"
  | .SESSION => "session"
  | .SESSION_USER => "session_user"
  | .SET => "set"
  | .SETOF => "setof"
  | .SHARE => "share"
  | .SHOW => "show"
  | .SIMILAR => "similar"
  | .SKIP => "skip"
  | .SMALLINT => "smallint"
  | .SOME => "some"
  | .START => "start"
  | .SUBSTRING => "substring"
  | .SYMMETRIC => "symmetric"
  | .SYSTEM_USER => "system_user"
  | .TABLE => "table"
  | .TABLESAMPLE => "tablesample"
  | .TEMP => "temp"
  | .TEMPORARY => "temporary"
  | .THEN => "then"
  | .TIES => "ties"
  | .TIME => "time"
  | .TIMESTAMP => "timestamp"
  | .TO => "to"
  | .TRAILING => "trailing"
  | .TRANSACTION => "transaction"
  | .TREAT => "treat"
  | .TRIM => "trim"
  | .TRUE => "true"
  | .TRUNCATE => "truncate"
  | .UESCAPE => "uescape"
  | .UNBOUNDED => "unbounded"
  | .UNCOMMITTED => "uncommitted"
  | .UNION => "union"
  | .UNIQUE => "unique"
  | .UNKNOWN => "unknown"
  | .UNLOGGED => "unlogged"
  | .UPDATE => "update"
  | .USER => "user"
  | .USING => "using"
  | .VALUES => "values"
  | .VARCHAR => "varchar"
  | .VARIADIC => "variadic"
  | .VARYING => "varying"
  | .VERBOSE => "verbose"
  | .VIEW => "view"
  | .WHEN => "when"
  | .WHERE => "where"
  | .WINDOW => "window"
  | .WITH => "with"
  | .WITHOUT => "without"
  | .WORK => "work"
  | .WRITE => "write"
  | .YEAR => "year"
  | .ZONE => "zone"

/-- How far a keyword is reserved. -/
def category : Keyword → KeywordCategory
  | .BETWEEN | .BIGINT | .BIT | .BOOLEAN | .CHAR | .CHARACTER | .COALESCE | .DEC | .DECIMAL
  | .EXISTS | .EXTRACT | .FLOAT | .GREATEST | .INT | .INTEGER | .INTERVAL | .LEAST | .NATIONAL
  | .NCHAR | .NONE | .NULLIF | .NUMERIC | .OVERLAY | .POSITION | .PRECISION | .REAL | .ROW
  | .SETOF | .SMALLINT | .SUBSTRING | .TIME | .TIMESTAMP | .TREAT | .TRIM | .VALUES | .VARCHAR =>
    .columnName
  | .AUTHORIZATION | .BINARY | .COLLATION | .CONCURRENTLY | .CROSS | .CURRENT_SCHEMA | .FULL
  | .ILIKE | .INNER | .IS | .ISNULL | .JOIN | .LEFT | .LIKE | .NATURAL | .NOTNULL | .OUTER
  | .OVERLAPS | .RIGHT | .SIMILAR | .TABLESAMPLE | .VERBOSE =>
    .typeOrFunctionName
  | .ALL | .ANALYSE | .ANALYZE | .AND | .ANY | .ARRAY | .AS | .ASC | .ASYMMETRIC | .BOTH
  | .CASE | .CAST | .CHECK | .COLLATE | .COLUMN | .CONSTRAINT | .CREATE | .CURRENT_CATALOG
  | .CURRENT_DATE | .CURRENT_ROLE | .CURRENT_TIME | .CURRENT_TIMESTAMP | .CURRENT_USER
  | .DEFAULT | .DEFERRABLE | .DESC | .DISTINCT | .DO | .ELSE | .END | .EXCEPT | .FALSE
  | .FETCH | .FOR | .FOREIGN | .FROM | .GRANT | .GROUP | .HAVING | .IN | .INITIALLY
  | .INTERSECT | .INTO | .LATERAL | .LEADING | .LIMIT | .LOCALTIME | .LOCALTIMESTAMP | .NOT
  | .NULL | .OFFSET | .ON | .ONLY | .OR | .ORDER | .PLACING | .PRIMARY | .REFERENCES
  | .RETURNING | .SELECT | .SESSION_USER | .SOME | .SYMMETRIC | .SYSTEM_USER | .TABLE | .THEN
  | .TO | .TRAILING | .TRUE | .UNION | .UNIQUE | .USER | .USING | .VARIADIC | .WHEN | .WHERE
  | .WINDOW | .WITH =>
    .reserved
  | _ => .unreserved

/-- Whether the meaning of a keyword depends on the token after it. -/
def needsLookahead : Keyword → Bool
  | .NOT | .NULLS | .WITH | .WITHOUT => true
  | _ => false

/-- A keyword in upper case, as messages name it. -/
def text (k : Keyword) : String :=
  String.ofList (k.spelling.toList.map Char.toUpper)

/-- Whether a keyword can be a column or table name. -/
def isColumnName (k : Keyword) : Bool :=
  k.category = .unreserved || k.category = .columnName

/-- Whether a keyword can be a function or type name. -/
def isTypeName (k : Keyword) : Bool :=
  k.category = .unreserved || k.category = .typeOrFunctionName

/-- Whether a keyword is no name at all. -/
def isReserved (k : Keyword) : Bool :=
  k.category = .reserved

end Keyword
end SqlSyntax
