import SqlSyntax.Lexeme.Raw

/-!
# Resolved lexemes

Two kinds of raw lexeme need a look at what follows.  Some keywords have another
meaning before certain keywords, and a literal with Unicode escapes may name its
escape character in a `UESCAPE` clause behind it.  Resolving is one pass over
the raw lexemes.  A lexeme that was looked at is read by then, so its notes
belong to the lexeme that looked.

## Main definitions

* `aheadKind` — the meaning of a keyword before another.
* `resolve` — the pass over the raw lexemes.
* `lexemes` — the resolved lexemes of a text.
-/

namespace SqlSyntax

/-- The meaning of a keyword before the next token. -/
def aheadKind (k : Keyword) (next : Option Keyword) : TokenKind :=
  match k, next with
  | .NOT, some .BETWEEN | .NOT, some .IN | .NOT, some .LIKE | .NOT, some .ILIKE
  | .NOT, some .SIMILAR => .notAhead
  | .NULLS, some .FIRST | .NULLS, some .LAST => .nullsAhead
  | .WITH, some .TIME | .WITH, some .ORDINALITY => .withAhead
  | .WITHOUT, some .TIME => .withoutAhead
  | k, _ => .keyword k

/-- A string constant with its Unicode escapes resolved. -/
def decodedString (start : Nat) (escape : Char) (body : String) : TokenKind × List Note :=
  let decoded := Escape.decodeUnicode escape body.toList
  (.string (String.ofList decoded.text), faultNotes start decoded.faults)

/-- A name with its Unicode escapes resolved. -/
def decodedName (d : Dialect) (start : Nat) (escape : Char) (body : String) :
    TokenKind × List Note :=
  let decoded := Escape.decodeUnicode escape body.toList
  let empty := if decoded.text.isEmpty then [⟨.emptyName, start⟩] else []
  let (name, cut) := limitName d start decoded.text
  (.name name, faultNotes start decoded.faults ++ empty ++ cut)

/-- The token of a literal with Unicode escapes. -/
def decodedKind (d : Dialect) (start : Nat) (escape : Char) : TokenKind → TokenKind × List Note
  | .escapedString body => decodedString start escape body
  | .escapedName body => decodedName d start escape body
  | k => (k, [])

/-- Whether a token is a literal with Unicode escapes. -/
def isEscaped : TokenKind → Bool
  | .escapedString _ | .escapedName _ => true
  | _ => false

/-- Resolves the raw lexemes from left to right; `looked` says that the first
one was looked at before. -/
def resolve (d : Dialect) : Bool → List Lexeme → List Lexeme
  | _, [] => []
  | looked, l :: ls =>
    let own := if looked then [] else l.notes
    let start := l.token.span.start
    let decode (escape : Char) (notes : List Note) : Lexeme :=
      let (kind, faults) := decodedKind d start escape l.kind
      ⟨⟨kind, l.token.span⟩, own ++ notes ++ faults⟩
    match l.kind.keyword? with
    | some k =>
      if k.needsLookahead then
        let next := ls.head?
        let kind := aheadKind k (next.bind (·.kind.keyword?))
        ⟨⟨kind, l.token.span⟩, own ++ next.elim [] Lexeme.notes⟩ :: resolve d true ls
      else ⟨l.token, own⟩ :: resolve d false ls
    | none =>
      if isEscaped l.kind then
        match ls with
        | [] => [decode '\\' []]
        | u :: [] => decode '\\' u.notes :: resolve d true [u]
        | u :: operand :: rest =>
          if u.kind.keyword? = some .UESCAPE then
            let at_ := operand.token.span.start
            let notes := u.notes ++ operand.notes
            match operand.kind with
            | .string s =>
              match Escape.escapeChar s.toList with
              | some e => decode e notes :: resolve d false rest
              | none => decode '\\' (notes ++ [⟨.badEscapeChar, at_⟩]) :: resolve d false rest
            | _ =>
              decode '\\' (notes ++ [⟨.escapeCharMissing, at_⟩])
                :: resolve d true (operand :: rest)
          else decode '\\' u.notes :: resolve d true (u :: operand :: rest)
      else ⟨l.token, own⟩ :: resolve d false ls

/-- The resolved lexemes of a text, the end of the text included. -/
def lexemes (d : Dialect) (source : List Char) : List Lexeme :=
  resolve d false (rawLexemes d source)

end SqlSyntax
