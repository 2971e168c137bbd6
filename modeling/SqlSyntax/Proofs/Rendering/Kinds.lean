import SqlSyntax.Lexeme.Operator
import SqlSyntax.Proofs.Text.Keywords
import SqlSyntax.Rendering.Node

/-!
# The tokens of written pieces

Every piece stands for the tokens that it is read back as.  A gap stands for
none, and a negative number for two.  A bare name may be read back as a keyword
that is not reserved.

## Main definitions

* `nameKind`, `literalKinds` — the tokens of names and literals.
* `Piece.kinds`, `kindsOf` — the tokens of pieces.
* `Node.kinds` — the tokens of a node.

## Main results

* `nameKind_cases` — how a name is read back.
* `kindsOf_words`, `kindsOf_commas`, … — the tokens of the usual sequences of pieces.
-/

namespace SqlSyntax

/-! ### Pieces -/

/-- The token of a name as it is written. -/
def nameKind (s : String) : TokenKind :=
  if Quoted.isBareName s.toList then (Keyword.lookup s.toList).elim (.name s) .keyword else .name s

/-- The token of an integer without sign as it is written. -/
def integerKind (n : Int) : TokenKind :=
  if Int4.inRange n then .integer n else .float (toString n)

/-- The token of the text of a bit string. -/
def bitsKind (s : String) : TokenKind :=
  match s.toList with
  | 'x' :: cs => .hex (String.ofList cs)
  | 'b' :: cs => .binary (String.ofList cs)
  | cs => .binary (String.ofList cs)

/-- The tokens of a literal as it is written. -/
def literalKinds : Literal → List TokenKind
  | .string s => [.string s]
  | .integer n => if n < 0 then [.minus, integerKind (-n)] else [integerKind n]
  | .float s =>
    match s.toList with
    | '-' :: cs => [.minus, .float (String.ofList cs)]
    | _ => [.float s]
  | .boolean true => [.keyword .TRUE]
  | .boolean false => [.keyword .FALSE]
  | .bits s => [bitsKind s]
  | .null => [.keyword .NULL]

/-- The tokens of a piece. -/
def Piece.kinds : Piece → List TokenKind
  | gap => []
  | word k | typeWord k => [.keyword k]
  | name s => [nameKind s]
  | literal v => literalKinds v
  | operator s => [operatorKind s]
  | mark k => [k]

/-- The tokens of a sequence of pieces. -/
def kindsOf (ps : List Piece) : List TokenKind :=
  ps.flatMap Piece.kinds

/-- The tokens of a node. -/
def Node.kinds (n : Node) : List TokenKind :=
  kindsOf n.pieces

@[simp] theorem kindsOf_nil : kindsOf [] = [] := rfl

@[simp] theorem kindsOf_cons (p : Piece) (ps : List Piece) :
    kindsOf (p :: ps) = p.kinds ++ kindsOf ps := rfl

@[simp] theorem kindsOf_append (ps qs : List Piece) :
    kindsOf (ps ++ qs) = kindsOf ps ++ kindsOf qs :=
  List.flatMap_append

@[simp] theorem kinds_gap : Piece.gap.kinds = [] := rfl

@[simp] theorem kinds_word (k : Keyword) : (Piece.word k).kinds = [.keyword k] := rfl

@[simp] theorem kinds_typeWord (k : Keyword) : (Piece.typeWord k).kinds = [.keyword k] := rfl

@[simp] theorem kinds_name (s : String) : (Piece.name s).kinds = [nameKind s] := rfl

@[simp] theorem kinds_literal (v : Literal) : (Piece.literal v).kinds = literalKinds v := rfl

@[simp] theorem kinds_operator (s : String) : (Piece.operator s).kinds = [operatorKind s] := rfl

@[simp] theorem kinds_mark (k : TokenKind) : (Piece.mark k).kinds = [k] := rfl

/-! ### Sequences of pieces -/

/-- Items with a separator between them are the first, and each further one behind
a separator. -/
theorem separated_cons (separator item : List Piece) (items : List (List Piece)) :
    separated separator (item :: items) = item ++ items.flatMap (separator ++ ·) := by
  induction items generalizing item with
  | nil => simp [separated]
  | cons next items ih =>
    rw [separated, List.intercalate_cons_cons, ← separated, ih, List.flatMap_cons,
      List.append_assoc, List.append_assoc]

@[simp] theorem separated_nil (separator : List Piece) : separated separator [] = [] := rfl

/-- The tokens of items with commas between them. -/
def commaKinds : List (List TokenKind) → List TokenKind
  | [] => []
  | item :: items => item ++ items.flatMap (.comma :: ·)

@[simp] theorem kindsOf_commas (items : List (List Piece)) :
    kindsOf (commas items) = commaKinds (items.map kindsOf) := by
  cases items with
  | nil => rfl
  | cons item items =>
    rw [commas, separated_cons, kindsOf_append, List.map_cons, commaKinds]
    congr 1
    induction items with
    | nil => rfl
    | cons next items ih => simpa using ih

@[simp] theorem kindsOf_words (ks : List Keyword) : kindsOf (words ks) = ks.map .keyword := by
  cases ks with
  | nil => rfl
  | cons k ks =>
    rw [words, spaced, List.map_cons, separated_cons, kindsOf_append]
    induction ks with
    | nil => rfl
    | cons next ks ih => simpa using ih

@[simp] theorem kindsOf_typeWords (ks : List Keyword) :
    kindsOf (typeWords ks) = ks.map .keyword := by
  cases ks with
  | nil => rfl
  | cons k ks =>
    rw [typeWords, spaced, List.map_cons, separated_cons, kindsOf_append]
    induction ks with
    | nil => rfl
    | cons next ks ih => simpa using ih

/-- The tokens of a dotted name. -/
def dottedKinds : List String → List TokenKind
  | [] => []
  | s :: names => nameKind s :: names.flatMap fun s => [.dot, nameKind s]

/-- The names of a dotted name behind the first, and what stands behind them. -/
def dotPieces (names : List String) (behind : List Piece) : List Piece :=
  names.flatMap (fun s => [.mark .dot, .name s]) ++ behind

theorem dotted_cons (s : String) (names : List String) :
    dotted (s :: names) = .name s :: dotPieces names [] := by
  rw [dotted, List.map_cons, separated_cons, List.flatMap_map, dotPieces, List.append_nil]
  rfl

@[simp] theorem kindsOf_dotted (names : List String) :
    kindsOf (dotted names) = dottedKinds names := by
  cases names with
  | nil => rfl
  | cons s names =>
    rw [dotted, List.map_cons, separated_cons, kindsOf_append, dottedKinds]
    induction names with
    | nil => rfl
    | cons next names ih => simpa using ih

@[simp] theorem kindsOf_parens (ps : List Piece) :
    kindsOf (parens ps) = .leftParen :: kindsOf ps ++ [.rightParen] := by
  simp [parens]

@[simp] theorem kindsOf_brackets (ps : List Piece) :
    kindsOf (brackets ps) = .leftBracket :: kindsOf ps ++ [.rightBracket] := by
  simp [brackets]

@[simp] theorem kindsOf_suffixWords (ks : List Keyword) :
    kindsOf (suffixWords ks) = ks.map .keyword := by
  cases ks <;> simp [suffixWords]

@[simp] theorem kindsOf_wordsIf (b : Bool) (ks : List Keyword) :
    kindsOf (wordsIf b ks) = if b then ks.map .keyword else [] := by
  cases b <;> simp [wordsIf]

@[simp] theorem kindsOf_suffixIf (b : Bool) (ks : List Keyword) :
    kindsOf (suffixIf b ks) = if b then ks.map .keyword else [] := by
  cases b <;> simp [suffixIf]

@[simp] theorem kindsOf_clause (ks : List Keyword) (ps : List Piece) :
    kindsOf (clause ks ps) = ks.map .keyword ++ kindsOf ps := by
  simp [clause]

@[simp] theorem kindsOf_optionalClause (ks : List Keyword) (content : Option (List Piece)) :
    kindsOf (optionalClause ks content)
      = content.elim [] fun ps => ks.map .keyword ++ kindsOf ps := by
  cases content <;> simp [optionalClause]

@[simp] theorem kindsOf_listClause (ks : List Keyword) (items : List (List Piece)) :
    kindsOf (listClause ks items)
      = if items.isEmpty then [] else ks.map .keyword ++ commaKinds (items.map kindsOf) := by
  unfold listClause
  split <;> simp

/-! ### Names -/

/-- A name is read back as itself, or as the keyword of that spelling, which is not
reserved. -/
theorem nameKind_cases (s : String) :
    nameKind s = .name s
      ∨ ∃ w : Keyword, nameKind s = .keyword w ∧ w.category = .unreserved ∧ w.spelling = s := by
  rw [nameKind]
  split
  · next hbare =>
    rw [Keyword.lookup]
    cases hentry : Keyword.lookupEntry s.toList with
    | none => exact .inl rfl
    | some e =>
      obtain ⟨hmem, hspelling⟩ := Keyword.lookupEntry_eq_some_iff.mp hentry
      rw [lowerCase_of_isBareChar (isBareChar_of_isBareName hbare)] at hspelling
      obtain ⟨w, rfl⟩ := Keyword.exists_entry_of_mem hmem
      -- a bare name is not guarded, so the keyword it spells is not reserved
      have hguarded : Quoted.isGuarded s.toList = false := by
        simp only [Quoted.isBareName, Bool.and_eq_true, Bool.not_eq_true'] at hbare
        exact hbare.2
      rw [Quoted.isGuarded, hentry] at hguarded
      exact .inr ⟨w, rfl, bne_eq_false_iff_eq.mp hguarded, String.toList_inj.mp hspelling⟩
  · exact .inl rfl

end SqlSyntax
