import SqlSyntax.Proofs.Expression.Operations
import SqlSyntax.Proofs.Expression.Types

/-!
# Reading operands back

The expressions that start with a token of their own: constants, columns, and the
constructs in words, parentheses or brackets.  They end with a token of their own
too, or with one behind which nothing may continue them.
-/

namespace SqlSyntax

open Grammar

variable {depth : Nat} {rest ts ts' : List TokenKind} {level : Level} {n : Node}
variable {R : (r : Rule) → List TokenKind → r.Result → List TokenKind → Prop}

theorem append_ofList (c : Char) (cs : List Char) :
    String.singleton c ++ String.ofList cs = String.ofList (c :: cs) := by
  rw [String.ext_iff]
  simp

namespace Grammar

open SqlSyntax.Parser (bind_eq Steps)

/-- An operand that starts with a token of its own. -/
theorem startsWith_token {k : TokenKind} (hopens : k.opensOperand = true)
    (hparen : k ≠ .leftParen) (hsecond : (firstOf ts).marksArgument = false)
    (h : leftOperand.Reads depth (k :: ts) n ts') : StartsWith depth (k :: ts) n ts' where
  opens := hopens
  unnamed := hsecond
  reads := h
  enclosed := fun heq => absurd heq hparen

/-- The keyword starts an operand of its own, and is no name. -/
structure OperandWord (w : Keyword) : Prop where
  settled : (TokenKind.keyword w).isSettled = true
  opens : (TokenKind.keyword w).opensOperand = true
  sign : Level.ofSign? (.keyword w) = none
  function : ValueFunction.ofWord? w = none
  typed : startsTypedConstant w = .done false

theorem operandWord {w : Keyword} (h : w ∈ [.TRUE, .FALSE, .NULL, .CASE, .CAST, .ARRAY, .ROW,
    .COALESCE, .GREATEST, .LEAST, .NULLIF, .EXTRACT]) : OperandWord w := by
  simp only [List.mem_cons, List.not_mem_nil, or_false] at h
  rcases h with rfl | rfl | rfl | rfl | rfl | rfl | rfl | rfl | rfl | rfl | rfl | rfl <;>
    exact ⟨rfl, rfl, rfl, rfl, rfl⟩

namespace OperandWord

variable {w : Keyword} (h : OperandWord w)

include h

theorem settle_cons (ts : List TokenKind) : settle (.keyword w :: ts) = .keyword w :: settle ts := by
  rw [SqlSyntax.settle_cons, before_eq h.settled]

/-- The operand is what the keyword starts. -/
theorem reads (hread : (operandOfWord w (firstOf ts = .leftParen)).ReadsWith R (.keyword w :: ts) n ts') :
    leftOperand.ReadsWith R (.keyword w :: ts) n ts' := by
  simp only [leftOperand, bind_eq, reads_kind_bind, firstOf_cons, h.sign, primary]
  change (startingWith w).ReadsWith R _ _ _
  simp only [startingWith, h.function, h.typed, bind_eq, reads_done_bind, Bool.false_eq_true,
    if_false, reads_isBefore_bind, secondOf_cons]
  exact hread

theorem startsWith (hsecond : (firstOf ts).marksArgument = false)
    (hread : (operandOfWord w (firstOf ts = .leftParen)).Reads depth (.keyword w :: ts) n ts') :
    StartsWith depth (.keyword w :: ts) n ts' :=
  startsWith_token h.opens nofun hsecond (h.reads hread)

end OperandWord

/-! ### Constants -/

theorem isSettled_of_constant? {k : TokenKind} {v : Literal} (hk : k.constant? = some v) :
    k.isSettled = true := by
  cases k <;> first | rfl | cases hk

theorem opensOperand_of_constant? {k : TokenKind} {v : Literal} (hk : k.constant? = some v) :
    k.opensOperand = true := by
  cases k <;> first | rfl | cases hk

/-- The token of a constant is read as the constant, whatever follows it. -/
theorem reads_constantToken {k : TokenKind} {v : Literal} (hk : k.constant? = some v) :
    leftOperand.ReadsWith R (k :: ts) (.const v) ts := by
  have hsign : Level.ofSign? k = none := by
    cases k <;> first | rfl | cases hk
  simp only [leftOperand, bind_eq, reads_kind_bind, firstOf_cons, hsign, primary, hk]
  cases k <;> exact ⟨rfl, rfl⟩

theorem reads_constant {k : TokenKind} {v : Literal} (hk : k.constant? = some v) :
    leftOperand.ReadsWith R (settle (k :: rest)) (.const v) (settle rest) := by
  rw [settle_cons, before_eq (isSettled_of_constant? hk)]
  exact reads_constantToken hk

theorem leads_constant {k : TokenKind} {v : Literal} (hk : k.constant? = some v) :
    Leads [k] level (.const v) := by
  refine Leads.operand fun depth rest hrest => ?_
  have hread : leftOperand.ReadsWith (Rule.Reads depth) (settle (k :: rest)) (.const v) (settle rest) :=
    reads_constant hk
  rw [List.singleton_append]
  rw [settle_cons, before_eq (isSettled_of_constant? hk)] at hread ⊢
  exact startsWith_token (opensOperand_of_constant? hk) (by rintro rfl; cases hk) hrest.unnamed hread

/-- The keyword is a constant. -/
structure ConstantWord (w : Keyword) (v : Literal) : Prop extends OperandWord w where
  constant : ∀ b, operandOfWord w b = (do Parser.skip; return Node.const v)

theorem ConstantWord.reads_const {w : Keyword} {v : Literal} (h : ConstantWord w v) :
    leftOperand.ReadsWith R (settle (.keyword w :: rest)) (.const v) (settle rest) := by
  rw [h.settle_cons]
  refine h.reads ?_
  rw [h.constant]
  exact ⟨rfl, rfl⟩

theorem ConstantWord.leads {w : Keyword} {v : Literal} (h : ConstantWord w v) :
    Leads [.keyword w] level (.const v) := by
  refine Leads.operand fun depth rest hrest => ?_
  rw [List.singleton_append, h.settle_cons]
  refine h.startsWith hrest.unnamed ?_
  rw [h.constant]
  exact ⟨rfl, rfl⟩

theorem constantWord_false : ConstantWord .FALSE (.boolean false) :=
  ⟨operandWord (by simp), fun _ => rfl⟩

theorem constantWord_true : ConstantWord .TRUE (.boolean true) :=
  ⟨operandWord (by simp), fun _ => rfl⟩

theorem constantWord_null : ConstantWord .NULL .null :=
  ⟨operandWord (by simp), fun _ => rfl⟩

/-- The token of a literal that is read, if it has no sign: a constant or a keyword for one. -/
theorem token_of_isRead {v : Literal} (h : v.IsRead) (hsign : v.isNegative = false) :
    ∃ k, (Node.const v).kinds = [k] ∧ (k.constant? = some v ∨
      ∃ w ∈ [Keyword.FALSE, .TRUE, .NULL], k = .keyword w ∧ ConstantWord w v) := by
  have hkinds (v : Literal) : (Node.const v).kinds = literalKinds v := by
    rw [Node.kinds, Node.const_pieces, kindsOf_cons, kindsOf_nil, List.append_nil]
    rfl
  rw [hkinds]
  cases h with
  | string s => exact ⟨.string s, rfl, .inl rfl⟩
  | @integer n hrange =>
    have hneg : ¬ n < 0 := by simpa [Literal.isNegative] using hsign
    exact ⟨.integer n, by rw [literalKinds, if_neg hneg, integerKind, if_pos hrange], .inl rfl⟩
  | @float cs hcs =>
    refine ⟨.float (String.ofList cs), ?_, .inl rfl⟩
    rw [literalKinds, String.toList_ofList]
    split
    · next cs' => exact absurd rfl hcs.ne_minus
    · rfl
  | negative _ _ => simp [Literal.isNegative] at hsign
  | boolean b =>
    cases b with
    | false => exact ⟨.keyword .FALSE, rfl, .inr ⟨.FALSE, by simp, rfl, constantWord_false⟩⟩
    | true => exact ⟨.keyword .TRUE, rfl, .inr ⟨.TRUE, by simp, rfl, constantWord_true⟩⟩
  | @binary cs hcs =>
    refine ⟨.binary (String.ofList cs), ?_, .inl ?_⟩
    · rw [literalKinds, bitsKind, String.toList_ofList]
      rfl
    · exact congrArg (fun s => some (Literal.bits s)) (append_ofList 'b' cs)
  | @hex cs hcs =>
    refine ⟨.hex (String.ofList cs), ?_, .inl ?_⟩
    · rw [literalKinds, bitsKind, String.toList_ofList]
      rfl
    · exact congrArg (fun s => some (Literal.bits s)) (append_ofList 'x' cs)
  | null => exact ⟨.keyword .NULL, rfl, .inr ⟨.NULL, by simp, rfl, constantWord_null⟩⟩

/-- A literal without a sign is read from its token. -/
theorem reads_const {v : Literal} (h : v.IsRead) (hsign : v.isNegative = false) :
    leftOperand.ReadsWith R (settle ((Node.const v).kinds ++ rest)) (.const v) (settle rest) := by
  obtain ⟨k, hkinds, hk | ⟨w, -, rfl, hw⟩⟩ := token_of_isRead h hsign
  · rw [hkinds]
    exact reads_constant hk
  · rw [hkinds]
    exact hw.reads_const

/-- A minus sign in front of an operand. -/
theorem reads_minus (h : (operand Level.sign).ReadsWith R ts n ts') :
    leftOperand.ReadsWith R (.minus :: ts) (Node.negate n) ts' := by
  simp only [leftOperand, bind_eq, reads_kind_bind, firstOf_cons, Level.ofSign?, reads_skip_bind,
    List.tail_cons]
  exact Parser.readsWith_bind h ⟨rfl, rfl⟩

/-- A constant with a sign in front. -/
theorem leads_negative {k : TokenKind} {v v' : Literal} (hk : k.constant? = some v)
    (hnegate : Node.negate (.const v) = .const v') :
    Leads [.minus, k] Level.sign (.const v') := by
  refine Leads.operand fun depth rest hrest => ?_
  have hleads : Leads [k] Level.primary (.const v) := leads_constant hk
  have hread : Parser.Reads depth _ _ _ _ :=
    hleads.reads (by decide) (hrest.mono (by decide)) hrest.stops
  rw [List.cons_append, settle_cons, before_eq rfl]
  refine startsWith_token rfl nofun ?_ ?_
  · rw [List.singleton_append, settle_cons, before_eq (isSettled_of_constant? hk)]
    exact marksArgument_of_opensOperand (opensOperand_of_constant? hk)
  · rw [← hnegate]
    exact reads_minus hread

theorem negate_integer {n : Int} (h : Int4.inRange n = true) (hneg : n < 0) :
    Node.negate (.const (if Int4.inRange (-n) then .integer (-n) else .float (toString (-n))))
      = .const (.integer n) := by
  rw [Int4.inRange_iff] at h
  split
  · next hrange =>
    have hleast : -n ≠ Int4.least := by
      rw [Int4.inRange_iff] at hrange
      unfold Int4.least
      omega
    simp [Node.negate, Literal.negated, hleast]
  · next hrange =>
    -- only the least integer has no opposite
    rw [Int4.inRange_iff] at hrange
    obtain rfl : n = -2147483648 := by omega
    have htext : Literal.negatedText (toString (- -2147483648 : Int)) = "-2147483648" := by decide
    have hvalue : Int4.ofDecimal? "-2147483648".toList = some (-2147483648) := by decide
    simp only [Node.negate, Literal.negated, htext, hvalue]
    rfl

theorem negate_float {cs : List Char} (h : IsFloat cs) (hlarge : Int4.ofDecimal? ('-' :: cs) = none) :
    Node.negate (.const (.float (String.ofList cs)))
      = .const (.float (String.ofList ('-' :: cs))) := by
  have htext := Literal.negatedText_unsigned fun _ => h.ne_minus
  simp only [Node.negate, Literal.negated, htext, String.toList_ofList, hlarge]

/-- A constant is read back. -/
theorem leads_const {v : Literal} (h : v.IsRead) : (Node.const v).Leads := by
  by_cases hsign : v.isNegative = true
  · have hlevel : (Node.const v).level = Level.sign := by
      simp [Node.level, hsign]
    rw [Node.Leads, hlevel]
    cases h with
    | @integer n hrange =>
      have hneg : n < 0 := by simpa [Literal.isNegative] using hsign
      have hkinds : (Node.const (.integer n)).kinds = [TokenKind.minus, integerKind (-n)] := by
        rw [Node.kinds, Node.const_pieces, kindsOf_cons, kindsOf_nil, List.append_nil]
        exact if_pos hneg
      rw [hkinds]
      refine leads_negative ?_ (negate_integer hrange hneg)
      unfold integerKind
      split <;> rfl
    | @negative cs hcs hlarge =>
      have hkinds : (Node.const (.float (String.ofList ('-' :: cs)))).kinds
          = [TokenKind.minus, TokenKind.float (String.ofList cs)] := by
        rw [Node.kinds, Node.const_pieces, kindsOf_cons, kindsOf_nil, List.append_nil, kinds_literal,
          literalKinds, String.toList_ofList]
        rfl
      rw [hkinds]
      exact leads_negative rfl (negate_float hcs hlarge)
    | @float cs hcs =>
      cases cs with
      | nil => simp [Literal.isNegative] at hsign
      | cons c cs =>
        obtain rfl : c = '-' := by simpa [Literal.isNegative] using hsign
        exact absurd rfl hcs.ne_minus
    | _ => simp [Literal.isNegative] at hsign
  · obtain ⟨k, hkinds, hk | ⟨w, -, rfl, hw⟩⟩ := token_of_isRead h (eq_false_of_ne_true hsign)
    · rw [Node.Leads, hkinds]
      exact leads_constant hk
    · rw [Node.Leads, hkinds]
      exact hw.leads

/-! ### Functions with a syntax of their own -/

theorem settle_paren {k : TokenKind} (hk : k = .leftParen ∨ k = .rightParen ∨ k = .leftBracket
    ∨ k = .rightBracket ∨ k = .comma) (ts : List TokenKind) : settle (k :: ts) = k :: settle ts := by
  rcases hk with rfl | rfl | rfl | rfl | rfl <;> rfl

/-- A call of a function with a syntax of its own is read back if what stands in its
parentheses is. -/
theorem leads_specialCall {f : SpecialFunction} {w : Keyword} (hw : OperandWord w)
    (hf : ∀ b, operandOfWord w b = if b then (do Parser.skip; specialCall f) else namedByWord w b)
    {body : List TokenKind}
    (h : ∀ depth rest, (specialBody f).Reads depth (settle (body ++ .rightParen :: rest)) n
      (settle (.rightParen :: rest))) :
    Leads (.keyword w :: .leftParen :: (body ++ [.rightParen])) level n := by
  refine Leads.operand fun depth rest hrest => ?_
  rw [List.cons_append, List.cons_append, hw.settle_cons, List.append_assoc, List.singleton_append]
  refine hw.startsWith rfl ?_
  rw [hf]
  exact reads_parenthesized (h depth rest)

/-- `COALESCE`. -/
theorem leads_coalesce {args : List Node} (hne : args ≠ []) (hargs : ∀ n ∈ args, n.Leads) :
    (Node.coalesce args).Leads := by
  have hkinds : (Node.coalesce args).kinds
      = TokenKind.keyword .COALESCE :: .leftParen
        :: (commaKinds (args.map Node.kinds) ++ [TokenKind.rightParen]) := by
    rw [Node.kinds, Node.coalesce_pieces, ← kindsOf_commas_nodesPieces]
    simp
  rw [Node.Leads, hkinds]
  refine leads_specialCall (f := .coalesce) (operandWord (by simp)) (fun b => by cases b <;> rfl)
    fun depth rest => ?_
  have hread : expressions.Reads depth _ args _ :=
    reads_expressions hne hargs (follows_rightParen rest) (rightParen_ne_comma rest)
  exact Parser.readsWith_bind hread ⟨rfl, rfl⟩

/-- `GREATEST` and `LEAST`. -/
theorem leads_extremum {args : List Node} (op : Extremum) (hne : args ≠ [])
    (hargs : ∀ n ∈ args, n.Leads) : (Node.extremum op args).Leads := by
  have hkinds : (Node.extremum op args).kinds
      = TokenKind.keyword op.word :: .leftParen
        :: (commaKinds (args.map Node.kinds) ++ [TokenKind.rightParen]) := by
    rw [Node.kinds, Node.extremum_pieces, ← kindsOf_commas_nodesPieces]
    simp
  have hread : ∀ depth rest, expressions.Reads depth _ args _ := fun depth rest =>
    reads_expressions hne hargs (follows_rightParen rest) (rightParen_ne_comma rest)
  rw [Node.Leads, hkinds]
  cases op with
  | greatest =>
    exact leads_specialCall (f := .greatest) (operandWord (by decide)) (fun b => by cases b <;> rfl)
      fun depth rest => Parser.readsWith_bind (hread depth rest) ⟨rfl, rfl⟩
  | least =>
    exact leads_specialCall (f := .least) (operandWord (by decide)) (fun b => by cases b <;> rfl)
      fun depth rest => Parser.readsWith_bind (hread depth rest) ⟨rfl, rfl⟩

/-- `NULLIF`. -/
theorem leads_nullIf {l r : Node} (hl : l.Leads) (hr : r.Leads) :
    (Node.operation .nullIf "=" (some l) (some r)).Leads := by
  have hkinds : (Node.operation .nullIf "=" (some l) (some r)).kinds
      = TokenKind.keyword .NULLIF :: .leftParen
        :: (l.kinds ++ TokenKind.comma :: r.kinds ++ [TokenKind.rightParen]) := by
    rw [Node.kinds, pieces_operation rfl rfl]
    simp [binaryPieces, commaKinds, Node.kinds]
  rw [Node.Leads, hkinds]
  refine leads_specialCall (f := .nullif) (operandWord (by simp)) (fun b => by cases b <;> rfl)
    fun depth rest => ?_
  have hreadL : Parser.Reads depth _ _ _ _ := hl.reads_expression
    (follows_comma (r.kinds ++ TokenKind.rightParen :: rest))
  have hreadR : Parser.Reads depth _ _ _ _ := hr.reads_expression (follows_rightParen rest)
  rw [List.append_assoc, List.cons_append]
  refine Parser.readsWith_bind hreadL ?_
  rw [settle_paren (by simp)]
  simp only [bind_eq, reads_expect_bind, firstOf_cons, List.tail_cons, true_and]
  exact Parser.readsWith_bind hreadR ⟨rfl, rfl⟩

/-- The token of a field of a date or time as it is written. -/
def fieldKind (field : String) : TokenKind :=
  if Quoted.isBareName field.toList then nameKind field else .string field

theorem fieldOf?_fieldKind (field : String) : fieldOf? (fieldKind field) = some field := by
  unfold fieldKind
  split
  · obtain hs | ⟨w, hs, -, rfl⟩ := nameKind_cases field <;> rw [hs] <;> rfl
  · rfl

theorem before_fieldKind (field : String) :
    (fieldKind field).before (.keyword .FROM) = fieldKind field := by
  unfold fieldKind
  split
  · exact before_nameKind rfl
  · rfl

/-- The field of an `EXTRACT` as it is written. -/
def fieldPiece (field : String) : Piece :=
  if Quoted.isBareName field.toList then .name field else .literal (.string field)

/-- `EXTRACT` as it is written. -/
theorem pieces_extract (field : String) (source : Node) :
    (Node.call (Call.system "extract" [Node.string field, source])).pieces
      = .word .EXTRACT :: parens (fieldPiece field :: .gap :: .word .FROM :: .gap :: source.pieces) := by
  rw [Node.call_pieces, Call.system, Call.pieces]
  rfl

/-- `EXTRACT`. -/
theorem leads_extract {source : Node} (field : String) (hsource : source.Leads) :
    (Node.call (Call.system "extract" [Node.string field, source])).Leads := by
  have hkinds : (Node.call (Call.system "extract" [Node.string field, source])).kinds
      = TokenKind.keyword .EXTRACT :: .leftParen
        :: (fieldKind field :: .keyword .FROM :: source.kinds ++ [TokenKind.rightParen]) := by
    have hfield : (fieldPiece field).kinds = [fieldKind field] := by
      unfold fieldPiece fieldKind
      split <;> rfl
    rw [Node.kinds, pieces_extract]
    simp [hfield, Node.kinds]
  rw [Node.Leads, hkinds]
  refine leads_specialCall (f := .extract) (operandWord (by simp)) (fun b => by cases b <;> rfl)
    fun depth rest => ?_
  have hread : Parser.Reads depth _ _ _ _ := hsource.reads_expression (follows_rightParen rest)
  have hsettle : settle (fieldKind field :: .keyword .FROM :: source.kinds
    ++ TokenKind.rightParen :: rest)
      = fieldKind field :: .keyword .FROM
        :: settle (source.kinds ++ TokenKind.rightParen :: rest) := by
    simp [before_fieldKind]
  rw [hsettle]
  simp only [specialBody, extractArgs, bind_eq, reads_bind_bind, reads_kind_bind, firstOf_cons,
    fieldOf?_fieldKind, reads_readAs_bind, List.tail_cons, reads_expectWord_bind, true_and]
  exact Parser.readsWith_bind hread ⟨rfl, rfl⟩

/-! ### Constructs in words -/

/-- `CAST`. -/
theorem leads_cast {arg : Node} {type : TypeName} (harg : arg.Leads) (htype : type.IsRead)
    (hmodifiers : ∀ n ∈ type.modifiers, n.Leads) : (Node.cast arg type).Leads := by
  have hkinds : (Node.cast arg type).kinds = TokenKind.keyword .CAST :: .leftParen
      :: (arg.kinds ++ TokenKind.keyword .AS
        :: (kindsOf type.pieces ++ [TokenKind.rightParen])) := by
    rw [Node.kinds, Node.cast_pieces]
    simp [Node.kinds]
  rw [Node.Leads, hkinds]
  refine Leads.operand fun depth rest hrest => ?_
  have hfollows : ∀ ts, Follows 0 (.keyword .AS :: ts) := fun ts =>
    follows_of_tailLevel rfl rfl (Nat.le_refl 0)
  have hread : Parser.Reads depth _ _ _ _ := harg.reads_expression
    (hfollows (kindsOf type.pieces ++ TokenKind.rightParen :: rest))
  have hreadType : typeName.Reads depth _ type (settle (.rightParen :: rest)) :=
    reads_typeName htype hmodifiers
  have hw : OperandWord .CAST := operandWord (by simp)
  rw [List.cons_append, List.cons_append, hw.settle_cons, List.append_assoc, List.cons_append,
    List.append_assoc, List.singleton_append]
  refine hw.startsWith rfl ?_
  change (parenthesized castBody).Reads depth _ _ _
  refine reads_parenthesized ?_
  refine Parser.readsWith_bind hread ?_
  rw [SqlSyntax.settle_cons, before_eq rfl]
  simp only [bind_eq, reads_expectWord_bind, firstOf_cons, List.tail_cons, true_and]
  exact Parser.readsWith_bind hreadType ⟨rfl, rfl⟩

/-- `ROW`. -/
theorem leads_row {fs : List Node} (hfs : ∀ n ∈ fs, n.Leads) : (Node.row fs true).Leads := by
  have hkinds : (Node.row fs true).kinds = TokenKind.keyword .ROW :: .leftParen
      :: (commaKinds (fs.map Node.kinds) ++ [TokenKind.rightParen]) := by
    rw [Node.kinds, Node.row_pieces, ← kindsOf_commas_nodesPieces]
    simp
  rw [Node.Leads, hkinds]
  refine Leads.operand fun depth rest hrest => ?_
  have hw : OperandWord .ROW := operandWord (by simp)
  rw [List.cons_append, List.cons_append, hw.settle_cons, List.append_assoc, List.singleton_append]
  refine hw.startsWith rfl ?_
  have hread : rowFields.Reads depth (settle (commaKinds (fs.map Node.kinds)
    ++ TokenKind.rightParen :: rest))
      fs (settle (.rightParen :: rest)) := by
    cases fs with
    | nil => simp [rowFields, commaKinds, TokenKind.before]
    | cons f fs =>
      have hfirst := opensOperand_ne (starts_expressions (List.cons_ne_nil f fs) hfs
        (follows_rightParen rest)) .rightParen rfl
      simp only [rowFields, bind_eq, reads_isAt_bind, hfirst, decide_false, Bool.false_eq_true,
        if_false]
      exact reads_expressions (List.cons_ne_nil f fs) hfs (follows_rightParen _)
        (rightParen_ne_comma _)
  have hrow : ((parenthesized rowFields).bind fun fs => indirection (.row fs true)).Reads depth
      (settle (.leftParen :: (commaKinds (fs.map Node.kinds)
        ++ TokenKind.rightParen :: rest))) (.row fs true)
      (settle rest) :=
    Parser.readsWith_bind (reads_parenthesized hread) (reads_indirection_none hrest)
  exact hrow

/-- A row without a word of its own. -/
theorem leads_bareRow {first : Node} {more : List Node} (hne : more ≠ []) (hfirst : first.Leads)
    (hmore : ∀ n ∈ more, n.Leads) : (Node.row (first :: more) false).Leads := by
  have hkinds : (Node.row (first :: more) false).kinds = TokenKind.leftParen
      :: (first.kinds ++ (more.flatMap (fun n => TokenKind.comma :: n.kinds)
        ++ [TokenKind.rightParen])) := by
    have hlength : ¬ (first :: more).length < 2 := by
      have hpos := List.length_pos_iff.mpr hne
      rw [List.length_cons]
      omega
    rw [Node.kinds, Node.row_pieces, Bool.false_or, decide_eq_false hlength, kindsOf_append,
      kindsOf_parens, kindsOf_commas_nodesPieces, List.map_cons, commaKinds, List.flatMap_map]
    simp
  rw [Node.Leads, hkinds]
  refine Leads.operand fun depth rest hrest => ?_
  have hread : Parser.Reads depth _ _ _ (settle rest) :=
    hfirst.reads_enclosed (level_pos first) hmore fun n _ => level_pos n
  have hnode : enclosedNode first more = Node.row (first :: more) false := by
    cases more with
    | nil => exact absurd rfl hne
    | cons m more => rfl
  have hsecond : (firstOf (settle (first.kinds
    ++ (more.flatMap (fun n => TokenKind.comma :: n.kinds)
      ++ TokenKind.rightParen :: rest)))).marksArgument = false := by
    refine marksArgument_of_opensOperand (hfirst.starts ?_).1
    cases more with
    | nil => exact follows_rightParen _
    | cons m more => exact follows_comma _
  rw [hnode, settle_paren (by simp)] at hread
  simp only [List.cons_append, List.append_assoc, List.nil_append]
  rw [settle_paren (by simp)]
  exact startsWith_enclosed hsecond hread (reads_indirection_none hrest)

/-- `ARRAY` with its elements. -/
theorem leads_array {es : List Node} (hes : ∀ n ∈ es, n.Leads) : (Node.array es).Leads := by
  have hkinds : (Node.array es).kinds = TokenKind.keyword .ARRAY :: .leftBracket
      :: (commaKinds (es.map Node.kinds) ++ [TokenKind.rightBracket]) := by
    rw [Node.kinds, Node.array_pieces, ← kindsOf_commas_nodesPieces]
    simp
  rw [Node.Leads, hkinds]
  refine Leads.operand fun depth rest hrest => ?_
  have hw : OperandWord .ARRAY := operandWord (by simp)
  rw [List.cons_append, List.cons_append, hw.settle_cons, List.append_assoc, List.singleton_append,
    settle_paren (by simp)]
  refine hw.startsWith rfl ?_
  have hread : elementList.Reads depth
      (settle (commaKinds (es.map Node.kinds) ++ TokenKind.rightBracket :: rest)) es
      (settle (.rightBracket :: rest)) := by
    cases es with
    | nil => simp [elementList, commaKinds, TokenKind.before]
    | cons e es =>
      have hfollows : Follows 0 (.rightBracket :: rest) :=
        follows_of_tailLevel rfl rfl (Nat.le_refl 0)
      have hfirst := opensOperand_ne (starts_expressions (List.cons_ne_nil e es) hes hfollows)
        .rightBracket rfl
      simp only [elementList, bind_eq, reads_isAt_bind, hfirst, decide_false, Bool.false_eq_true,
        if_false]
      rw [List.map_cons, commaKinds, List.append_assoc, List.flatMap_map]
      refine reads_commaList (p := Follows 0) (fun _ => follows_comma _) e es (fun n hn rest hrest => ?_)
        hfollows (by simp [TokenKind.before])
      have hopens := opensOperand_ne ((hes n hn).starts (hrest.mono (Nat.zero_le _))).1
        .leftBracket rfl
      simp only [element, bind_eq, reads_isAt_bind, hopens, decide_false, Bool.false_eq_true,
        if_false]
      exact (hes n hn).reads_expression hrest
  have helements : elements.Reads depth
      (.leftBracket :: settle (commaKinds (es.map Node.kinds) ++ TokenKind.rightBracket :: rest)) es
      (settle rest) := by
    simp only [elements, bind_eq, reads_expect_bind, firstOf_cons, List.tail_cons, true_and]
    refine Parser.readsWith_bind hread ?_
    simp [TokenKind.before]
  have harray : ((elements.bind fun es => .done (Node.array es)).bind indirection).Reads depth
      (.leftBracket :: settle (commaKinds (es.map Node.kinds)
        ++ TokenKind.rightBracket :: rest)) (.array es)
      (settle rest) :=
    Parser.readsWith_bind (Parser.readsWith_bind helements ⟨rfl, rfl⟩) (reads_indirection_none hrest)
  exact harray

/-! ### Bounds -/

/-- The tokens of an expression that may be missing. -/
def optionalKinds (bound : Option Node) : List TokenKind :=
  bound.elim [] Node.kinds

/-- An expression is read back that is missing only where something else stands. -/
theorem reads_optionalBound {stop : TokenKind} (hstop : stop.opensOperand = false)
    {bound : Option Node} (h : ∀ n ∈ bound, n.Leads) (hrest : Follows 0 rest)
    (hnone : bound = none → firstOf (settle rest) = stop) :
    (optionalBound stop).Reads depth (settle (optionalKinds bound ++ rest)) bound (settle rest) := by
  unfold optionalBound
  cases bound with
  | none => simp [optionalKinds, hnone rfl]
  | some n =>
    have hopens := opensOperand_ne ((h n rfl).starts (hrest.mono (Nat.zero_le _))).1 stop hstop
    simp only [optionalKinds, Option.elim_some, bind_eq, reads_isAt_bind, hopens, decide_false,
      Bool.false_eq_true, if_false]
    exact Parser.readsWith_bind ((h n rfl).reads_expression hrest) ⟨rfl, rfl⟩

/-! ### `CASE` -/

/-- An arm of a `CASE` expression as it is written. -/
def armKinds (a : CaseArm) : List TokenKind :=
  .keyword .WHEN :: (a.condition.kinds ++ .keyword .THEN :: a.result.kinds)

theorem kindsOf_armsPieces (arms : List CaseArm) :
    kindsOf ((armsPieces arms).flatMap fun a => .gap :: a) = arms.flatMap armKinds := by
  induction arms with
  | nil => rfl
  | cons a arms ih =>
    obtain ⟨condition, result⟩ := a
    rw [armsPieces, List.flatMap_cons, kindsOf_append, ih, List.flatMap_cons, CaseArm.pieces]
    simp [armKinds, Node.kinds]

theorem settle_word {w : Keyword} (hw : w ∈ [.WHEN, .THEN, .ELSE, .END]) (ts : List TokenKind) :
    settle (.keyword w :: ts) = .keyword w :: settle ts := by
  simp only [List.mem_cons, List.not_mem_nil, or_false] at hw
  rcases hw with rfl | rfl | rfl | rfl <;> simp

theorem follows_word {w : Keyword} (hw : w ∈ [.WHEN, .THEN, .ELSE, .END]) :
    Follows level (.keyword w :: rest) := by
  simp only [List.mem_cons, List.not_mem_nil, or_false] at hw
  rcases hw with rfl | rfl | rfl | rfl <;> exact follows_of_tailLevel rfl rfl (Nat.zero_le _)

/-- The arms of a `CASE` expression are read one after the other. -/
theorem reads_arms {arms : List CaseArm} (hne : arms ≠ []) (hconditions : ∀ a ∈ arms, a.condition.Leads)
    (hresults : ∀ a ∈ arms, a.result.Leads) {w : Keyword} (hw : w = .ELSE ∨ w = .END) :
    Grammar.arms.Reads depth (settle (arms.flatMap armKinds ++ .keyword w :: rest)) arms
      (settle (.keyword w :: rest)) := by
  have hend : ∀ {level}, Follows level (.keyword w :: rest) := by
    rcases hw with rfl | rfl <;> exact follows_word (by simp)
  have hsteps : ∀ found : List CaseArm, Steps (Rule.Reads depth) moreArms found.reverse
      (settle (arms.flatMap armKinds ++ TokenKind.keyword w :: rest)) (found ++ arms).reverse
      (settle (.keyword w :: rest)) := by
    clear hne
    intro found
    induction arms generalizing found with
    | nil =>
      rw [List.append_nil]
      refine .last ?_
      rcases hw with rfl | rfl <;> simp [moreArms]
    | cons a arms ih =>
      have ih := ih (fun b hb => hconditions b (List.mem_cons_of_mem a hb))
        (fun b hb => hresults b (List.mem_cons_of_mem a hb)) (found ++ [a])
      rw [List.append_assoc, List.singleton_append, List.reverse_append] at ih
      obtain ⟨condition, result⟩ := a
      have hfollows : Follows 0 (arms.flatMap armKinds ++ TokenKind.keyword w :: rest) := by
        cases arms with
        | nil => exact hend
        | cons b arms => exact follows_word (by simp)
      have hthen : ∀ ts, Follows 0 (.keyword .THEN :: ts) := fun ts => follows_word (by simp)
      have hcondition : Parser.Reads depth _ _ _ _ :=
        (hconditions _ List.mem_cons_self).reads_expression
        (hthen (result.kinds ++ (arms.flatMap armKinds ++ TokenKind.keyword w :: rest)))
      have hresult : Parser.Reads depth _ _ _ _ :=
        (hresults _ List.mem_cons_self).reads_expression hfollows
      refine .more (t := CaseArm.mk condition result :: found.reverse) ?_ ?_ ih
      · rw [List.flatMap_cons, List.append_assoc, armKinds, List.cons_append, List.append_assoc,
          List.cons_append, settle_word (by simp)]
        simp only [moreArms, bind_eq, reads_acceptWord_bind, firstOf_cons, if_true, List.tail_cons]
        refine Parser.readsWith_bind hcondition ?_
        rw [settle_word (by simp)]
        simp only [reads_expectWord_bind, firstOf_cons, List.tail_cons, true_and]
        exact Parser.readsWith_bind hresult ⟨rfl, rfl⟩
      · simp only [length_settle, List.flatMap_cons, List.length_append, armKinds, List.length_cons]
        omega
  refine Parser.readsWith_bind (hsteps []).reads ?_
  rw [List.nil_append, List.reverse_reverse]
  cases arms with
  | nil => exact absurd rfl hne
  | cons a arms => exact ⟨rfl, rfl⟩

/-- `CASE`. -/
theorem leads_case {operand : Option Node} {arms : List CaseArm} {otherwise : Option Node}
    (hoperand : ∀ n ∈ operand, n.Leads) (hne : arms ≠ [])
    (hconditions : ∀ a ∈ arms, a.condition.Leads) (hresults : ∀ a ∈ arms, a.result.Leads)
    (hotherwise : ∀ n ∈ otherwise, n.Leads) : (Node.caseExpr operand arms otherwise).Leads := by
  have hkinds : (Node.caseExpr operand arms otherwise).kinds = TokenKind.keyword .CASE
      :: (operand.elim [] Node.kinds ++ (arms.flatMap armKinds
        ++ (otherwise.elim [] (fun n => TokenKind.keyword .ELSE :: n.kinds)
          ++ [TokenKind.keyword .END]))) := by
    rw [Node.kinds, Node.caseExpr_pieces]
    simp only [kindsOf_append, kindsOf_armsPieces]
    cases operand <;> cases otherwise <;> simp [operand?, Node.kinds]
  rw [Node.Leads, hkinds]
  refine Leads.operand fun depth rest hrest => ?_
  have hw : OperandWord .CASE := operandWord (by simp)
  have hend := settle_word (w := .END) (by simp) rest
  have helse : (after .ELSE expression).Reads depth
      (settle (otherwise.elim [] (fun n => TokenKind.keyword .ELSE :: n.kinds)
        ++ TokenKind.keyword .END :: rest))
      otherwise (settle (.keyword .END :: rest)) := by
    cases otherwise with
    | none => exact reads_after_none (by simp)
    | some e =>
      rw [Option.elim_some, List.cons_append, settle_word (by simp)]
      exact reads_after ((hotherwise e rfl).reads_expression (follows_word (by simp)))
  obtain ⟨w, tail, hword, htail⟩ : ∃ w tail, (w = Keyword.ELSE ∨ w = Keyword.END) ∧
      otherwise.elim [] (fun n => TokenKind.keyword .ELSE :: n.kinds)
        ++ TokenKind.keyword .END :: rest
        = TokenKind.keyword w :: tail := by
    cases otherwise with
    | none => exact ⟨.END, rest, .inr rfl, rfl⟩
    | some e => exact ⟨.ELSE, _, .inl rfl, rfl⟩
  rw [htail] at helse
  have harms : Parser.Reads depth _ _ arms (settle (.keyword w :: tail)) :=
    reads_arms hne hconditions hresults hword
  obtain ⟨tailArms, hwhen⟩ : ∃ tailArms,
      arms.flatMap armKinds ++ TokenKind.keyword w :: tail
        = TokenKind.keyword .WHEN :: tailArms := by
    cases arms with
    | nil => exact absurd rfl hne
    | cons a arms => exact ⟨_, rfl⟩
  rw [hwhen] at harms
  have hbound : (optionalBound (.keyword .WHEN)).Reads depth
      (settle (operand.elim [] Node.kinds ++ TokenKind.keyword .WHEN :: tailArms)) operand
      (settle (.keyword .WHEN :: tailArms)) :=
    reads_optionalBound rfl hoperand (follows_word (by simp)) fun _ => by simp
  simp only [List.cons_append, List.append_assoc, List.nil_append]
  rw [htail, hwhen, hw.settle_cons]
  refine hw.startsWith ?_ ?_
  · cases operand with
    | none => simp [TokenKind.marksArgument]
    | some o => exact marksArgument_of_opensOperand ((hoperand o rfl).starts (follows_word (by simp))).1
  · change caseExpression.Reads depth _ _ _
    refine Parser.readsWith_bind hbound ?_
    refine Parser.readsWith_bind harms ?_
    refine Parser.readsWith_bind helse ?_
    rw [hend]
    simp

/-! ### Parameters and functions without parentheses -/

theorem kinds_param (m : Int) : (Node.param m).kinds = [.param m] := rfl

/-- A parameter is read with the steps into it that follow. -/
theorem startsWith_param {m : Int} (hsecond : (firstOf (settle rest)).marksArgument = false)
    (hsteps : (indirection (.param m)).Reads depth (settle rest) n ts') :
    StartsWith depth (settle (.param m :: rest)) n ts' := by
  rw [settle_cons, before_eq rfl]
  exact startsWith_token rfl nofun hsecond hsteps

/-- A parameter. -/
theorem leads_param (m : Int) : (Node.param m).Leads := by
  rw [Node.Leads, kinds_param]
  exact Leads.operand fun depth rest hrest =>
    startsWith_param hrest.unnamed (reads_indirection_none hrest)

/-- A function without parentheses. -/
theorem leads_valueFunction {f : ValueFunction} {precision : Option Int}
    (h : precision.isSome → f.takesPrecision = true) : (Node.valueFunction f precision).Leads := by
  have hkinds : (Node.valueFunction f precision).kinds
      = TokenKind.keyword f.word :: precisionKinds precision := by
    rw [Node.kinds, Node.valueFunction_pieces]
    cases precision <;> simp [precisionKinds]
  have hword : ValueFunction.ofWord? f.word = some f := by cases f <;> rfl
  have hsettled : (TokenKind.keyword f.word).isSettled = true := by cases f <;> rfl
  have hopens : (TokenKind.keyword f.word).opensOperand = true := by
    simp [TokenKind.opensOperand, hword]
  have hsign : Level.ofSign? (.keyword f.word) = none := by cases f <;> rfl
  rw [Node.Leads, hkinds]
  refine Leads.operand fun depth rest hrest => ?_
  have hparen : firstOf (settle rest) ≠ TokenKind.leftParen := by
    obtain ⟨l, -, hl⟩ := hrest
    intro heq
    rw [heq] at hl
    cases hl
  rw [List.cons_append, settle_cons, before_eq hsettled]
  refine startsWith_token hopens (by simp) ?_ ?_
  · cases precision with
    | none => exact hrest.unnamed
    | some p => rfl
  · simp only [leftOperand, bind_eq, reads_kind_bind, firstOf_cons, hsign, primary]
    change (startingWith f.word).Reads depth _ _ _
    simp only [startingWith, hword, bind_eq, reads_skip_bind, List.tail_cons, valueFunction]
    cases precision with
    | none =>
      split
      · simp [precisionKinds, hparen]
      · exact ⟨rfl, rfl⟩
    | some p => simp [h rfl, precisionKinds, TokenKind.before, parenthesized, integer]

/-! ### Names -/

/-- A keyword that may be a name starts no operand of its own. -/
theorem operandOfWord_eq {w : Keyword} (h : w.category = .unreserved) (b : Bool) :
    operandOfWord w b = (do Parser.skip; named w.spelling) := by
  have hname : namedByWord w b = (do Parser.skip; named w.spelling) := by
    rw [namedByWord, isColumnName_of_unreserved h, Bool.true_or, if_pos rfl]
  have hspecial : SpecialFunction.ofWord? w = none := by
    unfold SpecialFunction.ofWord?
    split <;> first | rfl | exact absurd h (by decide)
  unfold operandOfWord
  split <;> first
    | exact absurd h (by decide)
    | (rw [hspecial]; exact hname)

theorem startsTypedConstant_eq {w : Keyword} (h : w.category = .unreserved) (hdouble : w ≠ .DOUBLE) :
    startsTypedConstant w = .done false := by
  unfold startsTypedConstant
  split <;> first
    | exact absurd rfl hdouble
    | exact absurd h (by decide)
    | rfl

theorem valueFunction_ofWord?_eq {w : Keyword} (h : w.category = .unreserved) :
    ValueFunction.ofWord? w = none := by
  refine List.find?_eq_none.mpr fun f _ hf => ?_
  obtain rfl : f.word = w := by simpa using hf
  exact absurd h (by cases f <;> decide)

/-- An operand that starts with a name. -/
theorem reads_named {R : (r : Rule) → List TokenKind → r.Result → List TokenKind → Prop} {s : String}
    (hneutral : (firstOf ts).isNeutral = true) (hsecond : firstOf (settle ts) ≠ .keyword .PRECISION)
    (h : (named s).ReadsWith R (settle ts) n ts') :
    leftOperand.ReadsWith R (settle (nameKind s :: ts)) n ts' := by
  rw [settle_cons, before_nameKind hneutral]
  obtain hs | ⟨w, hs, hw, rfl⟩ := nameKind_cases s <;> rw [hs]
  · exact h
  · have hsign : Level.ofSign? (.keyword w) = none := by
      unfold Level.ofSign?
      split
      · next heq =>
        cases heq
        exact absurd hw (by decide)
      all_goals first | rfl | cases ‹TokenKind.keyword w = _›
    simp only [leftOperand, bind_eq, reads_kind_bind, firstOf_cons, hsign, primary]
    change (startingWith w).ReadsWith R _ _ _
    rw [startingWith, valueFunction_ofWord?_eq hw]
    by_cases hdouble : w = Keyword.DOUBLE
    · subst hdouble
      simp only [startsTypedConstant, bind_eq, reads_isBefore_bind, secondOf_cons, hsecond,
        decide_false, Bool.false_eq_true, if_false, operandOfWord_eq hw]
      exact h
    · simp only [startsTypedConstant_eq hw hdouble, bind_eq, reads_done_bind, Bool.false_eq_true,
        if_false, operandOfWord_eq hw, reads_isBefore_bind]
      exact h

theorem opensOperand_nameKind (s : String) : (nameKind s).opensOperand = true := by
  obtain hs | ⟨w, hs, hw, -⟩ := nameKind_cases s <;> rw [hs]
  · rfl
  · simp [TokenKind.opensOperand, hw]

theorem nameKind_ne_leftParen (s : String) : nameKind s ≠ .leftParen := by
  obtain hs | ⟨w, hs, -, -⟩ := nameKind_cases s <;> rw [hs] <;> nofun

/-- What stands behind the parts of a dotted name. -/
def pathKinds (names : List String) (star : Bool) : List TokenKind :=
  names.flatMap (fun s => [.dot, nameKind s]) ++ if star then [.dot, .star] else []

theorem isNeutral_pathKinds (names : List String) (star : Bool)
    (hneutral : (firstOf rest).isNeutral = true) :
    (firstOf (pathKinds names star ++ rest)).isNeutral = true := by
  cases names with
  | nil =>
    cases star with
    | false => exact hneutral
    | true => rfl
  | cons s names => rfl

/-- The parts of a dotted name are read one after the other. -/
theorem steps_morePath {R : (r : Rule) → List TokenKind → r.Result → List TokenKind → Prop}
    (found names : List String) (star : Bool)
    (hneutral : (firstOf rest).isNeutral = true) (hdot : firstOf (settle rest) ≠ .dot) :
    Steps R morePath { names := found } (settle (pathKinds names star ++ rest))
      { names := names.reverse ++ found, star := star } (settle rest) := by
  induction names generalizing found with
  | nil =>
    cases star with
    | false => exact .last (by simp [pathKinds, morePath, hdot])
    | true =>
      refine .more (t := { names := found, star := true }) ?_ ?_ (.last (by simp [morePath]))
      · simp [pathKinds, morePath, TokenKind.before]
      · simp only [length_settle, pathKinds, List.length_append, List.length_cons, if_true]
        omega
  | cons s names ih =>
    have ih := ih (s :: found)
    have hneutral := isNeutral_pathKinds names star hneutral
    have hlabel : label.ReadsWith R (settle (nameKind s :: (pathKinds names star ++ rest))) s
        (settle (pathKinds names star ++ rest)) :=
      reads_label hneutral
    rw [List.reverse_cons, List.append_assoc, List.singleton_append]
    refine .more (t := { names := s :: found }) ?_ ?_ ih
    · have hsettle : settle (pathKinds (s :: names) star ++ rest)
          = TokenKind.dot :: settle (nameKind s :: (pathKinds names star ++ rest)) := by
        simp [pathKinds, TokenKind.before]
      have hstar : firstOf (settle (nameKind s
        :: (pathKinds names star ++ rest))) ≠ TokenKind.star := by
        rw [settle_cons, before_nameKind hneutral]
        exact opensOperand_ne (opensOperand_nameKind s) _ rfl
      rw [hsettle]
      simp only [morePath, Bool.false_eq_true, if_false, bind_eq, reads_accept_bind, firstOf_cons,
        if_true, List.tail_cons, hstar]
      exact Parser.readsWith_bind hlabel ⟨rfl, rfl⟩
    · simp only [length_settle, pathKinds, List.flatMap_cons, List.length_append, List.length_cons]
      omega

/-- A column reference as it is written. -/
theorem pieces_column (s : String) (names : List String) (star : Bool) :
    (Node.column (columnFields (s :: names) star)).pieces
      = .name s :: dotPieces names (if star then [.mark .dot, .mark .star] else []) := by
  rw [Node.column_pieces, columnPieces, columnFields, List.map_cons, List.cons_append, List.map_cons,
    separated_cons]
  simp only [List.map_append, List.map_map, List.flatMap_append, List.flatMap_map]
  cases star <;> rfl

/-- The tokens of a column reference. -/
theorem kinds_column (s : String) (names : List String) (star : Bool) :
    (Node.column (columnFields (s :: names) star)).kinds = nameKind s :: pathKinds names star := by
  rw [Node.kinds, pieces_column, dotPieces, kindsOf_cons, kindsOf_append]
  simp only [kindsOf, List.flatMap_assoc]
  cases star <;> rfl

/-- Whether a token behind a name makes it something else than a column: a longer name, a call, a
typed constant or the name of an argument. -/
def continuesName : TokenKind → Bool
  | .dot | .leftParen | .string _ | .keyword .PRECISION | .equalsGreater | .colonEquals => true
  | _ => false

/-- The tokens may stand behind a column. -/
structure EndsName (rest : List TokenKind) : Prop where
  neutral : (firstOf rest).isNeutral = true
  ends : continuesName (firstOf (settle rest)) = false

/-- What follows an expression may stand behind a column. -/
theorem endsName_of_follows (h : Follows level rest) : EndsName rest := by
  refine ⟨h.isNeutral, ?_⟩
  obtain ⟨l, -, hl⟩ := h
  unfold continuesName
  split <;> first
    | (next heq => rw [heq] at hl; cases hl)
    | rfl

namespace EndsName

variable (h : EndsName rest)

include h

theorem ne {k : TokenKind} (hk : continuesName k = true) : firstOf (settle rest) ≠ k := by
  rintro rfl
  rw [h.ends] at hk
  cases hk

/-- What follows a column is no part of its name. -/
theorem ne_path {k : TokenKind} (hk : continuesName k = true) (hdot : k ≠ .dot) (names : List String)
    (star : Bool) : firstOf (settle (pathKinds names star ++ rest)) ≠ k := by
  cases names with
  | nil =>
    cases star with
    | false => exact h.ne hk
    | true => exact fun heq => hdot heq.symm
  | cons s names => exact fun heq => hdot heq.symm

/-- A column is read from its names, with the steps into it that follow. -/
theorem reads_ofNames (s : String) (names : List String)
    (hsteps : (indirection (.ofNames (s :: names))).ReadsWith R (settle rest) n ts') :
    leftOperand.ReadsWith R (settle (nameKind s :: (pathKinds names false ++ rest))) n ts' := by
  have hpath : Steps R morePath _ _ _ _ :=
    steps_morePath [s] names false h.neutral (h.ne rfl)
  refine reads_named (isNeutral_pathKinds names false h.neutral) (h.ne_path (by rfl) (by nofun) names false) ?_
  refine Parser.readsWith_bind hpath.reads ?_
  simp only [Bool.false_eq_true, if_false, List.reverse_append, List.reverse_singleton,
    List.reverse_reverse, List.singleton_append, bind_eq, reads_kind_bind]
  split
  · next heq => exact absurd heq (h.ne rfl)
  · next heq => exact absurd heq (h.ne rfl)
  · exact hsteps

/-- All columns of a table are read from its name. -/
theorem reads_star (s : String) (names : List String) :
    leftOperand.ReadsWith R (settle (nameKind s :: (pathKinds names true ++ rest)))
      (.column (columnFields (s :: names) true)) (settle rest) := by
  have hpath : Steps R morePath _ _ _ _ :=
    steps_morePath [s] names true h.neutral (h.ne rfl)
  refine reads_named (isNeutral_pathKinds names true h.neutral) (h.ne_path (by rfl) (by nofun) names true) ?_
  refine Parser.readsWith_bind hpath.reads ?_
  simp [columnFields]

end EndsName

theorem column_columnFields (names : List String) :
    Node.column (columnFields names false) = .ofNames names := by
  simp [columnFields, Node.ofNames]

/-- A column reference is read from its names. -/
theorem reads_columnReference (s : String) (names : List String) (star : Bool)
    (hrest : Follows level rest) :
    leftOperand.ReadsWith R (settle (nameKind s :: (pathKinds names star ++ rest)))
      (.column (columnFields (s :: names) star)) (settle rest) := by
  cases star with
  | true => exact (endsName_of_follows hrest).reads_star s names
  | false =>
    rw [column_columnFields]
    exact (endsName_of_follows hrest).reads_ofNames s names (reads_indirection_none hrest)

/-- A column reference is an operand if it is read. -/
theorem EndsName.startsWith (h : EndsName rest) (s : String) (names : List String) (star : Bool)
    (hread : leftOperand.Reads depth (settle (nameKind s :: (pathKinds names star ++ rest))) n ts') :
    StartsWith depth (settle (nameKind s :: (pathKinds names star ++ rest))) n ts' := by
  have hsecond : (firstOf (settle (pathKinds names star ++ rest))).marksArgument = false := by
    unfold TokenKind.marksArgument
    split
    · next heq => exact absurd heq (h.ne_path (by rfl) (by decide) names star)
    · next heq => exact absurd heq (h.ne_path (by rfl) (by decide) names star)
    · rfl
  rw [settle_cons, before_nameKind (isNeutral_pathKinds names star h.neutral)] at hread ⊢
  exact startsWith_token (opensOperand_nameKind s) (nameKind_ne_leftParen s) hsecond hread

/-- A column reference. -/
theorem leads_column {names : List String} (hne : names ≠ []) (star : Bool) :
    (Node.column (columnFields names star)).Leads := by
  obtain ⟨s, names, rfl⟩ := List.exists_cons_of_ne_nil hne
  rw [Node.Leads, kinds_column]
  exact Leads.operand fun depth rest hrest =>
    (endsName_of_follows hrest).startsWith s names star (reads_columnReference s names star hrest)

end Grammar

end SqlSyntax
