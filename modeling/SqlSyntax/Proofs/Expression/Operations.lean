import SqlSyntax.Proofs.Expression.Lead
import SqlSyntax.Proofs.Expression.Plain

/-!
# Reading operations back

An operation whose operands are read back is read back itself: its operands are
between parentheses where they need them, and what stands between them is the token
that tells the operation, or its words.
-/

namespace SqlSyntax

open Grammar

variable {depth : Nat} {rest : List TokenKind} {l r arg : Node}

/-! ### Operands as they are written -/

theorem isEscapeCall_eq {kind : OperationKind} (h : matchForm? kind = none) (n : Node) :
    isEscapeCall kind n = false := by
  cases n <;> simp [isEscapeCall, h]

/-- A right operand like any other. -/
theorem rightOperand?_whole {kind : OperationKind} (hrange : isRangeTest kind = false) {n : Node}
    (hescape : isEscapeCall kind n = false) :
    rightOperand? kind true (some n) = some (.whole ⟨n.level, n.pieces⟩) := by
  rw [rightOperand?] <;> simp [hrange, hescape]

theorem kindsOf_predicatePieces (level : Level) (ks : List Keyword) (left : Operand)
    (right : List Piece) :
    kindsOf (predicatePieces level ks left right)
      = kindsOf (left.tight level) ++ (ks.map .keyword ++ kindsOf right) := by
  simp [predicatePieces]

theorem pieces_operation {kind : OperationKind} (hrange : isRangeTest kind = false)
    (hmatch : matchForm? kind = none) (op : String) (l r : Node) :
    (Node.operation kind op (some l) (some r)).pieces
      = binaryPieces kind op ⟨l.level, l.pieces⟩ ⟨r.level, r.pieces⟩ := by
  rw [Node.operation_pieces, operand?, Option.isSome_some,
    rightOperand?_whole hrange (isEscapeCall_eq hmatch r)]
  rfl

/-- A range test as it is written. -/
theorem pieces_rangeTest (negated anyOrder : Bool) (arg low high : Node) :
    (rangeTest negated anyOrder arg low high).pieces
      = predicatePieces Level.predicate
        (negatedWords negated (if anyOrder then [.BETWEEN, .SYMMETRIC] else [.BETWEEN]))
        ⟨arg.level, arg.pieces⟩ (boundsPieces ⟨low.level, low.pieces⟩ ⟨high.level, high.pieces⟩) := by
  cases negated <;> cases anyOrder <;> simp only [rangeTest, Node.operation_pieces] <;>
    simp [operand?, rightOperand?, operationPieces, rangePieces, rangeForm, isRangeTest]

namespace IsOperator

variable {op : String} (h : IsOperator op)

include h

theorem isSettled : (operatorKind op).isSettled = true := by
  have hop := h.spelled
  revert hop
  cases operatorKind op <;> simp [TokenKind.operator?, TokenKind.isSettled]

theorem ofInfix? : Level.ofInfix? (operatorKind op) = some (Level.ofOperator op) := by
  have hop := h.spelled
  unfold operatorKind at hop ⊢
  split at hop <;> first
    | rfl
    | (simp [TokenKind.operator?] at hop; done)
    | simp_all [Level.ofInfix?, Level.ofOperator]

theorem operation_eq (l : Node) (level : Level) :
    operation (operatorKind op) level l = binaryOperation op level l := by
  have hop := h.spelled
  revert hop
  cases operatorKind op <;> rintro ⟨⟩ <;> rfl

theorem ne_at : operatorKind op ≠ .keyword .AT := by
  intro hat
  have hop := h.spelled
  rw [hat] at hop
  cases hop

/-- The operators in front of an operand. -/
theorem ofSign?_cases {level : Level} (hlevel : Level.ofSign? (operatorKind op) = some level) :
    operatorKind op = .minus ∧ op = "-" ∨ operatorKind op = .plus ∧ op = "+"
      ∨ operatorKind op = .op op := by
  have hop := h.spelled
  revert hlevel
  revert hop
  cases operatorKind op <;> rintro ⟨⟩ <;> rintro ⟨⟩ <;> simp

end IsOperator

namespace Grammar

open SqlSyntax.Parser (bind_eq)

/-! ### Operators -/

theorem withAll?_of_opensOperand {k : TokenKind} (h : k.opensOperand = true) : withAll? k = none := by
  unfold withAll?
  split <;> first | rfl | exact absurd h (by decide)

theorem ofOperator_lt (op : String) : Level.ofOperator op < Level.primary := by
  unfold Level.ofOperator
  repeat' split
  all_goals decide

/-- An operator between two operands. -/
theorem leads_binary {op : String} (hop : IsOperator op) (hl : l.Leads) (hr : r.Leads) :
    (Node.operation .op op (some l) (some r)).Leads := by
  obtain ⟨levelL, hlevelL, hl⟩ := hl.left _ (ofOperator_lt op)
  obtain ⟨levelR, hlevelR, hr⟩ := hr.tight _ (ofOperator_lt op)
  have hkinds : (Node.operation .op op (some l) (some r)).kinds
      = kindsOf ((Operand.mk l.level l.pieces).left (Level.ofOperator op))
        ++ operatorKind op :: kindsOf ((Operand.mk r.level r.pieces).tight (Level.ofOperator op)) := by
    rw [Node.kinds, pieces_operation rfl rfl]
    simp [binaryPieces]
  rw [Node.Leads, hkinds]
  refine hl.extend hlevelL (fun rest => before_eq hop.isSettled _) hop.ofInfix?
    (fun hat => absurd hat hop.ne_at) fun depth rest hrest => ?_
  have hfollows := hrest.mono (Nat.le_of_lt hlevelR)
  rw [hop.operation_eq]
  simp only [binaryOperation, bind_eq, reads_kind_bind,
    withAll?_of_opensOperand (hr.starts hfollows).1]
  exact Parser.readsWith_bind (hr.reads hlevelR hfollows hrest.stops) ⟨rfl, rfl⟩

/-- A comparison with all or any. -/
theorem leads_quantified {op : String} (all : Bool) (hop : IsOperator op) (hl : l.Leads)
    (hr : r.Leads) :
    (Node.operation (if all then .opAll else .opAny) op (some l) (some r)).Leads := by
  obtain ⟨levelL, hlevelL, hl⟩ := hl.left _ (ofOperator_lt op)
  have hkinds : (Node.operation (if all then .opAll else .opAny) op (some l) (some r)).kinds
      = kindsOf ((Operand.mk l.level l.pieces).left (Level.ofOperator op))
        ++ operatorKind op :: .keyword (if all then .ALL else .ANY) :: .leftParen
          :: (r.kinds ++ [TokenKind.rightParen]) := by
    rw [Node.kinds, pieces_operation (by cases all <;> rfl) (by cases all <;> rfl)]
    cases all <;> simp [binaryPieces, Node.kinds]
  have hlevel : (Node.operation (if all then .opAll else .opAny) op (some l) (some r)).level
      = Level.ofOperator op := by
    cases all <;> rfl
  rw [Node.Leads, hkinds, hlevel]
  refine hl.extend hlevelL (fun rest => before_eq hop.isSettled _) hop.ofInfix?
    (fun hat => absurd hat hop.ne_at) fun depth rest hrest => ?_
  have hquery := startsQuery_of_opensOperand (hr.starts (follows_rightParen rest)).1
  have hread : Parser.Reads depth _ _ _ _ := hr.reads_expression (follows_rightParen rest)
  rw [hop.operation_eq]
  have hall : withAll? (.keyword (if all then .ALL else .ANY)) = some all := by
    cases all <;> rfl
  have hsettle : settle (TokenKind.keyword (if all then .ALL else .ANY) :: .leftParen
      :: (r.kinds ++ [TokenKind.rightParen]) ++ rest)
      = TokenKind.keyword (if all then .ALL else .ANY) :: .leftParen
        :: settle (r.kinds ++ TokenKind.rightParen :: rest) := by
    cases all <;> simp [TokenKind.before]
  rw [hsettle]
  simp only [binaryOperation, bind_eq, reads_kind_bind, firstOf_cons, hall, reads_isBefore_bind,
    secondOf_cons, decide_true, if_true, reads_skip_bind, List.tail_cons]
  refine reads_parenthesized ?_
  simp only [quantifiedBody, bind_eq, reads_kind_bind, hquery, Bool.false_eq_true, if_false]
  refine Parser.readsWith_bind hread ?_
  rw [settle_cons, before_eq rfl]
  cases all <;> exact ⟨rfl, rfl⟩

/-! ### Tests -/

/-- `IS DISTINCT FROM`. -/
theorem leads_distinct (negated : Bool) (hl : l.Leads) (hr : r.Leads) :
    (Node.operation (if negated then .notDistinct else .distinct) "=" (some l) (some r)).Leads := by
  obtain ⟨levelL, hlevelL, hl⟩ := hl.tight Level.is (by decide)
  obtain ⟨levelR, hlevelR, hr⟩ := hr.tight Level.is (by decide)
  have hkinds : (Node.operation (if negated then .notDistinct else .distinct) "=" (some l)
      (some r)).kinds
      = kindsOf ((Operand.mk l.level l.pieces).tight Level.is)
        ++ TokenKind.keyword .IS :: ((if negated then [TokenKind.keyword .NOT] else [])
          ++ TokenKind.keyword .DISTINCT
          :: .keyword .FROM :: kindsOf ((Operand.mk r.level r.pieces).tight Level.is)) := by
    rw [Node.kinds, pieces_operation (by cases negated <;> rfl) (by cases negated <;> rfl)]
    cases negated <;> simp [binaryPieces, predicatePieces]
  have hlevel : (Node.operation (if negated then .notDistinct else .distinct) "=" (some l)
      (some r)).level = Level.is := by
    cases negated <;> rfl
  rw [Node.Leads, hkinds, hlevel]
  refine hl.extend (Nat.le_of_lt hlevelL) (k := .keyword .IS) (fun rest => by simp) rfl nofun
    fun depth rest hrest => ?_
  have hread : Parser.Reads depth _ _ _ _ := hr.reads hlevelR (hrest.mono (Nat.le_of_lt hlevelR)) hrest.stops
  cases negated <;>
    simp only [operation, test, distinction, Bool.false_eq_true, if_false, if_true, List.nil_append,
      List.cons_append, settle_cons, before_keyword] <;>
    simp [TokenKind.keyword?, aheadKind] <;>
    exact Parser.readsWith_bind hread ⟨rfl, rfl⟩

/-- `IS NULL`. -/
theorem leads_nullTest (negated : Bool) (harg : arg.Leads) : (Node.nullTest arg negated).Leads := by
  obtain ⟨level, hlevel, harg⟩ := harg.tight Level.is (by decide)
  have hkinds : (Node.nullTest arg negated).kinds
      = kindsOf ((Operand.mk arg.level arg.pieces).tight Level.is)
        ++ TokenKind.keyword .IS :: ((if negated then [TokenKind.keyword .NOT] else [])
          ++ [TokenKind.keyword .NULL]) := by
    rw [Node.kinds, Node.nullTest_pieces]
    cases negated <;> simp
  rw [Node.Leads, hkinds]
  refine harg.extend (Nat.le_of_lt hlevel) (k := .keyword .IS) (fun rest => by simp) rfl nofun
    fun depth rest hrest => ?_
  cases negated <;> simp [operation, test, TokenKind.keyword?, aheadKind]

/-- `IS TRUE`, `IS FALSE` and `IS UNKNOWN`. -/
theorem leads_truthTest (truth : Truth) (negated : Bool) (harg : arg.Leads) :
    (Node.truthTest arg truth negated).Leads := by
  obtain ⟨level, hlevel, harg⟩ := harg.tight Level.is (by decide)
  have hkinds : (Node.truthTest arg truth negated).kinds
      = kindsOf ((Operand.mk arg.level arg.pieces).tight Level.is)
        ++ TokenKind.keyword .IS :: ((if negated then [TokenKind.keyword .NOT] else [])
          ++ [TokenKind.keyword truth.word]) := by
    rw [Node.kinds, Node.truthTest_pieces]
    cases negated <;> simp
  rw [Node.Leads, hkinds]
  refine harg.extend (Nat.le_of_lt hlevel) (k := .keyword .IS) (fun rest => by simp) rfl nofun
    fun depth rest hrest => ?_
  cases negated <;> cases truth <;>
    simp [operation, test, TokenKind.keyword?, aheadKind, Truth.word, truthOf?]

/-! ### Predicates in words -/

/-- A predicate, which may have `NOT` in front, behind its first operand. -/
theorem leads_predicate {p : Predicate} {w : Keyword} (hw : Predicate.ofWord? w = some p)
    (harg : arg.Leads) (negated : Bool) {more : List TokenKind} {n' : Node}
    (hread : ∀ depth rest, Follows Level.predicate rest →
      (predicate negated arg p).Reads depth (settle (more ++ rest)) n' (settle rest)) :
    Leads (kindsOf ((Operand.mk arg.level arg.pieces).tight Level.predicate)
      ++ ((if negated then [.keyword .NOT] else []) ++ .keyword w :: more)) Level.predicate n' := by
  obtain ⟨level, hlevel, harg⟩ := harg.tight Level.predicate (by decide)
  have hword : w = Keyword.BETWEEN ∨ w = Keyword.IN ∨ w = Keyword.LIKE ∨ w = Keyword.ILIKE
      ∨ w = Keyword.SIMILAR := by
    unfold Predicate.ofWord? at hw
    split at hw <;> simp at hw ⊢
  have hsettle : ∀ rest, settle (.keyword w :: (more ++ rest))
    = TokenKind.keyword w :: settle (more ++ rest) := by
    intro rest
    rcases hword with rfl | rfl | rfl | rfl | rfl <;> simp
  cases negated with
  | false =>
    refine harg.extend (Nat.le_of_lt hlevel) (k := .keyword w)
      (fun rest => (List.cons.inj (hsettle rest)).1) ?_ ?_ fun depth rest hrest => ?_
    · rcases hword with rfl | rfl | rfl | rfl | rfl <;> rfl
    · rcases hword with rfl | rfl | rfl | rfl | rfl <;> nofun
    · have hread := hread depth rest hrest
      rcases hword with rfl | rfl | rfl | rfl | rfl <;> cases hw <;> exact hread
  | true =>
    refine harg.extend (Nat.le_of_lt hlevel) (k := .notAhead) (fun rest => ?_) rfl nofun
      fun depth rest hrest => ?_
    · rcases hword with rfl | rfl | rfl | rfl | rfl <;> rfl
    · have hread := hread depth rest hrest
      change (operation .notAhead _ arg).Reads depth (settle (.keyword w :: (more ++ rest))) _ _
      rw [hsettle]
      simp only [operation, negatedPredicate, bind_eq, reads_kind_bind, firstOf_cons,
        TokenKind.keyword?, Option.bind_some, hw, reads_skip_bind, List.tail_cons]
      exact hread

/-- `IN` with a list. -/
theorem leads_inList {items : List Node} (negated : Bool) (harg : arg.Leads) (hne : items ≠ [])
    (hitems : ∀ n ∈ items, n.Leads) :
    (Node.operation .inList (if negated then "<>" else "=") (some arg)
      (some (.list items))).Leads := by
  have hkinds : (Node.operation .inList (if negated then "<>" else "=") (some arg)
      (some (.list items))).kinds
      = kindsOf ((Operand.mk arg.level arg.pieces).tight Level.predicate)
        ++ ((if negated then [TokenKind.keyword .NOT] else []) ++ TokenKind.keyword .IN
          :: .leftParen :: (commaKinds (items.map Node.kinds) ++ [TokenKind.rightParen])) := by
    rw [Node.kinds, pieces_operation rfl rfl, binaryPieces, predicatePieces, Node.list_pieces]
    have hname : isNegatedName (if negated then "<>" else "=") = negated := by
      cases negated <;> decide
    rw [hname]
    cases negated <;> simp [negatedWords, ← kindsOf_commas_nodesPieces]
  rw [Node.Leads, hkinds]
  refine leads_predicate (p := .inList) rfl harg negated fun depth rest hrest => ?_
  have hfollows : Follows 0 (.rightParen :: rest) := follows_rightParen _
  have hread : Parser.Reads depth _ _ _ _ :=
    reads_expressions hne hitems hfollows (rightParen_ne_comma rest)
  have hquery := startsQuery_of_opensOperand (starts_expressions hne hitems hfollows)
  rw [List.cons_append, settle_cons, before_eq rfl, List.append_assoc, List.singleton_append]
  refine reads_parenthesized ?_
  simp only [inBody, bind_eq, reads_kind_bind, hquery, Bool.false_eq_true, if_false]
  exact Parser.readsWith_bind hread ⟨rfl, rfl⟩

/-- `BETWEEN`. -/
theorem leads_range {low high : Node} (negated anyOrder : Bool) (harg : arg.Leads)
    (hlow : low.Leads) (hhigh : high.Leads) : (rangeTest negated anyOrder arg low high).Leads := by
  obtain ⟨levelLow, hlevelLow, hlow⟩ := hlow.tight Level.predicate (by decide)
  obtain ⟨levelHigh, hlevelHigh, hhigh⟩ := hhigh.tight Level.predicate (by decide)
  have hkinds : (rangeTest negated anyOrder arg low high).kinds
      = kindsOf ((Operand.mk arg.level arg.pieces).tight Level.predicate)
        ++ ((if negated then [TokenKind.keyword .NOT] else []) ++ TokenKind.keyword .BETWEEN
          :: ((if anyOrder then [TokenKind.keyword .SYMMETRIC] else [])
            ++ (kindsOf ((Operand.mk low.level low.pieces).tight Level.predicate)
              ++ TokenKind.keyword .AND
                :: kindsOf ((Operand.mk high.level high.pieces).tight Level.predicate)))) := by
    rw [Node.kinds, pieces_rangeTest]
    cases negated <;> cases anyOrder <;> simp [predicatePieces, boundsPieces, negatedWords]
  have hlevel : (rangeTest negated anyOrder arg low high).level = Level.predicate := by
    cases negated <;> cases anyOrder <;> rfl
  rw [Node.Leads, hkinds, hlevel]
  refine leads_predicate (p := .between) rfl harg negated fun depth rest hrest => ?_
  have hand : ∀ ts, settle (.keyword .AND :: ts)
    = TokenKind.keyword .AND :: settle ts := fun ts => by simp
  have hfollows : Follows levelLow (.keyword .AND
      :: (kindsOf ((Operand.mk high.level high.pieces).tight Level.predicate) ++ rest)) :=
    follows_of_tailLevel rfl rfl (Nat.le_trans (by decide) (Nat.le_of_lt hlevelLow))
  have hreadLow : Parser.Reads depth _ _ _ _ := hlow.reads hlevelLow hfollows (by
    intro l hl
    rw [hand] at hl
    cases hl
    decide)
  have hreadHigh : Parser.Reads depth _ _ _ _ := hhigh.reads hlevelHigh (hrest.mono (Nat.le_of_lt hlevelHigh))
    hrest.stops
  have hstarts := (hlow.starts hfollows).1
  have hsymmetric := opensOperand_ne hstarts (.keyword .SYMMETRIC) rfl
  have hasymmetric := opensOperand_ne hstarts (.keyword .ASYMMETRIC) rfl
  cases anyOrder <;>
    simp only [predicate, between, symmetric, bind_eq, Parser.pure_eq, reads_bind_bind, reads_acceptWord_bind,
      reads_skipWord_bind, reads_done_bind, if_true, if_false, Bool.false_eq_true, List.nil_append,
      List.append_assoc, List.cons_append, hsymmetric, hasymmetric, settle_cons, before_keyword,
      firstOf_cons, List.tail_cons]
  all_goals
    refine Parser.readsWith_bind hreadLow ?_
    rw [hand]
    simp only [reads_expectWord_bind, firstOf_cons, List.tail_cons, true_and]
    exact Parser.readsWith_bind hreadHigh ⟨rfl, rfl⟩

/-! ### Pattern matches -/

/-- The pattern of a match with its escape character, as it is written. -/
def patternKinds (pattern : Node) (escape : Option Node) : List TokenKind :=
  kindsOf (patternPieces ⟨pattern.level, pattern.pieces⟩ (operand? escape))

/-- The pattern of a match is read back. -/
theorem reads_patternMatch (m : PatternMatch) (negated : Bool) {pattern : Node}
    {escape : Option Node} (hpattern : pattern.Leads) (hescape : ∀ e ∈ escape, e.Leads)
    (hrest : Follows Level.predicate rest) :
    (patternMatch m negated arg).Reads depth (settle (patternKinds pattern escape ++ rest))
      (.operation m.kind (if negated then m.negatedOp else m.op) (some arg)
        (some (m.pattern pattern escape))) (settle rest) := by
  obtain ⟨level, hlevel, hpattern⟩ := hpattern.tight Level.predicate (by decide)
  unfold patternMatch patternKinds patternPieces
  cases escape with
  | none =>
    have hread : Parser.Reads depth _ _ _ _ := hpattern.reads hlevel (hrest.mono (Nat.le_of_lt hlevel))
      hrest.stops
    obtain ⟨l, hl, htail⟩ := hrest
    have hword : firstOf (settle rest) ≠ TokenKind.keyword .ESCAPE := by
      intro heq
      rw [heq] at htail
      cases htail
      exact absurd hl (by decide)
    rw [operand?, Option.elim_none, List.append_nil]
    refine Parser.readsWith_bind hread ?_
    exact Parser.readsWith_bind (reads_after_none hword) ⟨rfl, rfl⟩
  | some e =>
    obtain ⟨levelE, hlevelE, hescape⟩ := (hescape e rfl).tight Level.predicate (by decide)
    have hword : ∀ ts, settle (.keyword .ESCAPE :: ts) = TokenKind.keyword .ESCAPE :: settle ts :=
      fun ts => by simp
    have hfollows : ∀ ts, Follows level (.keyword .ESCAPE :: ts) :=
      fun ts => follows_of_tailLevel rfl rfl hlevel
    have hstops : ∀ ts, Stops Level.predicate (.keyword .ESCAPE :: ts) := by
      intro ts l hl
      rw [hword] at hl
      cases hl
    have hreadE : Parser.Reads depth _ _ _ _ := hescape.reads hlevelE (hrest.mono (Nat.le_of_lt hlevelE))
      hrest.stops
    rw [operand?, Option.elim_some, kindsOf_append, List.append_assoc]
    simp only [kindsOf_cons, kinds_gap, kinds_word, List.nil_append, List.cons_append]
    refine Parser.readsWith_bind (hpattern.reads hlevel (hfollows _) (hstops _)) ?_
    rw [hword]
    exact Parser.readsWith_bind (reads_after hreadE) ⟨rfl, rfl⟩

theorem pieces_matched {m : PatternMatch} (hm : m = .like ∨ m = .ilike ∨ m = .similar)
    (negated : Bool) {pattern : Node} (escape : Option Node)
    (hcall : isEscapeCall m.kind pattern = false) :
    (Node.operation m.kind (if negated then m.negatedOp else m.op) (some arg)
      (some (m.pattern pattern escape))).pieces
      = predicatePieces Level.predicate
        (negatedWords negated ((matchForm? m.kind).elim [] Prod.fst)) ⟨arg.level, arg.pieces⟩
        (patternPieces ⟨pattern.level, pattern.pieces⟩ (operand? escape)) := by
  have hname : isNegatedName (if negated then m.negatedOp else m.op) = negated := by
    rcases hm with rfl | rfl | rfl <;> cases negated <;> decide
  have hpieces : ∀ name,
      (Node.operation m.kind name (some arg) (some (m.pattern pattern escape))).pieces
        = matchPieces m.kind name ⟨arg.level, arg.pieces⟩
          (patternPieces ⟨pattern.level, pattern.pieces⟩ (operand? escape)) := by
    intro name
    rw [Node.operation_pieces, operand?, Option.isSome_some]
    cases escape with
    | some e => rcases hm with rfl | rfl | rfl <;> rfl
    | none =>
      rw [operand?, patternPieces, Option.elim_none, List.append_nil]
      rcases hm with rfl | rfl | rfl
      · rw [show PatternMatch.like.pattern pattern none = pattern from rfl,
          rightOperand?_whole rfl hcall]
        rfl
      · rw [show PatternMatch.ilike.pattern pattern none = pattern from rfl,
          rightOperand?_whole rfl hcall]
        rfl
      · exact congrArg (matchPieces _ _ _) (List.append_nil _)
  rw [hpieces, matchPieces, hname]

/-- `LIKE`, `ILIKE` and `SIMILAR TO`.  A pattern that is the call for a pattern with an
escape character would be written as one. -/
theorem leads_matched {m : PatternMatch} (hm : m = .like ∨ m = .ilike ∨ m = .similar)
    (negated : Bool) {pattern : Node} {escape : Option Node} (harg : arg.Leads)
    (hpattern : pattern.Leads) (hcall : isEscapeCall m.kind pattern = false)
    (hescape : ∀ e ∈ escape, e.Leads) :
    (Node.operation m.kind (if negated then m.negatedOp else m.op) (some arg)
      (some (m.pattern pattern escape))).Leads := by
  have hread : ∀ depth rest, Follows Level.predicate rest →
      (patternMatch m negated arg).Reads depth (settle (patternKinds pattern escape ++ rest)) _
        (settle rest) :=
    fun _ _ => reads_patternMatch m negated hpattern hescape
  have hpieces : (Node.operation m.kind _ (some arg) _).pieces = _ :=
    pieces_matched hm negated escape hcall
  have hkinds := congrArg kindsOf hpieces
  have hlevel : (Node.operation m.kind (if negated then m.negatedOp else m.op) (some arg)
      (some (m.pattern pattern escape))).level = Level.predicate := by
    rcases hm with rfl | rfl | rfl <;> rfl
  rw [Node.Leads, Node.kinds, hkinds, hlevel, kindsOf_predicatePieces]
  rcases hm with rfl | rfl | rfl
  · have hleads := leads_predicate (p := .like) (w := .LIKE) rfl harg negated hread
    cases negated <;> exact hleads
  · have hleads := leads_predicate (p := .ilike) (w := .ILIKE) rfl harg negated hread
    cases negated <;> exact hleads
  · have hsimilar : ∀ depth rest, Follows Level.predicate rest →
        (predicate negated arg .similar).Reads depth
          (settle (TokenKind.keyword .TO :: patternKinds pattern escape ++ rest)) _ (settle rest) :=
      fun depth rest hrest => by
        simp only [predicate, bind_eq, reads_expectWord_bind, List.cons_append, settle_cons,
          before_keyword]
        simpa using hread depth rest hrest
    have hleads := leads_predicate (p := .similar) (w := .SIMILAR) rfl harg negated hsimilar
    cases negated <;> exact hleads

/-! ### Operators in front -/

/-- Only the words of predicates give `NOT` another meaning. -/
theorem before_not {ts : List TokenKind} (h : (firstOf (settle ts)).opensOperand = true) :
    (TokenKind.keyword .NOT).before (firstOf ts) = .keyword .NOT := by
  cases ts with
  | nil => rfl
  | cons k ts =>
    cases k with
    | keyword w =>
      rw [settle_cons, firstOf_cons] at h
      change aheadKind .NOT (some w) = _
      unfold aheadKind
      split <;> first
        | rfl
        | (simp only [Option.some.injEq, reduceCtorEq] at *; done)
        | (simp only [Option.some.injEq] at *
           subst_vars
           rw [before_eq rfl] at h
           exact absurd h (by decide))
    | _ => rfl

/-- `NOT` as it is written. -/
theorem pieces_negation (arg : Node) : (Node.negation arg).pieces
    = .word .NOT :: .gap :: (Operand.mk arg.level arg.pieces).tight Level.not := by
  rw [Node.negation, Node.junction_pieces]
  simp [junctionPieces, operands]

/-- `NOT`. -/
theorem leads_negation (harg : arg.Leads) : (Node.negation arg).Leads := by
  obtain ⟨level, hlevel, harg⟩ := harg.tight Level.not (by decide)
  have hkinds : (Node.negation arg).kinds
      = TokenKind.keyword .NOT :: kindsOf ((Operand.mk arg.level arg.pieces).tight Level.not) := by
    rw [Node.kinds, pieces_negation]
    simp
  rw [Node.Leads, hkinds]
  refine Leads.operand fun depth rest hrest => ?_
  have hfollows : Follows level rest := hrest.mono (Nat.le_of_lt hlevel)
  have hread : Parser.Reads depth _ _ _ _ := harg.reads hlevel hfollows hrest.stops
  have hstarts := (harg.starts hfollows).1
  rw [List.cons_append, settle_cons, before_not hstarts]
  refine ⟨rfl, marksArgument_of_opensOperand hstarts, ?_, nofun⟩
  simp only [leftOperand, bind_eq, reads_kind_bind, firstOf_cons, Level.ofSign?, reads_skip_bind,
    List.tail_cons]
  exact Parser.readsWith_bind hread ⟨rfl, rfl⟩

theorem ofPrefix_lt (op : String) : Level.ofPrefix op < Level.primary := by
  unfold Level.ofPrefix
  split <;> decide

/-- An operator in front of an operand. -/
theorem leads_prefixed {op : String} (hop : IsOperator op)
    (hlevel : Level.ofSign? (operatorKind op) = some (Level.ofPrefix op)) (harg : arg.Leads)
    (hnegate : op = "-" → Node.negate arg = Node.prefixed "-" arg) :
    (Node.prefixed op arg).Leads := by
  obtain ⟨level, hlt, harg⟩ := harg.tight _ (ofPrefix_lt op)
  have hkinds : (Node.prefixed op arg).kinds = operatorKind op
      :: kindsOf ((Operand.mk arg.level arg.pieces).tight (Level.ofPrefix op)) := by
    rw [Node.kinds, Node.prefixed, Node.operation_pieces]
    change kindsOf (prefixedPieces op ⟨arg.level, arg.pieces⟩) = _
    unfold prefixedPieces Level.ofPrefix
    split <;> simp
  rw [Node.Leads, hkinds]
  change Leads _ (Level.ofPrefix op) _
  refine Leads.operand fun depth rest hrest => ?_
  have hfollows : Follows level rest := hrest.mono (Nat.le_of_lt hlt)
  have hread : Parser.Reads depth _ _ _ _ := harg.reads hlt hfollows hrest.stops
  have hstarts := (harg.starts hfollows).1
  rw [List.cons_append, settle_cons, before_eq hop.isSettled]
  have hkind := hop.ofSign?_cases hlevel
  refine ⟨?_, marksArgument_of_opensOperand hstarts, ?_, ?_⟩
  · rcases hkind with ⟨hkind, -⟩ | ⟨hkind, -⟩ | hkind <;> rw [hkind] <;> rfl
  · have hsigned : signed (operatorKind op) arg = Node.prefixed op arg := by
      rcases hkind with ⟨hkind, rfl⟩ | ⟨hkind, rfl⟩ | hkind <;> rw [hkind]
      · exact hnegate rfl
      · rfl
      · rfl
    simp only [leftOperand, bind_eq, reads_kind_bind, firstOf_cons, hlevel, reads_skip_bind,
      List.tail_cons]
    exact Parser.readsWith_bind hread ⟨hsigned, rfl⟩
  · rcases hkind with ⟨hkind, -⟩ | ⟨hkind, -⟩ | hkind <;> rw [hkind] <;> simp

/-! ### Connectives -/

/-- The keyword of a connective between operands. -/
def Junction.mark : Junction → Keyword
  | .or => .OR
  | _ => .AND

/-- The level of a connective between operands. -/
def Junction.level : Junction → Level
  | .or => Level.or
  | _ => Level.and

/-- A further operand of a connective, as it is written. -/
def joinedKinds (op : Junction) (n : Node) : List TokenKind :=
  .keyword (Junction.mark op) :: kindsOf ((Operand.mk n.level n.pieces).tight (Junction.level op))

theorem leads_joined {op : Junction} (hop : op ≠ .not) {level : Level} {w : List TokenKind}
    (hlevel : Junction.level op ≤ level) (hl : Leads w level l) (hr : r.Leads) :
    Leads (w ++ joinedKinds op r) (Junction.level op) (Node.joined op l r) := by
  obtain ⟨levelR, hlevelR, hr⟩ := hr.tight (Junction.level op) (by cases op <;> decide)
  have hoperation : operation (.keyword (Junction.mark op)) (Junction.level op) l
      = (operand (Junction.level op)).bind fun r => .done (Node.joined op l r) := by
    cases op with
    | not => exact absurd rfl hop
    | and => rfl
    | or => rfl
  refine hl.extend hlevel (k := .keyword (Junction.mark op)) (fun rest => ?_) ?_ ?_
    fun depth rest hrest => ?_
  · cases op <;> exact before_eq rfl _
  · cases op <;> rfl
  · cases op <;> nofun
  · have hread : Parser.Reads depth _ _ _ _ :=
      hr.reads hlevelR (hrest.mono (Nat.le_of_lt hlevelR)) hrest.stops
    rw [hoperation]
    exact Parser.readsWith_bind hread ⟨rfl, rfl⟩

/-- Further operands are read one after the other. -/
theorem leads_foldl_joined {op : Junction} (hop : op ≠ .not) {w : List TokenKind}
    (hl : Leads w (Junction.level op) l) (more : List Node) (hmore : ∀ n ∈ more, n.Leads) :
    Leads (w ++ more.flatMap (joinedKinds op)) (Junction.level op) (more.foldl (Node.joined op) l) := by
  induction more generalizing w l with
  | nil => simpa using hl
  | cons r more ih =>
    have hjoined := leads_joined hop (Nat.le_refl _) hl (hmore r List.mem_cons_self)
    rw [List.flatMap_cons, ← List.append_assoc, List.foldl_cons]
    exact ih hjoined fun n hn => hmore n (List.mem_cons_of_mem r hn)

theorem foldl_joined (op : Junction) (args more : List Node) :
    more.foldl (Node.joined op) (.junction op args) = .junction op (args ++ more) := by
  induction more generalizing args with
  | nil => rw [List.append_nil]; rfl
  | cons n more ih =>
    rw [List.foldl_cons, Node.joined, if_pos rfl, ih, List.append_assoc]
    rfl

theorem joined_eq {op : Junction} (h : ∀ args, l ≠ .junction op args) (r : Node) :
    Node.joined op l r = .junction op [l, r] := by
  unfold Node.joined
  split
  · next op' args =>
    rw [if_neg]
    rintro rfl
    exact h args rfl
  · rfl

theorem operands_eq (ns : List Node) : operands ns = ns.map fun n => ⟨n.level, n.pieces⟩ := by
  induction ns with
  | nil => rfl
  | cons n ns ih => rw [operands, ih, List.map_cons]

/-- Operands joined by `AND` or `OR` as they are written. -/
theorem pieces_junction {op : Junction} (hop : op ≠ .not) (first : Node) (more : List Node) :
    (Node.junction op (first :: more)).pieces
      = (Operand.mk first.level first.pieces).loose (Junction.level op)
        ++ more.flatMap fun n => .gap :: .word (Junction.mark op) :: .gap
          :: (Operand.mk n.level n.pieces).tight (Junction.level op) := by
  rw [Node.junction_pieces, operands, operands_eq]
  cases op with
  | not => exact absurd rfl hop
  | and | or =>
    simp only [junctionPieces, List.flatMap_map]
    rfl

/-- Operands joined by `AND` or `OR`. -/
theorem leads_junction {op : Junction} (hop : op ≠ .not) {first : Node} {more : List Node}
    (hne : more ≠ []) (hflat : ∀ args, first ≠ .junction op args) (hfirst : first.Leads)
    (hmore : ∀ n ∈ more, n.Leads) : (Node.junction op (first :: more)).Leads := by
  obtain ⟨level, hlevel, hfirst⟩ := hfirst.loose (Junction.level op) (by cases op <;> decide)
  have hkinds : (Node.junction op (first :: more)).kinds
      = kindsOf ((Operand.mk first.level first.pieces).loose (Junction.level op))
        ++ more.flatMap (joinedKinds op) := by
    rw [Node.kinds, pieces_junction hop]
    simp only [kindsOf, List.flatMap_append, List.flatMap_assoc]
    rfl
  have hlevel' : (Node.junction op (first :: more)).level = Junction.level op := by
    cases op with
    | not => exact absurd rfl hop
    | and | or => rfl
  rw [Node.Leads, hkinds, hlevel']
  cases more with
  | nil => exact absurd rfl hne
  | cons second more =>
    have hjoined := leads_joined hop hlevel hfirst (hmore second List.mem_cons_self)
    have hleads := leads_foldl_joined hop hjoined more fun n hn =>
      hmore n (List.mem_cons_of_mem second hn)
    rw [joined_eq hflat, foldl_joined] at hleads
    simpa [List.append_assoc] using hleads

/-! ### Operators behind an operand -/

/-- `AT TIME ZONE` as it is written. -/
theorem pieces_timeZone (zone source : Node) :
    (Node.call (Call.system "timezone" [zone, source])).pieces
      = (Operand.mk source.level source.pieces).loose Level.timeZone ++ .gap :: words [.AT, .TIME, .ZONE]
        ++ .gap :: (Operand.mk zone.level zone.pieces).tight Level.timeZone := by
  rw [Node.call_pieces, Call.system, Call.pieces]
  rfl

/-- `AT TIME ZONE`. -/
theorem leads_timeZone {zone source : Node} (hzone : zone.Leads) (hsource : source.Leads) :
    (Node.call (Call.system "timezone" [zone, source])).Leads := by
  obtain ⟨levelS, hlevelS, hsource⟩ := hsource.loose Level.timeZone (by decide)
  obtain ⟨levelZ, hlevelZ, hzone⟩ := hzone.tight Level.timeZone (by decide)
  have hkinds : (Node.call (Call.system "timezone" [zone, source])).kinds
      = kindsOf ((Operand.mk source.level source.pieces).loose Level.timeZone)
        ++ TokenKind.keyword .AT :: .keyword .TIME :: .keyword .ZONE
          :: kindsOf ((Operand.mk zone.level zone.pieces).tight Level.timeZone) := by
    rw [Node.kinds, pieces_timeZone]
    simp
  rw [Node.Leads, hkinds]
  change Leads _ Level.timeZone _
  refine hsource.extend hlevelS (k := .keyword .AT) (fun rest => by simp) rfl (fun _ rest => by simp)
    fun depth rest hrest => ?_
  have hread : Parser.Reads depth _ _ _ _ :=
    hzone.reads hlevelZ (hrest.mono (Nat.le_of_lt hlevelZ)) hrest.stops
  have hsettle : ∀ ts, settle (.keyword .TIME :: .keyword .ZONE :: ts)
      = TokenKind.keyword .TIME :: .keyword .ZONE :: settle ts := fun ts => by simp
  rw [List.cons_append, List.cons_append, hsettle]
  simp only [operation, bind_eq, reads_expectWord_bind, firstOf_cons, List.tail_cons, true_and]
  exact Parser.readsWith_bind hread ⟨rfl, rfl⟩

/-- `COLLATE`. -/
theorem leads_collate {names : List String} (harg : arg.Leads) (hne : names ≠ []) :
    (Node.collate arg names).Leads := by
  obtain ⟨level, hlevel, harg⟩ := harg.loose Level.collate (by decide)
  have hkinds : (Node.collate arg names).kinds
      = kindsOf ((Operand.mk arg.level arg.pieces).loose Level.collate)
        ++ TokenKind.keyword .COLLATE :: dottedKinds names := by
    rw [Node.kinds, Node.collate_pieces]
    simp
  rw [Node.Leads, hkinds]
  refine harg.extend hlevel (k := .keyword .COLLATE) (fun rest => by simp) rfl nofun
    fun depth rest hrest => ?_
  exact Parser.readsWith_bind (reads_dottedName hne hrest.isNeutral (hrest.ne rfl)) ⟨rfl, rfl⟩

end Grammar

end SqlSyntax
