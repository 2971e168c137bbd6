import SqlSyntax.Proofs.Grammar.ReadingNames

/-!
# Leading operands

An expression is read from its leftmost operand on, with one operator after the
other.  The operators are read as far as the level of what follows allows, so an
expression that is written can be read back if its level fits the place where it
stands.

## Main definitions

* `TokenKind.tailLevel`, `TokenKind.endLevel`, `Follows` — what may stand behind an expression.
* `StartsWith` — an operand is read at the start of some tokens.
* `Leads` — an expression is read from its leading operand.

## Main results

* `Leads.extend` — a further operator behind an expression.
* `Leads.reads` — **an expression is read back as an operand**.
* `Leads.enclosed` — an expression in parentheses.
* `Leads.tight`, `Leads.loose` — operands with the parentheses that they need.
-/

namespace SqlSyntax

variable {depth : Nat} {rest w : List TokenKind} {level above : Level} {n n' : Node}
variable {R : (r : Rule) → List TokenKind → r.Result → List TokenKind → Prop}

/-! ### What follows -/

/-- The level of a token behind an expression: that of an operator, or that of a
token that ends the expression. -/
def TokenKind.tailLevel : TokenKind → Option Level
  | .rightParen | .rightBracket | .comma | .eof | .nullsAhead => some 0
  | .keyword .WHEN | .keyword .THEN | .keyword .ELSE | .keyword .END | .keyword .AS
  | .keyword .ASC | .keyword .DESC | .keyword .USING | .keyword .ORDER | .keyword .LIMIT
  | .keyword .OFFSET | .keyword .FETCH | .keyword .ROWS | .keyword .FOR | .keyword .UNION
  | .keyword .INTERSECT | .keyword .EXCEPT | .keyword .JOIN | .keyword .CROSS | .keyword .NATURAL
  | .keyword .LEFT | .keyword .RIGHT | .keyword .FULL | .keyword .ON => some 0
  | .keyword .ESCAPE => some (Level.predicate + 1)
  | k => Level.ofInfix? k

/-- The same where the expression may be the bound of a slice. -/
def TokenKind.endLevel : TokenKind → Option Level
  | .colon => some 0
  | k => k.tailLevel

/-- The tokens may stand behind an expression of the level. -/
def Follows (level : Level) (ts : List TokenKind) : Prop :=
  ∃ l ≤ level, (firstOf (settle ts)).endLevel = some l

/-- No operator that binds more tightly than `above` stands at the start of the
tokens. -/
def Stops (above : Level) (ts : List TokenKind) : Prop :=
  ∀ l, Level.ofInfix? (firstOf (settle ts)) = some l → l ≤ above

theorem tailLevel_eq {k : TokenKind} {l : Level} (h : Level.ofInfix? k = some l) :
    k.tailLevel = some l := by
  unfold TokenKind.tailLevel
  split <;> first | exact h | exact absurd h (by simp [Level.ofInfix?])

theorem endLevel_eq {k : TokenKind} {l : Level} (h : k.tailLevel = some l) : k.endLevel = some l := by
  unfold TokenKind.endLevel
  split
  · cases h
  · exact h

theorem Follows.mono (h : Follows level rest) {level' : Level} (hle : level ≤ level') :
    Follows level' rest :=
  h.imp fun _ ⟨hl, heq⟩ => ⟨Nat.le_trans hl hle, heq⟩

theorem Follows.isNeutral (h : Follows level rest) : (firstOf rest).isNeutral = true := by
  obtain ⟨l, -, hl⟩ := h
  match rest with
  | [] => rfl
  | k :: ks =>
    rw [settle_cons, firstOf_cons] at hl
    rw [firstOf_cons]
    cases k with
    | keyword w =>
      refine decide_eq_true fun hw => ?_
      simp only [List.mem_cons, List.not_mem_nil, or_false] at hw
      rcases hw with rfl | rfl | rfl <;> cases hl
    | _ => rfl

/-- No token follows that continues the expression. -/
theorem Follows.ne (h : Follows level rest) {k : TokenKind}
    (hk : k.endLevel.all (level < ·) = true) : firstOf (settle rest) ≠ k := by
  rintro rfl
  obtain ⟨l, hle, hl⟩ := h
  rw [hl, Option.all_some, decide_eq_true_eq] at hk
  exact Nat.not_lt.mpr hle hk

theorem Follows.stops (h : Follows above rest) : Stops above rest := by
  intro l hl
  obtain ⟨l', hle, heq⟩ := h
  rw [endLevel_eq (tailLevel_eq hl)] at heq
  cases heq
  exact hle

/-- A token that depends on no other one ends an expression. -/
theorem follows_of_tailLevel {k : TokenKind} {l : Level} (hk : k.isSettled = true)
    (h : k.tailLevel = some l) (hle : l ≤ level) : Follows level (k :: rest) :=
  ⟨l, hle, by rw [settle_cons, firstOf_cons, before_eq hk]; exact endLevel_eq h⟩

theorem follows_nil : Follows level [] :=
  ⟨0, Nat.zero_le _, rfl⟩

theorem follows_rightParen (rest : List TokenKind) : Follows level (.rightParen :: rest) :=
  follows_of_tailLevel rfl rfl (Nat.zero_le _)

theorem rightParen_ne_comma (rest : List TokenKind) :
    firstOf (settle (.rightParen :: rest)) ≠ .comma := by
  rw [settle_cons, before_eq rfl]
  simp

theorem follows_comma (rest : List TokenKind) : Follows level (.comma :: rest) :=
  follows_of_tailLevel rfl rfl (Nat.zero_le _)

/-- A colon ends a bound of a slice. -/
theorem follows_colon (rest : List TokenKind) : Follows level (.colon :: rest) :=
  ⟨0, Nat.zero_le _, rfl⟩

/-! ### Leading operands -/

/-- Whether a token may be the first of an operand as it is written. -/
def TokenKind.opensOperand : TokenKind → Bool
  | .name _ | .string _ | .integer _ | .float _ | .binary _ | .hex _ | .param _ => true
  | .leftParen | .plus | .minus | .op _ => true
  | .keyword w => w.category = .unreserved || w ∈ [.NOT, .TRUE, .FALSE, .NULL, .CASE, .CAST, .ARRAY,
      .ROW, .COALESCE, .GREATEST, .LEAST, .NULLIF, .EXTRACT] || (ValueFunction.ofWord? w).isSome
  | _ => false

/-- Whether a token stands behind the name of an argument. -/
def TokenKind.marksArgument : TokenKind → Bool
  | .equalsGreater | .colonEquals => true
  | _ => false

theorem Follows.unnamed (h : Follows level rest) :
    (firstOf (settle rest)).marksArgument = false := by
  obtain ⟨l, -, hl⟩ := h
  unfold TokenKind.marksArgument
  split
  · next heq =>
    rw [heq] at hl
    cases hl
  · next heq =>
    rw [heq] at hl
    cases hl
  · rfl

namespace Grammar

open SqlSyntax.Parser (kind iterate bind_eq Steps)

/-- The operand `l` is read at the start of `ts`.  Parentheses are read in the same
way by the rule for what they hold. -/
structure StartsWith (depth : Nat) (ts : List TokenKind) (l : Node) (ts' : List TokenKind) :
    Prop where
  opens : (firstOf ts).opensOperand = true
  unnamed : (secondOf ts).marksArgument = false
  reads : leftOperand.Reads depth ts l ts'
  enclosed : firstOf ts = .leftParen → ∃ n ts₁, enclosedContent.Reads depth ts (.item n) ts₁ ∧
    (indirection n).Reads depth ts₁ l ts'

/-- The tokens `w` are those of an expression of the level, which is read from a
leading operand by reading the operators behind that. -/
def Leads (w : List TokenKind) (level : Level) (n : Node) : Prop :=
  ∃ l tail, ∀ depth rest, Follows level rest →
    StartsWith depth (settle (w ++ rest)) l (settle (tail ++ rest)) ∧
      ∀ above v ts', above < level → Steps (Rule.Reads depth) (moreOperations above) n (settle rest) v ts' →
        Steps (Rule.Reads depth) (moreOperations above) l (settle (tail ++ rest)) v ts'

/-- An expression that is an operand without operators behind it. -/
theorem Leads.operand
    (h : ∀ depth rest, Follows level rest → StartsWith depth (settle (w ++ rest)) n (settle rest)) :
    Leads w level n :=
  ⟨n, [], fun depth rest hrest => ⟨h depth rest hrest, fun _ _ _ _ hsteps => hsteps⟩⟩

theorem reads_moreOperations_none (h : Stops above rest) :
    (moreOperations above n).ReadsWith R (settle rest) none (settle rest) := by
  simp only [moreOperations, bind_eq, reads_kind_bind]
  cases hl : Level.ofInfix? (firstOf (settle rest)) with
  | none => exact ⟨rfl, rfl⟩
  | some l =>
    simp only [h l hl, if_true]
    exact ⟨rfl, rfl⟩

theorem reads_moreOperations {ts ts' : List TokenKind} (hlevel : Level.ofInfix? (firstOf ts) = some level)
    (habove : above < level) (htime : firstOf ts = .keyword .AT → secondOf ts = .keyword .TIME)
    (h : (operation (firstOf ts) level n).Reads depth ts.tail n' ts') :
    (moreOperations above n).Reads depth ts (some n') ts' := by
  have hoperation : ((Parser.skip.bind fun _ =>
      (operation (firstOf ts) level n).bind fun r => Parser.done (some r))).Reads depth ts
        (some n') ts' := by
    simp only [reads_skip_bind]
    exact Parser.readsWith_bind h ⟨rfl, rfl⟩
  simp only [moreOperations, bind_eq, reads_kind_bind, hlevel, Nat.not_le.mpr habove, if_false,
    isOperator]
  by_cases hat : firstOf ts = .keyword .AT
  · simpa [hat, htime hat] using hoperation
  · simpa [hat] using hoperation

/-- A further operator behind an expression: its token `k`, as what follows settles
it, and more tokens. -/
theorem Leads.extend (h : Leads w level n) {level' : Level} (hlevel : level' ≤ level)
    {k₀ k : TokenKind} {more : List TokenKind} (hk : ∀ rest, k₀.before (firstOf (more ++ rest)) = k)
    (hoperator : Level.ofInfix? k = some level')
    (htime : k = .keyword .AT → ∀ rest, firstOf (settle (more ++ rest)) = .keyword .TIME)
    (hread : ∀ depth rest, Follows level' rest →
      (operation k level' n).Reads depth (settle (more ++ rest)) n' (settle rest)) :
    Leads (w ++ k₀ :: more) level' n' := by
  obtain ⟨l, tail, h⟩ := h
  refine ⟨l, tail ++ k₀ :: more, fun depth rest hrest => ?_⟩
  have hsettle : settle (k₀ :: (more ++ rest)) = k :: settle (more ++ rest) := by
    rw [settle_cons, hk]
  have hfollows : Follows level (k₀ :: (more ++ rest)) :=
    ⟨level', hlevel, by rw [hsettle]; exact endLevel_eq (tailLevel_eq hoperator)⟩
  obtain ⟨hstarts, hsteps⟩ := h depth (k₀ :: (more ++ rest)) hfollows
  rw [List.append_assoc, List.append_assoc, List.cons_append]
  refine ⟨hstarts, fun above v ts' habove hrest' =>
    hsteps above v ts' (Nat.lt_of_lt_of_le habove hlevel) ?_⟩
  rw [hsettle]
  refine .more (reads_moreOperations hoperator habove (fun hat => htime hat rest)
    (hread depth rest hrest)) ?_ hrest'
  simp only [List.length_cons, length_settle, List.length_append]
  omega

theorem Leads.starts (h : Leads w level n) (hrest : Follows level rest) :
    (firstOf (settle (w ++ rest))).opensOperand = true ∧
      (secondOf (settle (w ++ rest))).marksArgument = false := by
  obtain ⟨l, tail, h⟩ := h
  exact ⟨(h 0 rest hrest).1.opens, (h 0 rest hrest).1.unnamed⟩

/-- An expression is read back as an operand. -/
theorem Leads.reads (h : Leads w level n) (habove : above < level) (hrest : Follows level rest)
    (hstop : Stops above rest) :
    (Grammar.operand above).Reads depth (settle (w ++ rest)) n (settle rest) := by
  obtain ⟨l, tail, h⟩ := h
  refine Parser.Reads.call fun d hd => ?_
  obtain ⟨hstarts, hsteps⟩ := h d rest hrest
  exact Parser.Reads.bind hstarts.reads
    (hsteps above n _ habove (.last (reads_moreOperations_none hstop))).reads

theorem Leads.reads_expression (h : Leads w level n) (hlevel : 0 < level) (hrest : Follows 0 rest) :
    expression.Reads depth (settle (w ++ rest)) n (settle rest) :=
  h.reads hlevel (hrest.mono (Nat.zero_le _)) hrest.stops

/-! ### Parentheses -/

theorem opensOperand_ne {k : TokenKind} (h : k.opensOperand = true) (k' : TokenKind)
    (h' : k'.opensOperand = false) : k ≠ k' := by
  rintro rfl
  rw [h] at h'
  cases h'

theorem startsQuery_of_opensOperand {k : TokenKind} (h : k.opensOperand = true) :
    startsQuery k = false := by
  unfold startsQuery
  split <;> first | rfl | exact absurd h (by decide)

theorem marksArgument_of_opensOperand {k : TokenKind} (h : k.opensOperand = true) :
    k.marksArgument = false := by
  unfold TokenKind.marksArgument
  split <;> first | rfl | exact absurd h (by decide)

theorem reads_indirection_none (h : Follows level rest) :
    (indirection n).ReadsWith R (settle rest) n (settle rest) := by
  have hsteps : Steps R moreSteps [] (settle rest) [] (settle rest) :=
    .last (by simp [moreSteps, h.ne (k := .leftBracket) rfl, h.ne (k := .dot) rfl])
  exact Parser.readsWith_bind hsteps.reads (by simp)

/-- What parentheses hold: an expression, or several as a row. -/
def enclosedNode (first : Node) : List Node → Node
  | [] => first
  | more => Node.row (first :: more) false

theorem reads_enclosedItems {write : Node → List TokenKind} {more : List Node}
    (hmore : ∀ n ∈ more, Leads (write n) n.level n) (hlevels : ∀ n ∈ more, 0 < n.level) :
    (enclosedItems n).Reads depth
      (settle (more.flatMap (fun n => .comma :: write n) ++ .rightParen :: rest))
      (.item (enclosedNode n more)) (settle rest) := by
  have hitems : Parser.Reads depth (itemsAfter .comma expression [n]) _ _ _ :=
    reads_itemsAfter (p := Follows 0) rfl (fun _ => follows_comma _) more
      (fun n hn rest hrest => (hmore n hn).reads_expression (hlevels n hn) hrest) [n]
      (follows_rightParen rest) (by simp [TokenKind.before])
  refine Parser.readsWith_bind hitems ?_
  simp only [bind_eq, reads_expect_bind]
  cases more with
  | nil => simp [enclosedNode, TokenKind.before]
  | cons m more => simp [enclosedNode, TokenKind.before]

/-- Expressions in parentheses are read by the rule for those. -/
theorem Leads.reads_enclosed (h : Leads w level n) (hlevel : 0 < level)
    {write : Node → List TokenKind} {more : List Node}
    (hmore : ∀ n ∈ more, Leads (write n) n.level n) (hlevels : ∀ n ∈ more, 0 < n.level) :
    enclosedContent.Reads depth
      (settle (.leftParen :: (w ++ (more.flatMap (fun n => .comma :: write n) ++ .rightParen :: rest))))
      (.item (enclosedNode n more)) (settle rest) := by
  refine Parser.Reads.call fun d hd => ?_
  have hitems : Parser.Reads d (enclosedItems n) _ _ (settle rest) :=
    reads_enclosedItems hmore hlevels
  generalize hafter : more.flatMap (fun n => .comma :: write n) ++ .rightParen :: rest = after at hitems ⊢
  have hfollows : Follows 0 after := by
    subst hafter
    cases more with
    | nil => exact follows_rightParen _
    | cons m more => exact follows_comma _
  have hexpression : Parser.Reads d _ _ _ _ := h.reads_expression hlevel hfollows
  obtain ⟨l, tail, h⟩ := h
  obtain ⟨hstarts, hsteps⟩ := h d after (hfollows.mono (Nat.zero_le _))
  have hquery := startsQuery_of_opensOperand hstarts.opens
  rw [settle_cons, before_eq rfl]
  change Grammar.enclosed.Reads d _ _ _
  simp only [Grammar.enclosed, bind_eq, reads_expect_bind, firstOf_cons, List.tail_cons, true_and,
    reads_kind_bind, hquery, Bool.false_eq_true, if_false]
  split
  · next hparen =>
    obtain ⟨i, ts₁, hcontent, hindirection⟩ := hstarts.enclosed hparen
    refine Parser.readsWith_bind hcontent ?_
    refine Parser.readsWith_bind hindirection ?_
    refine Parser.readsWith_bind (Steps.reads ?_) hitems
    exact hsteps 0 n _ hlevel (.last (reads_moreOperations_none hfollows.stops))
  · exact Parser.readsWith_bind hexpression hitems

/-- Parentheses are an operand, with the steps into it that follow. -/
theorem startsWith_enclosed {ts ts₁ ts' : List TokenKind} {l m : Node}
    (hsecond : (firstOf ts).marksArgument = false)
    (h : enclosedContent.Reads depth (.leftParen :: ts) (.item m) ts₁)
    (hsteps : (indirection m).Reads depth ts₁ l ts') : StartsWith depth (.leftParen :: ts) l ts' where
  opens := rfl
  unnamed := hsecond
  reads := by
    change (enclosedContent.bind fun e => indirection e.operand).Reads depth _ l _
    exact Parser.readsWith_bind h hsteps
  enclosed := fun _ => ⟨m, ts₁, h, hsteps⟩

/-- An expression in parentheses, with the steps into it that follow. -/
theorem Leads.startsWith_wrapped (h : Leads w level n) (hlevel : 0 < level)
    {ts' : List TokenKind} {l : Node} (hsteps : (indirection n).Reads depth (settle rest) l ts') :
    StartsWith depth (settle (.leftParen :: (w ++ .rightParen :: rest))) l ts' := by
  have hcontent : enclosedContent.Reads depth
      (settle (.leftParen :: (w ++ ([].flatMap (fun n : Node => .comma :: n.kinds) ++ .rightParen :: rest))))
      (.item (enclosedNode n [])) (settle rest) :=
    h.reads_enclosed hlevel (by simp) (by simp)
  have hsecond := (h.starts (follows_rightParen rest)).1
  simp only [List.flatMap_nil, List.nil_append, settle_cons, before_eq (k := .leftParen) rfl] at hcontent ⊢
  exact startsWith_enclosed (marksArgument_of_opensOperand hsecond) hcontent hsteps

/-- An expression in parentheses binds more tightly than any operator. -/
theorem Leads.wrapped (h : Leads w level n) (hlevel : 0 < level) :
    Leads (.leftParen :: (w ++ [.rightParen])) Level.primary n := by
  refine Leads.operand fun depth rest hrest => ?_
  rw [List.cons_append, List.append_assoc, List.singleton_append]
  exact h.startsWith_wrapped hlevel (reads_indirection_none hrest)

/-! ### Nodes -/

/-- Every node binds more tightly than no operator at all. -/
theorem level_pos (n : Node) : 0 < n.level := by
  unfold Node.level Node.operationLevel Node.subqueryLevel Level.ofPrefix Level.ofOperator
  repeat' split
  all_goals decide

end Grammar

open Grammar

namespace Node

/-- A node is read back from its leading operand as it is written. -/
def Leads (n : Node) : Prop :=
  Grammar.Leads n.kinds n.level n

/-- An operand at the side where no chain of operators of the level continues. -/
theorem Leads.tight (h : n.Leads) (l : Level) (hl : l < Level.primary) :
    ∃ level > l, Grammar.Leads (kindsOf ((Operand.mk n.level n.pieces).tight l)) level n := by
  unfold Operand.tight Operand.wrapIf
  split
  · refine ⟨Level.primary, hl, ?_⟩
    rw [kindsOf_parens]
    exact Grammar.Leads.wrapped h (level_pos n)
  · next hlevel => exact ⟨n.level, by simpa using hlevel, h⟩

/-- An operand at the side where a chain of operators of the level continues. -/
theorem Leads.loose (h : n.Leads) (l : Level) (hl : l ≤ Level.primary) :
    ∃ level ≥ l, Grammar.Leads (kindsOf ((Operand.mk n.level n.pieces).loose l)) level n := by
  unfold Operand.loose Operand.wrapIf
  split
  · refine ⟨Level.primary, hl, ?_⟩
    rw [kindsOf_parens]
    exact Grammar.Leads.wrapped h (level_pos n)
  · next hlevel => exact ⟨n.level, by simpa using hlevel, h⟩

/-- The left operand of an operator of the level. -/
theorem Leads.left (h : n.Leads) (l : Level) (hl : l < Level.primary) :
    ∃ level ≥ l, Grammar.Leads (kindsOf ((Operand.mk n.level n.pieces).left l)) level n := by
  unfold Operand.left
  split
  · exact (h.tight l hl).imp fun _ ⟨hlevel, h⟩ => ⟨Nat.le_of_lt hlevel, h⟩
  · exact h.loose l (Nat.le_of_lt hl)

theorem Leads.reads_expression (h : n.Leads) (hrest : Follows 0 rest) :
    expression.Reads depth (settle (n.kinds ++ rest)) n (settle rest) :=
  Grammar.Leads.reads_expression h (level_pos n) hrest

end Node

/-! ### Lists -/

theorem nodesPieces_eq (ns : List Node) : nodesPieces ns = ns.map Node.pieces := by
  induction ns with
  | nil => rfl
  | cons n ns ih => rw [nodesPieces, ih, List.map_cons]

/-- The tokens of nodes with commas between them. -/
theorem kindsOf_commas_nodesPieces (ns : List Node) :
    kindsOf (commas (nodesPieces ns)) = commaKinds (ns.map Node.kinds) := by
  rw [kindsOf_commas, nodesPieces_eq, List.map_map]
  rfl

namespace Grammar

theorem follows_commas {ns : List Node} (hrest : Follows level rest) :
    Follows level ((ns.map Node.kinds).flatMap (.comma :: ·) ++ rest) := by
  cases ns with
  | nil => exact hrest
  | cons n ns => exact follows_comma _

/-- Expressions with commas between them are read back. -/
theorem reads_expressions {ns : List Node} (hne : ns ≠ []) (h : ∀ n ∈ ns, n.Leads)
    (hrest : Follows 0 rest) (hcomma : firstOf (settle rest) ≠ .comma) :
    expressions.Reads depth (settle (commaKinds (ns.map Node.kinds) ++ rest)) ns (settle rest) := by
  cases ns with
  | nil => exact absurd rfl hne
  | cons n ns =>
    rw [List.map_cons, commaKinds, List.append_assoc, List.flatMap_map]
    exact reads_commaList (fun _ => follows_comma _) n ns
      (fun m hm _ hrest => (h m hm).reads_expression hrest) hrest hcomma

theorem starts_expressions {ns : List Node} (hne : ns ≠ []) (h : ∀ n ∈ ns, n.Leads)
    (hrest : Follows 0 rest) :
    (firstOf (settle (commaKinds (ns.map Node.kinds) ++ rest))).opensOperand = true := by
  cases ns with
  | nil => exact absurd rfl hne
  | cons n ns =>
    rw [List.map_cons, commaKinds, List.append_assoc]
    exact ((h n List.mem_cons_self).starts ((follows_commas hrest).mono (Nat.zero_le _))).1

end Grammar

end SqlSyntax
