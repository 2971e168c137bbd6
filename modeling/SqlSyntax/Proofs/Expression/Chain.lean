import SqlSyntax.Proofs.Expression.Lead
import SqlSyntax.Proofs.Grammar.Within
import SqlSyntax.Proofs.Lexeme.Leaves
import SqlSyntax.Proofs.Tree.Grouping

/-!
# Reading chains

A chain is a row of plain columns with connectives or operators between them.  It is always
read as an expression, and as the one in which the operations are grouped by their levels.
The levels limit how deep operands nest, so chains of any length are read.

## Main definitions

* `ColumnToken`, `LinkToken` — the tokens of a chain.
* `Chain` — a column and more of them, each behind a link.

## Main results

* `reads_moreLinks` — the operators behind a left operand, with what is read up to each step.
* `expression_chain` — **a chain is read as the expression that is grouped by level.**
-/

namespace SqlSyntax

open Grammar

/-! ### Tokens -/

/-- The link that a token is.  An operator without a kind of its own is one that a text can
contain, so none of those that have a kind. -/
def Link.ofKind? : TokenKind → Option Link
  | .keyword .OR => some or
  | .keyword .AND => some and
  | .op s => if operatorKind s = .op s then some (operator s) else none
  | k => k.operator?.map operator

/-- The name of the column that a token is where no name goes on.  `EXISTS` starts a test. -/
def columnOf? (k : TokenKind) : Option String :=
  if k = .keyword .EXISTS then none else nameOf? Keyword.isColumnName k

theorem columnOf?_keyword {w : Keyword} {s : String} (h : columnOf? (.keyword w) = some s) :
    w ≠ .EXISTS ∧ w.isColumnName = true ∧ w.spelling = s := by
  unfold columnOf? at h
  split at h
  · cases h
  · next hexists => exact ⟨fun h => hexists (congrArg _ h), by simpa [nameOf?] using h⟩

/-- A token that is a link. -/
structure LinkToken where
  kind : TokenKind
  link : Link
  isLink : Link.ofKind? kind = some link

/-- A token that is a column with a plain name. -/
structure ColumnToken where
  kind : TokenKind
  name : String
  isColumn : columnOf? kind = some name

/-- A column with a plain name. -/
def ColumnToken.node (x : ColumnToken) : Node :=
  Node.ofNames [x.name]

/-- More columns of a chain, each behind a link. -/
abbrev Links := List (LinkToken × ColumnToken)

/-- The tokens of more columns. -/
def Links.kinds (links : Links) : List TokenKind :=
  links.flatMap fun p => [p.1.kind, p.2.kind]

/-- The links and columns of more columns. -/
def Links.items (links : Links) : List ChainItem :=
  links.flatMap fun p => [.link p.1.link, .column p.2.name]

/-- A row of columns with links between them. -/
structure Chain where
  first : ColumnToken
  more : Links

/-- The tokens of a chain. -/
def Chain.kinds (c : Chain) : List TokenKind :=
  c.first.kind :: c.more.kinds

/-- The columns and links of a chain. -/
def Chain.items (c : Chain) : List ChainItem :=
  .column c.first.name :: c.more.items

@[simp] theorem Links.kinds_nil : Links.kinds [] = [] := rfl

@[simp] theorem Links.kinds_cons (o : LinkToken) (x : ColumnToken) (links : Links) :
    Links.kinds ((o, x) :: links) = o.kind :: x.kind :: links.kinds := rfl

@[simp] theorem Links.items_nil : Links.items [] = [] := rfl

@[simp] theorem Links.items_cons (o : LinkToken) (x : ColumnToken) (links : Links) :
    Links.items ((o, x) :: links) = .link o.link :: .column x.name :: links.items := rfl

theorem Links.length_kinds (links : Links) : links.kinds.length = 2 * links.length := by
  induction links with
  | nil => rfl
  | cons p links ih =>
    obtain ⟨o, x⟩ := p
    simp only [Links.kinds_cons, List.length_cons, ih]
    omega

theorem Links.items_append (links links' : Links) :
    Links.items (links ++ links') = links.items ++ links'.items :=
  List.flatMap_append

/-! ### Links -/

/-- An operator without a kind of its own has no level of its own. -/
theorem ofOperator_generic {s : String} (h : operatorKind s = .op s) :
    Level.ofOperator s = Level.operator := by
  unfold operatorKind at h
  split at h <;> first
    | cases h; done
    | simp_all [Level.ofOperator]

/-- No link binds more tightly than a power. -/
theorem Link.level_le_power (l : Link) : l.level ≤ Level.power := by
  cases l with
  | or | and => decide
  | operator op =>
    unfold level Level.ofOperator
    repeat' split
    all_goals decide

theorem Link.level_pos (l : Link) : 0 < l.level := by
  cases l with
  | or | and => decide
  | operator op => 
    have hor : Link.or.level < Level.ofOperator op :=
      level_lt_ofOperator (show Junction.or.link? = some .or from rfl) op
    exact Nat.lt_trans (by decide) hor

/-- The tokens that are links. -/
theorem Link.ofKind?_cases {k : TokenKind} {l : Link} (h : ofKind? k = some l) :
    k = .keyword .OR ∧ l = or ∨ k = .keyword .AND ∧ l = and ∨
      ∃ op, k.operator? = some op ∧ l = operator op ∧
        Level.ofInfix? k = some (Level.ofOperator op) := by
  unfold ofKind? at h
  split at h
  · exact .inl ⟨rfl, (Option.some.inj h).symm⟩
  · exact .inr (.inl ⟨rfl, (Option.some.inj h).symm⟩)
  · next s =>
    split at h
    · next hs =>
      exact .inr (.inr ⟨s, rfl, (Option.some.inj h).symm, by rw [ofOperator_generic hs]; rfl⟩)
    · cases h
  · next hgeneric =>
    obtain ⟨op, hop, rfl⟩ := Option.map_eq_some_iff.mp h
    refine .inr (.inr ⟨op, hop, rfl, ?_⟩)
    cases k <;> cases hop <;> first | rfl | exact absurd rfl (hgeneric _)

/-- Every operator that a text contains is a link. -/
theorem link_of_mem_lexemes {source : List Char} (h : ∀ l ∈ lexemes .postgres source, l.IsQuiet)
    {l : Lexeme} (hl : l ∈ lexemes .postgres source) {s : String} (hs : l.kind = .op s) :
    Link.ofKind? l.kind = some (.operator s) := by
  have hread := isRead_lexemes h l hl
  rw [hs] at hread ⊢
  exact if_pos hread.2

variable {R : (r : Rule) → List TokenKind → r.Result → List TokenKind → Prop}
variable {ts ts' : List TokenKind} {above : Level} {n m : Node}

namespace Grammar

theorem reads_iterate_none {σ : Type} {step : σ → Parser (Option σ)} {s : σ}
    (h : (step s).ReadsWith R ts none ts) : (Parser.iterate step s).ReadsWith R ts s ts :=
  Parser.readsWith_bind h ⟨rfl, rfl⟩

/-- A connective or operator with its right operand. -/
theorem reads_operation {k : TokenKind} {l : Link} (hl : Link.ofKind? k = some l)
    (hall : withAll? (firstOf ts) = none) (h : (operand l.level).ReadsWith R ts m ts') :
    (operation k l.level n).ReadsWith R ts (l.join n m) ts' := by
  obtain ⟨rfl, rfl⟩ | ⟨rfl, rfl⟩ | ⟨op, hop, rfl, -⟩ := Link.ofKind?_cases hl
  · exact Parser.readsWith_bind h ⟨rfl, rfl⟩
  · exact Parser.readsWith_bind h ⟨rfl, rfl⟩
  · have hoperation : operation k (Level.ofOperator op) n
        = binaryOperation op (Level.ofOperator op) n := by
      cases k <;> cases hop <;> rfl
    rw [Link.level, hoperation]
    simp only [binaryOperation, Parser.bind_eq, Parser.kind, Parser.bind, Parser.ReadsWith, hall]
    exact Parser.readsWith_bind h ⟨rfl, rfl⟩

/-- A further operation is read if its operator binds tightly enough. -/
theorem reads_link {k : TokenKind} {l : Link} (hl : Link.ofKind? k = some l)
    (hlevel : Level.ofInfix? k = some l.level) (habove : above < l.level)
    (hall : withAll? (firstOf ts) = none) (h : (operand l.level).ReadsWith R ts m ts') :
    (moreOperations above n).ReadsWith R (k :: ts) (some (l.join n m)) ts' := by
  have hat : k ≠ .keyword .AT := by
    rintro rfl
    cases hl
  simp only [moreOperations, Parser.bind_eq, Parser.kind, Parser.bind, Parser.ReadsWith,
    firstOf_cons, hlevel, Nat.not_le.mpr habove, if_false, isOperator, hat, Parser.pure_eq, if_true,
    Parser.skip, List.tail_cons]
  exact Parser.readsWith_bind (reads_operation hl hall h) ⟨rfl, rfl⟩

/-- No further operation is read if no operator binds tightly enough. -/
theorem reads_noLink (h : ∀ l, Level.ofInfix? (firstOf ts) = some l → l ≤ above) :
    (moreOperations above n).ReadsWith R ts none ts := by
  simp only [moreOperations, Parser.bind_eq, Parser.kind, Parser.bind, Parser.ReadsWith]
  cases hl : Level.ofInfix? (firstOf ts) with
  | none => exact ⟨rfl, rfl⟩
  | some l =>
    simp only [h l hl, if_true]
    exact ⟨rfl, rfl⟩

/-! ### Columns -/

/-- A name that nothing goes on with is a column. -/
theorem reads_named_column {s : String} (hdot : firstOf ts ≠ .dot)
    (hbracket : firstOf ts ≠ .leftBracket) (hparen : firstOf ts ≠ .leftParen)
    (hstring : ∀ s, firstOf ts ≠ .string s) : (named s).ReadsWith R ts (Node.ofNames [s]) ts := by
  have hpath : (Parser.iterate morePath { names := [s] }).ReadsWith R ts { names := [s] } ts :=
    reads_iterate_none (by simp [morePath, accept, isAt, Parser.kind, Parser.bind, Parser.ReadsWith, hdot])
  have hsteps : (Parser.iterate moreSteps []).ReadsWith R ts [] ts :=
    reads_iterate_none (by
      simp [moreSteps, accept, isAt, Parser.kind, Parser.bind, Parser.ReadsWith, hdot, hbracket])
  refine Parser.readsWith_bind hpath ?_
  simp only [List.reverse_singleton, Bool.false_eq_true, if_false, Parser.bind_eq, Parser.kind, Parser.bind,
    Parser.ReadsWith]
  exact Parser.readsWith_bind hsteps ⟨rfl, rfl⟩

/-- The keywords that may be columns, but for `EXISTS`, start nothing else where no parenthesis
follows. -/
theorem operandOfWord_column {w : Keyword} (hw : w.isColumnName = true) (hexists : w ≠ .EXISTS) :
    operandOfWord w false = (do Parser.skip; named w.spelling) := by
  have hname : namedByWord w false = (do Parser.skip; named w.spelling) := by
    rw [namedByWord, hw, Bool.true_or, if_pos rfl]
  unfold operandOfWord
  split <;> first
    | exact absurd hw (by decide)
    | exact absurd rfl hexists
    | exact hname
    | (split
       · cases ‹false = true›
       · exact hname)

theorem valueFunction_ofWord?_column {w : Keyword} (hw : w.isColumnName = true) :
    ValueFunction.ofWord? w = none := by
  refine List.find?_eq_none.mpr fun f _ hf => ?_
  obtain rfl : f.word = w := by simpa using hf
  exact absurd hw (by cases f <;> decide)

theorem reads_startsTypedConstant {w : Keyword} (hprecision : secondOf ts ≠ .keyword .PRECISION)
    (hcontinues : continuesTypedConstant (secondOf ts) = false) :
    (startsTypedConstant w).ReadsWith R ts false ts := by
  unfold startsTypedConstant
  split <;> simp [isBefore, Parser.nextKind, Parser.bind, Parser.ReadsWith, hprecision, hcontinues]

theorem ofSign?_column {w : Keyword} (hw : w.isColumnName = true) :
    Level.ofSign? (.keyword w) = none := by
  unfold Level.ofSign?
  split <;> first
    | rfl
    | (cases ‹TokenKind.keyword w = _›; exact absurd hw (by decide))
    | cases ‹TokenKind.keyword w = _›

/-- A keyword that may be a column is read as a name where neither a constant nor a call goes
on. -/
theorem reads_startingWith_column {w : Keyword} (hw : w.isColumnName = true)
    (hexists : w ≠ .EXISTS) (hparen : firstOf ts ≠ .leftParen)
    (hprecision : firstOf ts ≠ .keyword .PRECISION)
    (hcontinues : continuesTypedConstant (firstOf ts) = false)
    (h : (named w.spelling).ReadsWith R ts n ts') :
    (startingWith w).ReadsWith R (.keyword w :: ts) n ts' := by
  rw [startingWith, valueFunction_ofWord?_column hw]
  refine Parser.readsWith_bind (reads_startsTypedConstant hprecision hcontinues) ?_
  simp only [Bool.false_eq_true, if_false, isBefore, Parser.bind_eq, Parser.pure_eq,
    Parser.nextKind, Parser.bind, Parser.ReadsWith, secondOf_cons, hparen, decide_false,
    operandOfWord_column hw hexists, Parser.skip, List.tail_cons]
  exact h

end Grammar

/-- A plain column is read as an operand. -/
theorem ColumnToken.reads (x : ColumnToken) {l : Level} (htail : (firstOf ts).tailLevel = some l) :
    leftOperand.ReadsWith R (x.kind :: ts) x.node ts := by
  have hne : ∀ k : TokenKind, k.tailLevel = none → firstOf ts ≠ k := by
    rintro k hk rfl
    rw [hk] at htail
    cases htail
  have hnamed : (named x.name).ReadsWith R ts x.node ts :=
    reads_named_column (hne _ rfl) (hne _ rfl) (hne _ rfl) fun s => hne _ rfl
  have hcontinues : continuesTypedConstant (firstOf ts) = false := by
    unfold continuesTypedConstant
    split <;> first | rfl | exact absurd ‹_› (hne _ rfl)
  obtain ⟨k, s, hk⟩ := x
  cases k with
  | name _ =>
    cases hk
    exact hnamed
  | keyword w =>
    obtain ⟨hexists, hw, rfl⟩ := columnOf?_keyword hk
    change Parser.ReadsWith R (Parser.bind Parser.kind _) _ _ _
    simp only [Parser.kind, Parser.bind, Parser.ReadsWith, firstOf_cons, ofSign?_column hw]
    exact reads_startingWith_column hw hexists (hne _ rfl) (hne _ rfl) hcontinues hnamed
  | _ => cases hk

theorem ColumnToken.withAll? (x : ColumnToken) : withAll? x.kind = none := by
  obtain ⟨k, s, hk⟩ := x
  cases k with
  | keyword w =>
    obtain ⟨-, hw, -⟩ := columnOf?_keyword hk
    change Grammar.withAll? (.keyword w) = none
    unfold Grammar.withAll?
    split <;> first
      | rfl
      | (cases ‹TokenKind.keyword w = _›; exact absurd hw (by decide))
  | _ => rfl

theorem LinkToken.ofInfix? (o : LinkToken) : Level.ofInfix? o.kind = some o.link.level := by
  obtain ⟨k, l, hl⟩ := o
  obtain ⟨rfl, rfl⟩ | ⟨rfl, rfl⟩ | ⟨op, -, rfl, h⟩ := Link.ofKind?_cases hl
  · rfl
  · rfl
  · exact h

/-! ### Chains -/

/-- The first link binds no more tightly than the level. -/
def Links.Bounded (level : Level) : Links → Prop
  | [] => True
  | (o, _) :: _ => o.link.level ≤ level

/-- Where a chain goes on or ends, so does the expression before. -/
theorem Links.tailLevel (links : Links) {rest : List TokenKind}
    (hrest : (firstOf rest).tailLevel = some 0) :
    ∃ l, (firstOf (links.kinds ++ rest)).tailLevel = some l := by
  cases links with
  | nil => exact ⟨0, hrest⟩
  | cons p links => exact ⟨p.1.link.level, tailLevel_eq p.1.ofInfix?⟩

/-- The parser reads a grouped expression of some of the columns: of the items `before` and those
of the links up to one that binds no more tightly than the level. -/
def ReadsChain (depth : Nat) (rest : List TokenKind) (level : Level) (p : Parser Node)
    (ts : List TokenKind) (before : List ChainItem) (links : Links) : Prop :=
  ∃ taken left n, links = taken ++ left ∧
    p.ReadsWith (Rule.Within depth) ts n (left.kinds ++ rest) ∧ n.Grouped ∧ level < n.level ∧
    n.inorder = before ++ taken.items ∧ left.Bounded level

namespace Grammar

variable {depth : Nat} {rest : List TokenKind} {links : Links}

/-- The operators behind a left operand are read up to one that does not bind tightly enough.  Before
each of them, the left operand is grouped and binds no less tightly than the operator. -/
theorem reads_moreLinks (hrest : (firstOf rest).tailLevel = some 0)
    (hoperand : ∀ l > above, l ≤ Level.power → ∀ (x : ColumnToken) (links : Links),
      ReadsChain depth rest l (operand l) (x.kind :: (links.kinds ++ rest)) [.column x.name] links)
    (hn : n.Grouped) (habove : above < n.level) (hlinks : links.Bounded n.level) {fuel : Nat}
    (hfuel : links.length < fuel) :
    ReadsChain depth rest above (Parser.iterateAtMost (moreOperations above) fuel n)
      (links.kinds ++ rest) n.inorder links := by
  induction fuel generalizing n links with
  | zero => exact absurd hfuel (Nat.not_lt_zero _)
  | succ fuel ih =>
    -- where the operators end, the left operand is the expression
    have hlast : links.Bounded above → (∀ l, Level.ofInfix? (firstOf (links.kinds ++ rest)) = some l →
        l ≤ above) → ReadsChain depth rest above
          (Parser.iterateAtMost (moreOperations above) (fuel + 1) n) (links.kinds ++ rest) n.inorder
          links := fun hbounded hstop =>
      ⟨[], links, n, rfl, Parser.readsWith_bind (reads_noLink hstop) ⟨rfl, rfl⟩, hn, habove, by simp,
        hbounded⟩
    match links with
    | [] =>
      refine hlast trivial fun l hl => ?_
      rw [Links.kinds_nil, List.nil_append] at hl
      rw [tailLevel_eq hl] at hrest
      cases hrest
      exact Nat.zero_le _
    | (o, x) :: links =>
      by_cases hlevel : o.link.level ≤ above
      · refine hlast hlevel fun l hl => ?_
        rw [Links.kinds_cons, List.cons_append, firstOf_cons, o.ofInfix?] at hl
        cases hl
        exact hlevel
      · -- the right operand takes the operators that bind more tightly than `o`; the loop goes on
        -- with the two operands joined
        obtain ⟨taken, left, m, rfl, hread, hm, hright, hinorder, hleft⟩ :=
          hoperand o.link.level (Nat.not_le.mp hlevel) o.link.level_le_power x links
        have hjoins := o.link.grouped_join hn hm hlinks hright
        obtain ⟨taken', left', n', rfl, hread', hn', habove', hinorder', hleft'⟩ :=
          ih hjoins.grouped (hjoins.level ▸ Nat.not_le.mp hlevel) (hjoins.level ▸ hleft) (by
            simp only [List.length_cons, List.length_append] at hfuel
            omega)
        refine ⟨(o, x) :: (taken ++ taken'), left', n', by simp, ?_, hn', habove', ?_, hleft'⟩
        · exact Parser.readsWith_bind (reads_link o.isLink o.ofInfix? (Nat.not_le.mp hlevel)
            x.withAll? hread) hread'
        · simp [hinorder', hjoins.inorder, hinorder, Links.items_append]

/-- An operand is a column with the operators behind it that bind tightly enough. -/
theorem reads_operand_of (hrest : (firstOf rest).tailLevel = some 0)
    (hoperand : ∀ l > above, l ≤ Level.power → ∀ (x : ColumnToken) (links : Links),
      ReadsChain depth rest l (operand l) (x.kind :: (links.kinds ++ rest)) [.column x.name] links)
    (habove : above ≤ Level.power) (x : ColumnToken) (links : Links) :
    ReadsChain (depth + 1) rest above (operand above) (x.kind :: (links.kinds ++ rest))
      [.column x.name] links := by
  obtain ⟨l, htail⟩ := links.tailLevel hrest
  have hpower : Level.power < x.node.level := by
    rw [ColumnToken.node, level_ofNames]
    decide
  have hlinks : links.Bounded x.node.level := by
    cases links with
    | nil => trivial
    | cons p links => exact Nat.le_trans p.1.link.level_le_power (Nat.le_of_lt hpower)
  have hfuel : links.length < (links.kinds ++ rest).length + 1 := by
    rw [List.length_append, Links.length_kinds]
    omega
  obtain ⟨taken, left, n, hlinks', hread, hn, hn', hinorder, hleft⟩ :=
    reads_moreLinks hrest hoperand (.column x.name) (Nat.lt_of_le_of_lt habove hpower) hlinks hfuel
  refine ⟨taken, left, n, hlinks', ?_, hn, hn', ?_, hleft⟩
  · exact ⟨n, _, Parser.readsWith_bind (x.reads htail) hread, rfl, rfl⟩
  · rw [hinorder, inorder_ofNames]

/-- As operands bind more and more tightly, they nest no deeper than there are levels. -/
theorem reads_operand_chain (hrest : (firstOf rest).tailLevel = some 0)
    (hdepth : Level.power ≤ above + depth) (habove : above ≤ Level.power) (x : ColumnToken)
    (links : Links) :
    ReadsChain (depth + 1) rest above (operand above) (x.kind :: (links.kinds ++ rest))
      [.column x.name] links := by
  induction depth generalizing above x links with
  | zero =>
    refine reads_operand_of hrest (fun l hl hl' => ?_) habove x links
    exact absurd (Nat.lt_of_le_of_lt hdepth hl) (Nat.not_lt.mpr hl')
  | succ depth ih =>
    refine reads_operand_of hrest (fun l hl hl' => ih (Nat.le_trans hdepth ?_) hl') habove x links
    rw [← Nat.add_assoc, Nat.add_right_comm]
    exact Nat.add_le_add_right hl depth

/-- **A chain is read as an expression**, and as the only one of its columns and links that is
grouped by level. -/
theorem expression_chain (chain : Chain) (rest : List TokenKind)
    (hrest : (firstOf rest).tailLevel = some 0) (c : Cursor) (hc : c.run = chain.kinds ++ rest) :
    ∃ n c', expression.run .ofText c = .ok n c' ∧ c'.run = rest ∧ c'.warnings = c.warnings ∧
      n.inorder = chain.items ∧ n.Grouped ∧
      ∀ m : Node, m.Grouped → m.inorder = chain.items → m = n := by
  have hdepth : Level.power ≤ 0 + (maxNesting - 1) := by decide
  obtain ⟨taken, left, n, hmore, hread, hn, -, hinorder, hleft⟩ :=
    reads_operand_chain hrest hdepth (by decide) chain.first chain.more
  -- all links bind more tightly than none, so none of them is left
  have hleft : left = [] := by
    match left with
    | [] => rfl
    | (o, _) :: _ => exact absurd hleft (Nat.not_le.mpr o.link.level_pos)
  subst hleft
  rw [List.append_nil] at hmore
  subst hmore
  obtain ⟨c', hrun, hrest', hwarnings⟩ :=
    Parser.ReadsWith.run_within (p := expression) (c := c) (by rw [hc]; exact hread)
  exact ⟨n, c', hrun, hrest', hwarnings, hinorder, hn,
    fun m hm hinorder' => hm.eq_of_inorder hn (hinorder'.trans hinorder.symm)⟩

/-- `a OR b + c * d`, read to its end. -/
theorem expression_chain_levels : (firstOf []).tailLevel = some 0 ∧
    ∃ n c', expression.run .ofText
        { run := [.name "a", .keyword .OR, .name "b", .plus, .name "c", .star, .name "d"] } = .ok n c' ∧
      c'.run = [] ∧ c'.warnings = [] ∧
      n.inorder = [.column "a", .link .or, .column "b", .link (.operator "+"), .column "c",
        .link (.operator "*"), .column "d"] ∧
      n.Grouped ∧ ∀ m : Node, m.Grouped → m.inorder = [.column "a", .link .or, .column "b",
        .link (.operator "+"), .column "c", .link (.operator "*"), .column "d"] → m = n :=
  ⟨rfl, expression_chain
    { first := ⟨.name "a", "a", rfl⟩
      more := [(⟨.keyword .OR, .or, rfl⟩, ⟨.name "b", "b", rfl⟩),
        (⟨.plus, .operator "+", rfl⟩, ⟨.name "c", "c", rfl⟩),
        (⟨.star, .operator "*", rfl⟩, ⟨.name "d", "d", rfl⟩)] }
    [] rfl _ rfl⟩

end Grammar

end SqlSyntax
