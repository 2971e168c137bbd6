import SqlSyntax.Proofs.Expression.Operands

/-!
# Reading steps into values back

A subscript, a field or a star behind a value is a step into it.  A column and a parameter
take steps as they are written, and any other value takes them in parentheses.  A field behind a
column is written like a part of its name, so it is read as one.

## Main results

* `pieces_field` — **a field of a column is written as a longer column is.**
* `reads_subscript`, `steps_moreSteps` — the steps are read one after the other.
* `leads_indirection` — **a value with steps into it is read back**, unless the steps would be
  parts of its name.
-/

namespace SqlSyntax

open Grammar

variable {depth : Nat} {rest ts : List TokenKind} {level : Level} {arg n : Node} {steps : List Step}

/-! ### Tokens -/

theorem stepsPieces_eq (steps : List Step) : stepsPieces steps = steps.flatMap Step.pieces := by
  induction steps with
  | nil => rfl
  | cons s steps ih => rw [stepsPieces, ih, List.flatMap_cons]

theorem pieces_indirection (arg : Node) (steps : List Step) : (Node.indirection arg steps).pieces
    = parensIf (!takesSteps arg) arg.pieces ++ steps.flatMap Step.pieces := by
  rw [Node.indirection_pieces, stepsPieces_eq]

/-- **A field of a column is written as a longer column is.** -/
theorem pieces_field {names : List String} (hne : names ≠ []) (field : String) (steps : List Step) :
    (Node.indirection (.ofNames names) (.field field :: steps)).pieces
      = (Node.indirection (.ofNames (names ++ [field])) steps).pieces := by
  obtain ⟨s, names, rfl⟩ := List.exists_cons_of_ne_nil hne
  have hdots : dotPieces (names ++ [field]) []
      = dotPieces names [] ++ [.mark .dot, .name field] := by
    simp [dotPieces]
  rw [pieces_indirection, pieces_indirection, List.flatMap_cons, List.cons_append,
    ← column_columnFields, ← column_columnFields, pieces_column, pieces_column, if_neg Bool.false_ne_true,
    hdots, ← List.append_assoc]
  rfl

/-- The tokens of a step. -/
def stepKinds (s : Step) : List TokenKind :=
  kindsOf s.pieces

theorem kinds_subscript (s : Subscript) : stepKinds (.subscript s) = .leftBracket
    :: ((if s.slice then optionalKinds s.lower ++ [.colon] else [])
      ++ (optionalKinds s.upper ++ [.rightBracket])) := by
  obtain ⟨slice, lower, upper⟩ := s
  rw [stepKinds, Step.pieces, Subscript.pieces]
  cases slice <;> cases lower <;> cases upper <;> simp [operand?, optionalKinds, Node.kinds]

/-- A step starts with a bracket or a dot. -/
theorem exists_stepKinds (s : Step) :
    ∃ k ks, stepKinds s = k :: ks ∧ (k = .leftBracket ∨ k = .dot) := by
  cases s with
  | subscript s => exact ⟨_, _, kinds_subscript s, .inl rfl⟩
  | field | star => exact ⟨_, _, rfl, .inr rfl⟩

/-- The tokens of a value with steps into it. -/
theorem kinds_indirection (arg : Node) (steps : List Step) : (Node.indirection arg steps).kinds
    = kindsOf (parensIf (!takesSteps arg) arg.pieces) ++ steps.flatMap stepKinds := by
  rw [Node.kinds, pieces_indirection, kindsOf_append, kindsOf, kindsOf, List.flatMap_assoc]
  rfl

theorem takesSteps_cases (n : Node) :
    takesSteps n = false ∨ (∃ fields, n = .column fields) ∨ ∃ m, n = .param m := by
  unfold takesSteps
  split
  · exact .inr (.inl ⟨_, rfl⟩)
  · exact .inr (.inr ⟨_, rfl⟩)
  · exact .inl rfl

/-- The names of a plain column, which a star may follow. -/
theorem Node.plain_column_inv {fields : List ColumnField} (h : (Node.column fields).Plain) :
    ∃ names star, names ≠ [] ∧ fields = columnFields names star := by
  generalize heq : Node.column fields = n at h
  cases h with
  | column hne _ star => exact ⟨_, star, hne, Node.column.inj heq⟩
  | range negated anyOrder _ _ _ => cases negated <;> cases anyOrder <;> cases heq
  | _ => cases heq

namespace Grammar

open SqlSyntax.Parser (bind_eq Steps)

/-- No keyword in front of a step depends on it. -/
theorem isNeutral_steps (steps : List Step) (hneutral : (firstOf rest).isNeutral = true) :
    (firstOf (steps.flatMap stepKinds ++ rest)).isNeutral = true := by
  cases steps with
  | nil => exact hneutral
  | cons s steps =>
    obtain ⟨k, ks, hkinds, hk⟩ := exists_stepKinds s
    rw [List.flatMap_cons, hkinds]
    rcases hk with rfl | rfl <;> rfl

/-! ### Reading -/

/-- A subscript is read back behind its bracket. -/
theorem reads_subscript {s : Subscript} (hs : s.IsRead)
    (hbounds : ∀ n ∈ (Step.subscript s).bounds, n.Leads) : subscript.Reads depth
      (settle ((if s.slice then optionalKinds s.lower ++ [.colon] else [])
        ++ (optionalKinds s.upper ++ .rightBracket :: rest))) s (settle rest) := by
  obtain ⟨hlower, hupper⟩ := Step.forall_mem_bounds.mp hbounds
  obtain ⟨slice, lower, upper⟩ := s
  have hclose : Follows 0 (.rightBracket :: rest) := follows_of_tailLevel rfl rfl (Nat.le_refl 0)
  cases slice with
  | false =>
    obtain ⟨rfl, hsome⟩ : lower = none ∧ upper.isSome = true := hs.single rfl
    have hbound : (optionalBound .colon).Reads depth _ upper _ :=
      reads_optionalBound rfl hupper hclose fun hnone => by simp [hnone] at hsome
    refine Parser.readsWith_bind hbound ?_
    rw [settle_paren (by simp)]
    simp
  | true =>
    have hfirst : (optionalBound .colon).Reads depth _ lower _ :=
      reads_optionalBound rfl hlower (follows_colon (optionalKinds upper ++ .rightBracket :: rest))
        fun _ => rfl
    have hsecond : (optionalBound .rightBracket).Reads depth _ upper _ :=
      reads_optionalBound rfl hupper hclose fun _ => rfl
    rw [if_pos rfl, List.append_assoc, List.singleton_append]
    refine Parser.readsWith_bind hfirst ?_
    rw [settle_cons, before_eq rfl]
    simp only [bind_eq, reads_accept_bind, firstOf_cons, if_true, List.tail_cons]
    refine Parser.readsWith_bind hsecond ?_
    rw [settle_paren (by simp)]
    simp

/-- Steps are read one after the other. -/
theorem steps_moreSteps (found : List Step) (hsteps : ∀ s ∈ steps, s.IsRead)
    (hbounds : ∀ s ∈ steps, ∀ n ∈ s.bounds, n.Leads) (hrest : Follows level rest) :
    Steps (Rule.Reads depth) moreSteps found (settle (steps.flatMap stepKinds ++ rest))
      (steps.reverse ++ found) (settle rest) := by
  induction steps generalizing found with
  | nil =>
    exact .last (by simp [moreSteps, hrest.ne (k := .leftBracket) rfl, hrest.ne (k := .dot) rfl])
  | cons s steps ih =>
    rw [List.forall_mem_cons] at hsteps hbounds
    have hmore := ih (s :: found) hsteps.2 hbounds.2
    have hneutral := isNeutral_steps steps hrest.isNeutral
    rw [List.flatMap_cons, List.append_assoc, List.reverse_cons, List.append_assoc,
      List.singleton_append]
    generalize steps.flatMap stepKinds ++ rest = behind at hmore hneutral
    cases s with
    | subscript s =>
      have hread : subscript.Reads depth _ s (settle behind) :=
        reads_subscript hsteps.1 hbounds.1
      rw [kinds_subscript, List.cons_append, settle_paren (by simp), List.append_assoc,
        List.append_assoc, List.singleton_append]
      refine .more ?_ ?_ hmore
      · simp only [moreSteps, bind_eq, reads_accept_bind, firstOf_cons, if_true, List.tail_cons]
        exact Parser.readsWith_bind hread ⟨rfl, rfl⟩
      · simp only [List.length_cons, length_settle, List.length_append]
        omega
    | field name =>
      have hread : label.Reads depth (settle (nameKind name :: behind)) name (settle behind) :=
        reads_label hneutral
      have hstar : firstOf (settle (nameKind name :: behind)) ≠ .star := by
        rw [settle_cons, before_nameKind hneutral]
        exact opensOperand_ne (opensOperand_nameKind name) _ rfl
      have hkinds : stepKinds (.field name) ++ behind = .dot :: nameKind name :: behind := rfl
      rw [hkinds, settle_cons, before_eq rfl]
      refine .more ?_ ?_ hmore
      · simp only [moreSteps, bind_eq, reads_accept_bind, firstOf_cons, reduceCtorEq, if_false,
          Bool.false_eq_true, if_true, List.tail_cons, hstar]
        exact Parser.readsWith_bind hread ⟨rfl, rfl⟩
      · simp only [List.length_cons, length_settle]
        omega
    | star =>
      have hkinds : stepKinds .star ++ behind = .dot :: .star :: behind := rfl
      rw [hkinds, settle_cons, settle_cons, before_eq rfl, before_eq rfl]
      refine .more ?_ ?_ hmore
      · simp [moreSteps]
      · simp only [List.length_cons]
        omega

/-- The steps into a value are read back behind it. -/
theorem reads_indirection (hne : steps ≠ []) (hsteps : ∀ s ∈ steps, s.IsRead)
    (hbounds : ∀ s ∈ steps, ∀ n ∈ s.bounds, n.Leads) (hrest : Follows level rest) :
    (indirection arg).Reads depth (settle (steps.flatMap stepKinds ++ rest))
      (.indirection arg steps) (settle rest) := by
  have hmore : Steps (Rule.Reads depth) moreSteps [] _ _ _ :=
    steps_moreSteps [] hsteps hbounds hrest
  refine Parser.readsWith_bind hmore.reads ?_
  simp [hne]

/-- A step marks no argument in front of it. -/
theorem unnamed_steps (hne : steps ≠ []) (rest : List TokenKind) :
    (firstOf (settle (steps.flatMap stepKinds ++ rest))).marksArgument = false := by
  obtain ⟨s, more, rfl⟩ := List.exists_cons_of_ne_nil hne
  obtain ⟨k, ks, hkinds, hk⟩ := exists_stepKinds s
  rw [List.flatMap_cons, hkinds]
  rcases hk with rfl | rfl <;> rfl

/-- A subscript may stand behind a column. -/
theorem endsName_subscript (s : Subscript) (more : List Step) (rest : List TokenKind) :
    EndsName ((Step.subscript s :: more).flatMap stepKinds ++ rest) := by
  rw [List.flatMap_cons, kinds_subscript]
  exact ⟨rfl, rfl⟩

/-- **A value with steps into it is read back**, unless the steps would be parts of its name. -/
theorem leads_indirection (hplain : arg.Plain) (harg : arg.Leads) (hne : steps ≠ [])
    (hapart : arg.StepsApart steps) (hsteps : ∀ s ∈ steps, s.IsRead)
    (hbounds : ∀ s ∈ steps, ∀ n ∈ s.bounds, n.Leads) :
    (Node.indirection arg steps).Leads := by
  rw [Node.Leads, kinds_indirection]
  refine Leads.operand fun depth rest hrest => ?_
  have hread : (indirection arg).Reads depth (settle (steps.flatMap stepKinds ++ rest))
      (.indirection arg steps) (settle rest) :=
    reads_indirection hne hsteps hbounds hrest
  rw [List.append_assoc]
  obtain htakes | ⟨fields, rfl⟩ | ⟨m, rfl⟩ := takesSteps_cases arg
  · rw [htakes, Bool.not_false, parensIf, if_pos rfl, kindsOf_parens, List.cons_append,
      List.cons_append, List.append_assoc, List.singleton_append]
    exact Leads.startsWith_wrapped harg (level_pos arg) hread
  · obtain ⟨names, star, hnames, rfl⟩ := Node.plain_column_inv hplain
    obtain ⟨name, names, rfl⟩ := List.exists_cons_of_ne_nil hnames
    obtain ⟨hstar, s, more, rfl⟩ := hapart
    obtain rfl : star = false := by
      cases star with
      | false => rfl
      | true => exact absurd (by simp [columnFields]) hstar
    have hends := endsName_subscript s more rest
    rw [column_columnFields] at hread ⊢
    have hkinds : kindsOf (parensIf (!takesSteps (.ofNames (name :: names)))
        (Node.ofNames (name :: names)).pieces) = nameKind name :: pathKinds names false := by
      rw [← column_columnFields]
      exact kinds_column name names false
    rw [hkinds, List.cons_append]
    exact hends.startsWith name names false (hends.reads_ofNames name names hread)
  · exact startsWith_param (unnamed_steps hne rest) hread

end Grammar

end SqlSyntax
