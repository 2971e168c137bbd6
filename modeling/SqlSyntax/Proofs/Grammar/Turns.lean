import SqlSyntax.Proofs.Grammar.Moves

/-!
# Turns of loops

Every loop of the grammar moves on in each turn but its last.  So there is always room for
another turn, and only a turn that ends a loop does so: the number of turns that a loop allows
for is no limit.

## Main definitions

* `Parser.Idles` — what a parser gives without having moved on.
* `Parser.Turns` — the loop of a step moves on in every turn but the last, and goes on as long
  as its turns want.
* `Grammar.LoopStep` — the steps of the loops of the grammar.

## Main results

* `Parser.turns_of_moves` — a step that moves on makes a loop without limit.
* `Grammar.turns_of_loopStep` — **the loops of the grammar.**
-/

namespace SqlSyntax

variable {α β σ : Type}

/-! ### Parsers that have not moved on -/

namespace Parser

/-- A value that a run gives without having moved on is as `P` says. -/
def Idles (P : α → Prop) : Parser α → Prop
  | done a => P a
  | fail _ | advance _ => True
  | current next | peek next => ∀ k, (next k).Idles P
  | place next | room next => ∀ n, (next n).Idles P
  | warn _ next => next.Idles P
  | call _ next => ∀ v, (next v).Idles P

section Idles

variable {P Q : α → Prop} {R : β → Prop} {p q : Parser α} {f : α → Parser β}

theorem Idles.bind (h : p.Idles Q) (hf : ∀ a, Q a → (f a).Idles R) : (p >>= f).Idles R := by
  induction p with
  | done a => exact hf a h
  | fail e => exact trivial
  | current _ ih | peek _ ih => exact fun k => ih k (h k)
  | place _ ih | room _ ih => exact fun n => ih n (h n)
  | advance _ _ => exact trivial
  | warn _ _ ih => exact ih h
  | call r _ ih => exact fun v => ih v (h v)

theorem idles_any (p : Parser α) : p.Idles fun _ => True := by
  induction p with
  | done _ | fail _ | advance _ _ => exact trivial
  | current _ ih | peek _ ih => exact fun k => ih k
  | place _ ih | room _ ih => exact fun n => ih n
  | warn _ _ ih => exact ih
  | call r _ ih => exact fun v => ih v

theorem idles_bind_any (hf : ∀ a, (f a).Idles R) : (p >>= f).Idles R :=
  (idles_any p).bind fun a _ => hf a

/-- What follows a move is free. -/
theorem idles_skip_bind (f : Unit → Parser β) : (skip >>= f).Idles R :=
  trivial

theorem idles_pure {a : α} (h : P a) : (pure a : Parser α).Idles P :=
  h

theorem idles_ite {c : Prop} [Decidable c] (hp : c → p.Idles P) (hq : ¬ c → q.Idles P) :
    (if c then p else q).Idles P := by
  split
  · next h => exact hp h
  · next h => exact hq h

/-- A run that gives another value has moved on. -/
theorem Idles.moves_ne_nil (h : p.Idles P) {b : Boundary}
    {rules : (r : Rule) → Cursor → Outcome r.Result} {c c' : Cursor} {a : α}
    (hrun : p.runWith b rules c = .ok a c') (ha : ¬ P a) (ruleMoves : Rule → Cursor → List Nat) :
    p.movesWith b rules ruleMoves c ≠ [] := by
  induction p generalizing c with
  | done v =>
    cases hrun
    exact absurd h ha
  | fail e => cases hrun
  | current _ ih | peek _ ih | place _ ih | room _ ih => exact ih _ (h _) hrun
  | advance _ _ => exact List.cons_ne_nil _ _
  | warn _ _ ih => exact ih h hrun
  | call r _ ih =>
    simp only [runWith] at hrun
    simp only [movesWith]
    cases hrule : rules r c with
    | ok v c₁ =>
      rw [hrule] at hrun
      exact List.append_ne_nil_of_right_ne_nil _ (ih v (h v) hrun)
    | error e c₁ =>
      rw [hrule] at hrun
      cases hrun

end Idles

/-! ### Loops -/

variable {b : Boundary} {depth : Nat}

/-- A parser that keeps to its statement has moved on where it gives another value. -/
theorem place_lt_of_idles {P : α → Prop} {p : Parser α} [hp : p.Local] (h : p.Idles P)
    (hb : b.stop.endsStatement = true) {c c' : Cursor} (hc : c.Inside) {a : α}
    (hrun : p.runWith b (Rule.run b depth) c = .ok a c') (ha : ¬ P a) : c.place < c'.place := by
  have hwalk := hp.keeps.walks hb (Rule.walking hb depth) hc (Nat.zero_le _)
  have hmoves := h.moves_ne_nil hrun ha (Rule.moves b depth)
  rw [hwalk.moves_eq, hrun, Outcome.cursor_ok, Ne, List.range'_eq_nil_iff] at hmoves
  omega

/-- A loop with this step moves on in every turn but the last.  It goes on as long as its turns
want. -/
structure Turns (step : σ → Parser (Option σ)) : Prop where
  moves : ∀ {b : Boundary}, b.stop.endsStatement = true → ∀ {depth : Nat} {c c' : Cursor}, c.Inside →
    ∀ {s s' : σ}, (step s).runWith b (Rule.run b depth) c = .ok (some s') c' → c.place < c'.place
  goesOn : ∀ {b : Boundary}, b.stop.endsStatement = true → ∀ {depth : Nat} {c : Cursor}, c.Inside →
    ∀ s : σ, (iterate step s).runWith b (Rule.run b depth) c
      = ((step s).runWith b (Rule.run b depth) c).bind fun found c' =>
          (found.elim (done s) (iterate step)).runWith b (Rule.run b depth) c'

/-- How many turns are allowed for makes no difference if there is room for them. -/
theorem runWith_iterateAtMost {step : σ → Parser (Option σ)}
    (hstep : ∀ {c c' : Cursor}, c.Inside → ∀ {s s' : σ},
      (step s).runWith b (Rule.run b depth) c = .ok (some s') c' → c.place < c'.place)
    {m n : Nat} {c : Cursor} (hc : c.Inside) (hm : c.room < m) (hn : c.room < n) (s : σ) :
    (iterateAtMost step m s).runWith b (Rule.run b depth) c
      = (iterateAtMost step n s).runWith b (Rule.run b depth) c := by
  induction m generalizing n c s with
  | zero => omega
  | succ m ih =>
    cases n with
    | zero => omega
    | succ n =>
      rw [iterateAtMost, iterateAtMost, bind_eq, bind_eq, runWith_bind, runWith_bind]
      have hreach := reaches_runWith (b := b) (Rule.reaches_run b depth) (step s) c
      cases hrun : (step s).runWith b (Rule.run b depth) c with
      | error e c' => rfl
      | ok found c' =>
        cases found with
        | none => rfl
        | some s' =>
          -- the turn has moved on, so there is less room behind it
          rw [hrun, Outcome.cursor_ok] at hreach
          have hplace := hstep hc hrun
          have hlength := hreach.place_add_length
          rw [← c.room_eq, ← c'.room_eq] at hlength
          exact ih (hc.of_reaches hreach) (by omega) (by omega) s'

/-- **A step that moves on makes a loop without limit.** -/
theorem turns_of_moves {step : σ → Parser (Option σ)}
    (h : ∀ {b : Boundary}, b.stop.endsStatement = true → ∀ {depth : Nat} {c c' : Cursor}, c.Inside →
      ∀ {s s' : σ}, (step s).runWith b (Rule.run b depth) c = .ok (some s') c' →
        c.place < c'.place) : Turns step := by
  refine ⟨h, fun {b} hb {depth c} hc s => ?_⟩
  rw [iterate, runWith, iterateAtMost, bind_eq, runWith_bind]
  have hreach := reaches_runWith (b := b) (Rule.reaches_run b depth) (step s) c
  cases hrun : (step s).runWith b (Rule.run b depth) c with
  | error e c' => rfl
  | ok found c' =>
    cases found with
    | none => rfl
    | some s' =>
      rw [hrun, Outcome.cursor_ok] at hreach
      have hplace := h hb hc hrun
      have hlength := hreach.place_add_length
      rw [← c.room_eq, ← c'.room_eq] at hlength
      exact runWith_iterateAtMost (fun hc _ _ hrun => h hb hc hrun) (hc.of_reaches hreach)
        (by omega) (Nat.lt_succ_self _) s'

theorem turns_of_idles {step : σ → Parser (Option σ)} [∀ s, (step s).Local]
    (h : ∀ s, (step s).Idles (· = none)) : Turns step :=
  turns_of_moves fun hb _ _ _ hc s _ hrun =>
    place_lt_of_idles (h s) hb hc hrun (Option.some_ne_none _)

end Parser

/-! ### The steps of the grammar -/

namespace Grammar

open SqlSyntax.Parser

/-- The steps of the loops of the grammar. -/
inductive LoopStep : {σ : Type} → (σ → Parser (Option σ)) → Prop
  /-- Items behind commas or dots. -/
  | items {ι : Type} (mark : TokenKind) [mark.Inner] (item : Parser ι) :
    LoopStep (moreItems mark item)
  /-- Operators behind a left operand. -/
  | operations (above : Level) : LoopStep (moreOperations above)
  /-- Queries behind `INTERSECT`. -/
  | intersected : LoopStep moreIntersected
  /-- Queries behind the word of a combination. -/
  | combined : LoopStep moreCombined
  /-- Clauses behind a query. -/
  | clauses : LoopStep moreClauses
  /-- Joins. -/
  | joins : LoopStep moreJoins
  /-- Steps into a value. -/
  | steps : LoopStep moreSteps
  /-- Parts of a dotted name. -/
  | path : LoopStep morePath
  /-- Dimensions of an array type. -/
  | dimensions : LoopStep moreDimensions
  /-- Arms of a `CASE`. -/
  | arms : LoopStep moreArms
  /-- Characteristics of a transaction. -/
  | modes : LoopStep moreModes
  /-- Collations and constraints of a column. -/
  | columnParts : LoopStep moreColumnParts
  /-- Actions of a foreign key. -/
  | actions : LoopStep moreActions

theorem idles_accept (k : TokenKind) : (accept k).Idles (· = false) := by
  unfold accept
  refine idles_bind_any fun found => ?_
  cases found
  · exact idles_pure rfl
  · exact idles_skip_bind _

theorem idles_expect (k : TokenKind) : (expect k).Idles fun _ => False := by
  unfold expect
  refine (idles_accept k).bind ?_
  rintro _ rfl
  exact fun _ => trivial

/-- What stands behind an optional token is free. -/
theorem idles_accept_bind {k : TokenKind} {P : β → Prop} {p q : Parser β} (hq : q.Idles P) :
    (accept k >>= fun found => if found = true then p else q).Idles P := by
  refine (idles_accept k).bind ?_
  rintro _ rfl
  exact hq

theorem idles_expect_bind {k : TokenKind} {P : β → Prop} (f : Unit → Parser β) :
    (expect k >>= f).Idles P :=
  (idles_expect k).bind fun _ h => h.elim

theorem idles_moreOperations (above : Level) (left : Node) :
    (moreOperations above left).Idles (· = none) := by
  refine idles_bind_any fun k => ?_
  split
  · exact idles_pure rfl
  · refine idles_ite (fun _ => idles_pure rfl) fun _ => idles_bind_any fun found => ?_
    cases found
    · exact idles_pure rfl
    · exact idles_skip_bind _

theorem idles_moreCombined (left : Select) : (moreCombined left).Idles (· = none) := by
  refine idles_bind_any fun k => ?_
  split
  · exact idles_pure rfl
  · exact idles_skip_bind _

theorem idles_moreClauses (s : Select) : (moreClauses s).Idles (· = none) := by
  refine idles_bind_any fun _ => idles_bind_any fun k => ?_
  split
  all_goals first
    | exact idles_skip_bind _
    | exact idles_pure rfl

theorem idles_joinedWith (kind : JoinKind) (natural : Bool) (left : Node) :
    (joinedWith kind natural left).Idles fun _ => False :=
  idles_expect_bind _

theorem idles_moreJoins (left : Node) : (moreJoins left).Idles (· = none) := by
  refine idles_accept_bind (idles_accept_bind (idles_bind_any fun kind => ?_))
  cases kind with
  | none => exact idles_pure rfl
  | some kind => exact (idles_joinedWith kind false left).bind fun _ h => h.elim

theorem idles_moreSteps (steps : List Step) : (moreSteps steps).Idles (· = none) :=
  idles_accept_bind (idles_accept_bind (idles_pure rfl))

theorem idles_morePath (p : Path) : (morePath p).Idles (· = none) :=
  idles_ite (fun _ => idles_pure rfl) fun _ => idles_accept_bind (idles_pure rfl)

/-- A comma or a characteristic makes a turn. -/
theorem idles_optionalMode : optionalMode.Idles (· = none) := by
  refine idles_bind_any fun k => ?_
  split
  · exact idles_skip_bind _
  · exact idles_skip_bind _
  · exact idles_skip_bind _
  · refine idles_bind_any fun found => ?_
    cases found
    · exact idles_pure rfl
    · exact idles_skip_bind _
  · exact idles_pure rfl

theorem idles_moreModes (modes : List TransactionMode) :
    (moreModes modes).Idles (· = none) := by
  refine idles_bind_any fun comma => idles_optionalMode.bind ?_
  rintro _ rfl
  exact idles_ite (fun _ _ => trivial) fun _ => idles_pure rfl

theorem idles_columnConstraintBody : columnConstraintBody.Idles (· = none) := by
  refine idles_bind_any fun k => ?_
  split
  all_goals first
    | exact idles_skip_bind _
    | exact idles_pure rfl

/-- A name without a constraint is an error, so a turn has read a constraint. -/
theorem idles_columnConstraint : columnConstraint.Idles (· = none) := by
  refine idles_bind_any fun s => idles_columnConstraintBody.bind ?_
  rintro _ rfl
  cases s with
  | none => exact idles_pure rfl
  | some s => exact fun _ => trivial

theorem idles_moreColumnParts (c : ColumnDef) : (moreColumnParts c).Idles (· = none) := by
  refine idles_accept_bind (idles_columnConstraint.bind ?_)
  rintro _ rfl
  exact idles_pure rfl

theorem idles_moreActions (c : Constraint) : (moreActions c).Idles (· = none) := by
  refine idles_bind_any fun found => ?_
  cases found
  · exact idles_pure rfl
  · refine idles_bind_any fun k => ?_
    split
    · exact idles_skip_bind _
    · exact idles_skip_bind _
    · exact idles_pure rfl

/-- The mark in front of an item is read, whatever the item is. -/
theorem turns_moreItems (mark : TokenKind) [hmark : mark.Inner] (item : Parser α) :
    Turns (moreItems mark item) := by
  refine turns_of_moves fun {b} hb {depth c c'} hc {s s'} hrun => ?_
  rw [moreItems, bind_eq, runWith_bind] at hrun
  cases haccept : (accept mark).runWith b (Rule.run b depth) c with
  | error e c₁ =>
    rw [haccept] at hrun
    cases hrun
  | ok found c₁ =>
    rw [haccept] at hrun
    cases found with
    | false => cases hrun
    | true =>
      have hmove : c.place < c₁.place :=
        place_lt_of_idles (idles_accept mark) hb hc haccept (by decide)
      have hreach := reaches_runWith (b := b) (Rule.reaches_run b depth)
        (item >>= fun a => pure (some (a :: s))) c₁
      change ((item >>= fun a => pure (some (a :: s))).runWith b (Rule.run b depth) c₁) = _ at hrun
      rw [hrun, Outcome.cursor_ok] at hreach
      exact Nat.lt_of_lt_of_le hmove hreach.place_le

/-- **The loops of the grammar.**  Each moves on in every turn but its last, and goes on as
long as its turns want. -/
theorem turns_of_loopStep {step : σ → Parser (Option σ)} (h : LoopStep step) : Turns step := by
  cases h with
  | items mark item => exact turns_moreItems mark item
  | operations above => exact turns_of_idles (idles_moreOperations above)
  | intersected => exact turns_of_idles fun left => idles_accept_bind (idles_pure rfl)
  | combined => exact turns_of_idles idles_moreCombined
  | clauses => exact turns_of_idles idles_moreClauses
  | joins => exact turns_of_idles idles_moreJoins
  | steps => exact turns_of_idles idles_moreSteps
  | path => exact turns_of_idles idles_morePath
  | dimensions => exact turns_of_idles fun bounds => idles_accept_bind (idles_pure rfl)
  | arms => exact turns_of_idles fun arms => idles_accept_bind (idles_pure rfl)
  | modes => exact turns_of_idles idles_moreModes
  | columnParts => exact turns_of_idles idles_moreColumnParts
  | actions => exact turns_of_idles idles_moreActions

end Grammar

end SqlSyntax
