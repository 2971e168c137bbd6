import SqlSyntax.Proofs.Grammar.Moves

/-!
# How deep rules nest

The depth of nesting is a number that goes up where a rule is entered and down where it
is left, with a value or with a problem, and no rule is entered at the limit.  A watched
run keeps that number, what it was set to, and the places that are moved on from.  A run
with a limit to the rules below gives the same, and tells what becomes of the number.

## Main definitions

* `Watch` — what is kept of a run.
* `nested` — a rule that is entered one level deeper, and left again.
* `Parser.watch` — the watched run of a parser.
* `Watched o moves w r` — a watched run gives the outcome and the moves of another run.

## Main results

* `Parser.watched_watchWith` — a watched run gives the same if its rules do.
* `Rule.watched_watch` — the watched run of a rule, from any depth.
* `Parser.watched_watch` — **the watched run of a parser.**
-/

namespace SqlSyntax

variable {α : Type}

/-! ### Watched runs -/

/-- What is kept of a run. -/
structure Watch where
  /-- The number of rules that are being run. -/
  depth : Nat
  /-- What this number was set to, in order. -/
  depths : List Nat := []
  /-- The places that were moved on from, in order. -/
  moved : List Nat := []

namespace Watch

/-- Sets the number of rules that are being run. -/
def setDepth (n : Nat) (w : Watch) : Watch :=
  { w with depth := n, depths := w.depths ++ [n] }

/-- Moves on from a place. -/
def moveFrom (place : Nat) (w : Watch) : Watch :=
  { w with moved := w.moved ++ [place] }

end Watch

/-- Runs something one level deeper.  At the limit there is only a problem; otherwise the
level is left again, whatever comes of the run. -/
def nested (run : Cursor → Watch → Outcome α × Watch) (c : Cursor) (w : Watch) :
    Outcome α × Watch :=
  if maxNesting ≤ w.depth then (.error ⟨.tooDeep, c.place, c.place⟩ c, w)
  else
    let (o, w') := run c (w.setDepth (w.depth + 1))
    (o, w'.setDepth (w'.depth - 1))

/-- Runs a parser and watches it, with what its rules do. -/
def Parser.watchWith (b : Boundary)
    (rules : (r : Rule) → Cursor → Watch → Outcome r.Result × Watch) :
    Parser α → Cursor → Watch → Outcome α × Watch
  | done a, c, w => (.ok a c, w)
  | fail p, c, w => (.error p c, w)
  | current next, c, w => (next (c.current b)).watchWith b rules c w
  | peek next, c, w => (next (c.next b)).watchWith b rules (c.request 2) w
  | place next, c, w => (next c.place).watchWith b rules c w
  | room next, c, w => (next c.room).watchWith b rules c w
  | advance next, c, w => next.watchWith b rules c.advance (w.moveFrom c.place)
  | warn word next, c, w => next.watchWith b rules (c.warn word) w
  | call rule next, c, w =>
    match rules rule c w with
    | (.ok v c, w) => (next v).watchWith b rules c w
    | (.error p c, w) => (.error p c, w)

/-- Runs a rule and watches it.  The number bounds the recursion only: the limit is
reached before it is used up. -/
def Rule.watch (b : Boundary) : Nat → (r : Rule) → Cursor → Watch → Outcome r.Result × Watch
  | 0, _, c, w => (.error ⟨.tooDeep, c.place, c.place⟩ c, w)
  | bound + 1, r, c, w => nested (r.body.watchWith b (Rule.watch b bound)) c w

/-- Runs a parser and watches it. -/
def Parser.watch (b : Boundary) (p : Parser α) (c : Cursor) (w : Watch) : Outcome α × Watch :=
  p.watchWith b (Rule.watch b (maxNesting + 1)) c w

/-! ### What is watched -/

/-- A run that is watched from `w` on comes to the outcome `o` with the given moves.  It
ends at the depth where it started, and no depth in between is beyond the limit. -/
structure Watched (o : Outcome α) (moves : List Nat) (w : Watch) (r : Outcome α × Watch) :
    Prop where
  outcome : r.1 = o
  depth : r.2.depth = w.depth
  moved : r.2.moved = w.moved ++ moves
  depths : ∃ ds, r.2.depths = w.depths ++ ds ∧ ∀ n ∈ ds, n ≤ maxNesting

namespace Watched

variable {o : Outcome α} {moves : List Nat} {w : Watch} {c : Cursor}

theorem refl (o : Outcome α) (w : Watch) : Watched o [] w (o, w) :=
  ⟨rfl, rfl, (List.append_nil _).symm, [], (List.append_nil _).symm, List.forall_mem_nil _⟩

theorem moveFrom {place : Nat} {r : Outcome α × Watch}
    (h : Watched o moves (w.moveFrom place) r) : Watched o (place :: moves) w r := by
  refine ⟨h.outcome, h.depth, ?_, h.depths⟩
  rw [h.moved, Watch.moveFrom, List.append_assoc, List.singleton_append]

/-- One run behind another. -/
theorem trans {β : Type} {o' : Outcome β} {moves' : List Nat} {r : Outcome α × Watch}
    {r' : Outcome β × Watch} (h : Watched o moves w r) (h' : Watched o' moves' r.2 r') :
    Watched o' (moves ++ moves') w r' := by
  obtain ⟨ds, hds, hlimit⟩ := h.depths
  obtain ⟨ds', hds', hlimit'⟩ := h'.depths
  refine ⟨h'.outcome, h'.depth.trans h.depth, ?_, ds ++ ds', ?_, ?_⟩
  · rw [h'.moved, h.moved, List.append_assoc]
  · rw [hds', hds, List.append_assoc]
  · exact List.forall_mem_append.mpr ⟨hlimit, hlimit'⟩

/-- **A level that is entered is left again.** -/
theorem nested {run : Cursor → Watch → Outcome α × Watch} (hw : w.depth < maxNesting)
    (h : Watched o moves (w.setDepth (w.depth + 1)) (run c (w.setDepth (w.depth + 1)))) :
    Watched o moves w (SqlSyntax.nested run c w) := by
  rw [SqlSyntax.nested, if_neg (Nat.not_le.mpr hw)]
  obtain ⟨ds, hds, hlimit⟩ := h.depths
  have hdepth : (run c (w.setDepth (w.depth + 1))).2.depth = w.depth + 1 := h.depth
  have hback : (run c (w.setDepth (w.depth + 1))).2.depth - 1 = w.depth := by
    rw [hdepth, Nat.add_sub_cancel]
  refine ⟨h.outcome, hback, h.moved, (w.depth + 1) :: (ds ++ [w.depth]), ?_, ?_⟩
  · simp only [Watch.setDepth] at hds hback ⊢
    rw [hds, hback, List.append_assoc, List.append_assoc, List.singleton_append]
  · refine List.forall_mem_cons.mpr ⟨hw, List.forall_mem_append.mpr ⟨hlimit, ?_⟩⟩
    exact List.forall_mem_singleton.mpr (Nat.le_of_lt hw)

end Watched

variable {b : Boundary} {rules : (r : Rule) → Cursor → Outcome r.Result}
variable {ruleMoves : Rule → Cursor → List Nat}
variable {watched : (r : Rule) → Cursor → Watch → Outcome r.Result × Watch}

/-- **A watched run gives the same** as another one, and comes back to its depth, if the
rules at that depth do. -/
theorem Parser.watched_watchWith {depth : Nat}
    (hr : ∀ r c w, w.depth = depth → Watched (rules r c) (ruleMoves r c) w (watched r c w))
    (p : Parser α) (c : Cursor) (w : Watch) (hw : w.depth = depth) :
    Watched (p.runWith b rules c) (p.movesWith b rules ruleMoves c) w
      (p.watchWith b watched c w) := by
  induction p generalizing c w with
  | done a => exact .refl _ w
  | fail q => exact .refl _ w
  | current _ ih | place _ ih | room _ ih => exact ih _ c w hw
  | peek _ ih => exact ih _ (c.request 2) w hw
  | advance _ ih => exact (ih c.advance (w.moveFrom c.place) hw).moveFrom
  | warn word _ ih => exact ih (c.warn word) w hw
  | call r next ih =>
    have hrule := hr r c w hw
    have hdepth := hrule.depth.trans hw
    simp only [runWith, movesWith, watchWith]
    have houtcome := hrule.outcome
    generalize watched r c w = result at hrule hdepth houtcome
    obtain ⟨o, w'⟩ := result
    obtain rfl : o = rules r c := houtcome
    cases hrun : rules r c with
    | ok v c' =>
      rw [hrun] at hrule
      exact hrule.trans (ih v c' w' hdepth)
    | error q c' =>
      -- a problem of the rule is one of the parser
      rw [hrun] at hrule
      exact hrule.trans (Watched.refl _ w')

/-- **The watched run of a rule** gives the same as the one that has a limit to the rules
below, if the limit is what is left at its depth. -/
theorem Rule.watched_watch (b : Boundary) (bound : Nat) (r : Rule) (c : Cursor) (w : Watch)
    (hw : maxNesting < w.depth + bound) :
    Watched (r.run b (maxNesting - w.depth) c) (r.moves b (maxNesting - w.depth) c) w
      (r.watch b bound c w) := by
  induction bound generalizing r c w with
  | zero =>
    have hnone : maxNesting - w.depth = 0 := by omega
    rw [hnone]
    exact .refl _ w
  | succ bound ih =>
    rw [watch]
    rcases Nat.lt_or_ge w.depth maxNesting with hlt | hge
    · have hleft : maxNesting - w.depth = maxNesting - (w.depth + 1) + 1 := by omega
      rw [hleft]
      refine .nested hlt ?_
      refine Parser.watched_watchWith (fun r c w' hw' => ?_) r.body c _ rfl
      have hdeeper : w'.depth = w.depth + 1 := hw'
      rw [← hdeeper]
      exact ih r c w' (by omega)
    · have hnone : maxNesting - w.depth = 0 := by omega
      rw [hnone, nested, if_pos hge]
      exact .refl _ w

/-- **The watched run of a parser** gives what the parser gives, moves on as it does, ends
at the depth where it started, and goes no deeper than the limit. -/
theorem Parser.watched_watch (b : Boundary) (p : Parser α) (c : Cursor) {w : Watch}
    (hw : w.depth = 0) : Watched (p.run b c) (p.moves b c) w (p.watch b c w) := by
  refine Parser.watched_watchWith (fun r c w' hw' => ?_) p c w hw
  have hrule := Rule.watched_watch b (maxNesting + 1) r c w' (by omega)
  rwa [hw'] at hrule

end SqlSyntax
