import SqlSyntax.Grammar.Statement

/-!
# Runs of parsers

What holds for the run of any parser, whatever it reads: it goes through a bind
in two steps, and it moves on through its statement and never beyond.

## Main definitions

* `Outcome.cursor` — the place that a run reached.
* `Cursor.Reaches` — a place is further on in the same statement.

## Main results

* `runWith_bind` — the run of a bind.
* `reaches_runWith`, `reaches_run` — a run moves on.
-/

namespace SqlSyntax

variable {α β : Type}

/-! ### Binds -/

/-- The place that a run reached. -/
def Outcome.cursor : Outcome α → Cursor
  | .ok _ c | .error _ c => c

@[simp] theorem Outcome.cursor_ok (a : α) (c : Cursor) : (Outcome.ok a c).cursor = c := rfl

@[simp] theorem Outcome.cursor_error (q : Problem) (c : Cursor) :
    (Outcome.error q c : Outcome α).cursor = c := rfl

/-- Continues an outcome that has a value. -/
def Outcome.bind (o : Outcome α) (f : α → Cursor → Outcome β) : Outcome β :=
  match o with
  | .ok a c => f a c
  | .error q c => .error q c

@[simp] theorem Outcome.bind_ok (a : α) (c : Cursor) (f : α → Cursor → Outcome β) :
    (Outcome.ok a c).bind f = f a c := rfl

@[simp] theorem Outcome.bind_error (q : Problem) (c : Cursor) (f : α → Cursor → Outcome β) :
    (Outcome.error q c).bind f = .error q c := rfl

variable {b : Boundary} {rules : (r : Rule) → Cursor → Outcome r.Result}

namespace Parser

theorem runWith_bind (p : Parser α) (f : α → Parser β) (c : Cursor) :
    (p.bind f).runWith b rules c
      = (p.runWith b rules c).bind fun a c' => (f a).runWith b rules c' := by
  induction p generalizing c with
  | done a => rfl
  | fail q => rfl
  | current _ ih | peek _ ih | place _ ih | room _ ih =>
    simp only [bind, runWith]
    exact ih _ _
  | advance _ ih | warn _ _ ih =>
    simp only [bind, runWith]
    exact ih _
  | call r _ ih =>
    simp only [bind, runWith]
    cases rules r c with
    | ok v c' => exact ih v c'
    | error q c' => rfl

end Parser

/-! ### Moving on -/

namespace Cursor

/-- The second place is in the same statement, at the first one or behind it. -/
def Reaches (c c' : Cursor) : Prop :=
  ∃ k ≤ c.run.length, c'.run = c.run.drop k ∧ c'.place = c.place + k

theorem Reaches.refl (c : Cursor) : c.Reaches c :=
  ⟨0, Nat.zero_le _, rfl, rfl⟩

theorem Reaches.trans {c c' c'' : Cursor} (h : c.Reaches c') (h' : c'.Reaches c'') :
    c.Reaches c'' := by
  obtain ⟨k, hk, hrun, hplace⟩ := h
  obtain ⟨k', hk', hrun', hplace'⟩ := h'
  rw [hrun, List.length_drop] at hk'
  refine ⟨k + k', by omega, ?_, by omega⟩
  rw [hrun', hrun, List.drop_drop]

theorem reaches_advance (c : Cursor) : c.Reaches c.advance := by
  unfold advance
  split
  · exact Reaches.refl c
  · next run h =>
    refine ⟨1, ?_, ?_, rfl⟩
    · simp [h]
    · simp [request, h]

/-- The tokens read and those left are the tokens of the statement. -/
theorem Reaches.place_add_length {c c' : Cursor} (h : c.Reaches c') :
    c'.place + c'.run.length = c.place + c.run.length := by
  obtain ⟨k, hk, hrun, hplace⟩ := h
  rw [hrun, hplace, List.length_drop]
  omega

theorem Reaches.place_le {c c' : Cursor} (h : c.Reaches c') : c.place ≤ c'.place := by
  obtain ⟨k, -, -, hplace⟩ := h
  omega

theorem Reaches.mem_run {c c' : Cursor} (h : c.Reaches c') {k : TokenKind} (hk : k ∈ c'.run) :
    k ∈ c.run := by
  obtain ⟨n, -, hrun, -⟩ := h
  rw [hrun] at hk
  exact List.mem_of_mem_drop hk

end Cursor

open Cursor

/-- A run moves on if its rules do. -/
theorem Parser.reaches_runWith (hr : ∀ r (c : Cursor), c.Reaches (rules r c).cursor) (p : Parser α)
    (c : Cursor) : c.Reaches (p.runWith b rules c).cursor := by
  induction p generalizing c with
  | done a => exact Reaches.refl c
  | fail q => exact Reaches.refl c
  | current _ ih | place _ ih | room _ ih => exact ih _ c
  | peek _ ih => exact ih _ (c.request 2)
  | advance _ ih => exact (reaches_advance c).trans (ih c.advance)
  | warn w _ ih => exact ih (c.warn w)
  | call r _ ih =>
    have hstep := hr r c
    simp only [runWith]
    cases hrun : rules r c with
    | ok v c' =>
      rw [hrun] at hstep
      exact hstep.trans (ih v c')
    | error q c' =>
      rw [hrun] at hstep
      exact hstep

/-- The run of a rule moves on. -/
theorem Rule.reaches_run (b : Boundary) (depth : Nat) (r : Rule) (c : Cursor) :
    c.Reaches (r.run b depth c).cursor := by
  induction depth generalizing r c with
  | zero => exact Reaches.refl c
  | succ depth ih => exact Parser.reaches_runWith ih r.body c

/-- The run of a parser moves on. -/
theorem Parser.reaches_run (b : Boundary) (p : Parser α) (c : Cursor) :
    c.Reaches (p.run b c).cursor :=
  Parser.reaches_runWith (Rule.reaches_run b maxNesting) p c

end SqlSyntax
