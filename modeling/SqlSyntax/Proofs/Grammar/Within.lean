import SqlSyntax.Proofs.Grammar.Reading

/-!
# Reading within a depth

`Rule.Reads` says nothing about what nests deeper than its depth, so a run may
still fail because of that.  Here all rules that are run stay within the depth; then a run
gives its value for certain.

## Main definitions

* `Rule.Within` — what rules read if they nest at most so deep.

## Main results

* `Parser.ReadsWith.run_within` — **a run within the limit gives what is read.**
-/

namespace SqlSyntax

variable {α : Type} {ts' : List TokenKind}

/-- What a rule reads if rules nest at most `depth` deep, itself included. -/
def Rule.Within : Nat → (r : Rule) → List TokenKind → r.Result → List TokenKind → Prop
  | 0, _, _, _, _ => False
  | depth + 1, r, ts, a, ts' => r.body.ReadsWith (Rule.Within depth) ts a ts'

/-- What is read stays the same if the rules read more. -/
theorem Parser.ReadsWith.mono
    {R S : (r : Rule) → List TokenKind → r.Result → List TokenKind → Prop}
    (h : ∀ r ts v ts', R r ts v ts' → S r ts v ts') {p : Parser α} {ts : List TokenKind} {a : α}
    (hp : p.ReadsWith R ts a ts') : p.ReadsWith S ts a ts' := by
  induction p generalizing ts with
  | done _ => exact hp
  | fail _ | warn _ _ _ => exact hp.elim
  | current _ ih | peek _ ih | room _ ih => exact ih _ hp
  | place _ ih => exact fun n => ih n (hp n)
  | advance _ ih => exact ih hp
  | call r _ ih =>
    obtain ⟨v, ts₁, hr, hp⟩ := hp
    exact ⟨v, ts₁, h _ _ _ _ hr, ih v hp⟩

theorem Rule.Within.succ {depth : Nat} {r : Rule} {ts : List TokenKind} {v : r.Result}
    (h : Rule.Within depth r ts v ts') : Rule.Within (depth + 1) r ts v ts' := by
  induction depth generalizing r ts v ts' with
  | zero => exact h.elim
  | succ depth ih => exact Parser.ReadsWith.mono (fun _ _ _ _ => ih) h

theorem Rule.Within.mono {depth depth' : Nat} (hle : depth ≤ depth') {r : Rule}
    {ts : List TokenKind} {v : r.Result} (h : Rule.Within depth r ts v ts') :
    Rule.Within depth' r ts v ts' := by
  induction hle with
  | refl => exact h
  | step _ ih => exact ih.succ

/-! ### Runs -/

/-- The outcome is the value `a`, with the tokens `ts` left and no further warnings. -/
def Outcome.Is (warnings : List LabelWarning) (a : α) (ts : List TokenKind) (o : Outcome α) : Prop :=
  ∃ c, o = .ok a c ∧ c.run = ts ∧ c.warnings = warnings

theorem Parser.ReadsWith.is
    {R : (r : Rule) → List TokenKind → r.Result → List TokenKind → Prop}
    {rules : (r : Rule) → Cursor → Outcome r.Result}
    (hrules : ∀ r (c : Cursor) v ts', R r c.run v ts' → (rules r c).Is c.warnings v ts')
    {p : Parser α} {a : α} (c : Cursor) (h : p.ReadsWith R c.run a ts') :
    (p.runWith .ofText rules c).Is c.warnings a ts' := by
  induction p generalizing c with
  | done a' =>
    obtain ⟨rfl, rfl⟩ := h
    exact ⟨c, rfl, rfl, rfl⟩
  | fail _ | warn _ _ _ => exact h.elim
  | current _ ih => exact ih _ c h
  | peek _ ih =>
    refine ih _ (c.request 2) ?_
    rw [Cursor.next_ofText]
    exact h
  | place _ ih => exact ih _ c (h c.place)
  | room _ ih =>
    refine ih _ c ?_
    rw [c.room_eq]
    exact h
  | advance _ ih =>
    rw [← c.warnings_advance]
    refine ih c.advance ?_
    rw [c.run_advance]
    exact h
  | call r next ih =>
    -- what the rule reads, its run gives, with the rest for the parser behind it
    obtain ⟨v, ts₁, hr, hnext⟩ := h
    obtain ⟨c', hrun, rfl, hwarnings⟩ := hrules r c v ts₁ hr
    simp only [runWith, hrun]
    rw [← hwarnings]
    exact ih v c' hnext

theorem Rule.Within.is {depth : Nat} (r : Rule) (c : Cursor) (v : r.Result) (ts' : List TokenKind)
    (h : Rule.Within depth r c.run v ts') : (r.run .ofText depth c).Is c.warnings v ts' := by
  induction depth generalizing r c v ts' with
  | zero => exact h.elim
  | succ depth ih => exact Parser.ReadsWith.is ih c h

/-- **A run within the limit gives what is read.** -/
theorem Parser.ReadsWith.run_within {p : Parser α} {a : α} {c : Cursor}
    (h : p.ReadsWith (Rule.Within maxNesting) c.run a ts') :
    (p.run .ofText c).Is c.warnings a ts' :=
  Parser.ReadsWith.is Rule.Within.is c h

end SqlSyntax
