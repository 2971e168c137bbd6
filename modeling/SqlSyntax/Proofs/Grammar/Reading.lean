import SqlSyntax.Proofs.Grammar.Run

/-!
# What a parser reads

A parser that is given certain tokens reads a value from some of them and leaves
the others.  That is said by recursion over the decision tree of the parser, for
a text that ends behind the tokens.  The limit to the depth of nesting stays out
of it: a run may always fail because of that.

## Main definitions

* `Parser.ReadsWith` — what a parser reads, given what its rules read.
* `Rule.Reads`, `Parser.Reads` — what rules and parsers read down to a depth.
* `Parser.Steps` — the states that a repeated step goes through.

## Main results

* `Parser.Reads.bind` — reading one thing after the other.
* `Parser.Steps.reads` — reading by repeated steps.
* `Parser.Reads.run` — **a run gives what is read**, unless it nests too deeply.
-/

namespace SqlSyntax

variable {α β σ : Type}

/-- The first of the tokens that are left, or the end of the text. -/
def firstOf (ts : List TokenKind) : TokenKind :=
  ts.headD .eof

/-- The token behind the first one, or the end of the text. -/
def secondOf (ts : List TokenKind) : TokenKind :=
  firstOf ts.tail

@[simp] theorem firstOf_nil : firstOf [] = .eof := rfl

@[simp] theorem firstOf_cons (k : TokenKind) (ts : List TokenKind) : firstOf (k :: ts) = k := rfl

@[simp] theorem secondOf_cons (k : TokenKind) (ts : List TokenKind) :
    secondOf (k :: ts) = firstOf ts := rfl

/-! ### Parsers -/

/-- The parser reads the value `a` from the tokens `ts` and leaves `ts'`, if its
rules read what `R` says. -/
def Parser.ReadsWith (R : (r : Rule) → List TokenKind → r.Result → List TokenKind → Prop) :
    Parser α → List TokenKind → α → List TokenKind → Prop
  | done a', ts, a, ts' => a' = a ∧ ts = ts'
  | fail _, _, _, _ => False
  | current next, ts, a, ts' => (next (firstOf ts)).ReadsWith R ts a ts'
  | peek next, ts, a, ts' => (next (secondOf ts)).ReadsWith R ts a ts'
  | place next, ts, a, ts' => ∀ n, (next n).ReadsWith R ts a ts'
  | room next, ts, a, ts' => (next ts.length).ReadsWith R ts a ts'
  | advance next, ts, a, ts' => next.ReadsWith R ts.tail a ts'
  | warn _ _, _, _, _ => False
  | call r next, ts, a, ts' => ∃ v ts₁, R r ts v ts₁ ∧ (next v).ReadsWith R ts₁ a ts'

/-- What a rule reads, down to a depth beyond which it may read anything. -/
def Rule.Reads : Nat → (r : Rule) → List TokenKind → r.Result → List TokenKind → Prop
  | 0, _, _, _, _ => True
  | depth + 1, r, ts, a, ts' => r.body.ReadsWith (Rule.Reads depth) ts a ts'

/-- What a parser reads, down to a depth. -/
abbrev Parser.Reads (depth : Nat) (p : Parser α) (ts : List TokenKind) (a : α)
    (ts' : List TokenKind) : Prop :=
  p.ReadsWith (Rule.Reads depth) ts a ts'

variable {depth : Nat} {ts ts' ts₁ : List TokenKind}

namespace Parser

theorem readsWith_bind {R : (r : Rule) → List TokenKind → r.Result → List TokenKind → Prop}
    {p : Parser α} {f : α → Parser β} {a : α} {v : β} (hp : p.ReadsWith R ts a ts₁)
    (hf : (f a).ReadsWith R ts₁ v ts') : (p.bind f).ReadsWith R ts v ts' := by
  induction p generalizing ts with
  | done a' =>
    obtain ⟨rfl, rfl⟩ := hp
    exact hf
  | fail q => exact hp.elim
  | current _ ih | peek _ ih | room _ ih => exact ih _ hp
  | place _ ih => exact fun n => ih n (hp n)
  | advance _ ih => exact ih hp
  | warn _ _ _ => exact hp.elim
  | call r _ ih =>
    obtain ⟨w, ts₂, hr, hp⟩ := hp
    exact ⟨w, ts₂, hr, ih w hp⟩

/-- Reading one thing after the other. -/
theorem Reads.bind {p : Parser α} {f : α → Parser β} {a : α} {v : β} (hp : p.Reads depth ts a ts₁)
    (hf : (f a).Reads depth ts₁ v ts') : (p >>= f).Reads depth ts v ts' :=
  readsWith_bind hp hf

/-- Reading by a rule. -/
theorem Reads.call {r : Rule} {a : r.Result}
    (h : ∀ e, depth = e + 1 → r.body.Reads e ts a ts') :
    (Parser.call r done).Reads depth ts a ts' := by
  refine ⟨a, ts', ?_, rfl, rfl⟩
  cases depth with
  | zero => exact trivial
  | succ e => exact h e rfl

/-! ### Steps -/

variable {R : (r : Rule) → List TokenKind → r.Result → List TokenKind → Prop}

/-- A step that is done over and over takes the state `s` to `v`. -/
inductive Steps (R : (r : Rule) → List TokenKind → r.Result → List TokenKind → Prop)
    (step : σ → Parser (Option σ)) : σ → List TokenKind → σ → List TokenKind → Prop
  /-- The step finds the end. -/
  | last {s : σ} {ts : List TokenKind} (h : (step s).ReadsWith R ts none ts) :
    Steps R step s ts s ts
  /-- The step gives a new state, for which it has to read something. -/
  | more {s t v : σ} {ts ts₁ ts' : List TokenKind} (h : (step s).ReadsWith R ts (some t) ts₁)
    (moves : ts₁.length < ts.length) (rest : Steps R step t ts₁ v ts') :
    Steps R step s ts v ts'

theorem Steps.reads_iterateAtMost {step : σ → Parser (Option σ)} {s v : σ}
    (h : Steps R step s ts v ts') {n : Nat} (hn : ts.length < n) :
    (iterateAtMost step n s).ReadsWith R ts v ts' := by
  induction h generalizing n with
  | last h =>
    cases n with
    | zero => omega
    | succ n => exact readsWith_bind h ⟨rfl, rfl⟩
  | more h moves rest ih =>
    cases n with
    | zero => omega
    | succ n => exact readsWith_bind h (ih (by omega))

/-- Reading by repeated steps. -/
theorem Steps.reads {step : σ → Parser (Option σ)} {s v : σ} (h : Steps R step s ts v ts') :
    (iterate step s).ReadsWith R ts v ts' :=
  h.reads_iterateAtMost (Nat.lt_succ_self _)

end Parser

/-! ### Runs -/

/-- The end of a text that is one statement. -/
def Boundary.ofText : Boundary :=
  ⟨.eof, .eof⟩

/-- The outcome of a run is the value `a`, with the tokens `ts` left, unless the nesting
was too deep; there are no further warnings. -/
def Outcome.Gives (warnings : List LabelWarning) (a : α) (ts : List TokenKind) :
    Outcome α → Prop
  | .ok a' c => a' = a ∧ c.run = ts ∧ c.warnings = warnings
  | .error q c => q.cause = .tooDeep ∧ c.warnings = warnings

theorem Cursor.current_ofText (c : Cursor) : c.current .ofText = firstOf c.run := rfl

theorem Cursor.next_ofText (c : Cursor) : c.next .ofText = secondOf c.run := by
  unfold Cursor.next
  split <;> next h => rw [h]; rfl

theorem Cursor.run_advance (c : Cursor) : c.advance.run = c.run.tail := by
  unfold Cursor.advance
  split
  · next h => rw [h, List.tail_nil]
  · next h => simp [h, Cursor.request]

theorem Cursor.warnings_advance (c : Cursor) : c.advance.warnings = c.warnings := by
  unfold Cursor.advance
  split <;> rfl

theorem Parser.ReadsWith.gives
    {R : (r : Rule) → List TokenKind → r.Result → List TokenKind → Prop}
    {rules : (r : Rule) → Cursor → Outcome r.Result}
    (hrules : ∀ r (c : Cursor) v ts', R r c.run v ts' → (rules r c).Gives c.warnings v ts')
    {p : Parser α} {a : α} (c : Cursor) (h : p.ReadsWith R c.run a ts') :
    (p.runWith .ofText rules c).Gives c.warnings a ts' := by
  induction p generalizing c with
  | done a' => exact ⟨h.1, h.2, rfl⟩
  | fail q => exact h.elim
  | current _ ih => exact ih _ c h
  | peek _ ih =>
    refine ih _ (c.request 2) ?_
    rw [Cursor.next_ofText]
    exact h
  | place _ ih => exact ih _ c (h c.place)
  | room _ ih =>
    refine ih _ c ?_
    rw [c.room_eq]
    exact h
  | advance _ ih =>
    rw [← c.warnings_advance]
    refine ih c.advance ?_
    rw [c.run_advance]
    exact h
  | warn _ _ _ => exact h.elim
  | call r next ih =>
    obtain ⟨v, ts₁, hr, hnext⟩ := h
    have hgives := hrules r c v ts₁ hr
    simp only [runWith]
    cases hrun : rules r c with
    | error q c' =>
      rw [hrun] at hgives
      exact hgives
    | ok w c' =>
      rw [hrun] at hgives
      obtain ⟨rfl, rfl, hwarnings⟩ := hgives
      rw [← hwarnings]
      exact ih w c' hnext

theorem Rule.Reads.gives (r : Rule) (c : Cursor) (v : r.Result) (ts' : List TokenKind)
    (h : Rule.Reads depth r c.run v ts') : (r.run .ofText depth c).Gives c.warnings v ts' := by
  induction depth generalizing r c v ts' with
  | zero => exact ⟨rfl, rfl⟩
  | succ depth ih => exact Parser.ReadsWith.gives ih c h

/-- **A run gives what is read**, unless it nests too deeply. -/
theorem Parser.Reads.run {p : Parser α} {a : α} {c : Cursor} (h : p.Reads maxNesting c.run a ts') :
    (p.run .ofText c).Gives c.warnings a ts' :=
  Parser.ReadsWith.gives Rule.Reads.gives c h

end SqlSyntax
