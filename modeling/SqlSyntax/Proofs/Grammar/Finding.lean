import SqlSyntax.Proofs.Grammar.Turns
import SqlSyntax.Proofs.Grammar.Reading

/-!
# What a parser finds in tokens

A parser may make the same of certain tokens wherever they stand in a text and however deep
rules may still nest.  That it fails for the depth alone is always possible.

## Main definitions

* `Outcome.Finds` — a run finds a value and leaves certain tokens.
* `Parser.Finds` — the same of all runs on certain tokens.

## Main results

* `Finds.bind`, `Finds.call` — finding one thing after the other, and by a rule.
* `finds_parenthesized`, `finds_commaList_one` — finding by what parsers are put together with.
-/

namespace SqlSyntax

variable {α β σ : Type}

/-- The outcome is the value `a` with the tokens `ts` left, unless the nesting was too deep. -/
def Outcome.Finds (a : α) (ts : List TokenKind) : Outcome α → Prop
  | .ok a' c => a' = a ∧ c.run = ts
  | .error q _ => q.cause = .tooDeep

theorem Outcome.Finds.bind {o : Outcome α} {a : α} {ts ts' : List TokenKind} {v : β}
    (h : o.Finds a ts) {f : α → Cursor → Outcome β}
    (hf : ∀ c : Cursor, c.run = ts → (f a c).Finds v ts') : (o.bind f).Finds v ts' := by
  cases o with
  | error q c => exact h
  | ok a' c =>
    obtain ⟨rfl, hrun⟩ := h
    exact hf c hrun

namespace Parser

/-- The parser finds the value `a` in the tokens `ts` and leaves the tokens `ts'`, wherever
they stand and however deep rules may nest. -/
def Finds (p : Parser α) (ts : List TokenKind) (a : α) (ts' : List TokenKind) : Prop :=
  ∀ (depth : Nat) (c : Cursor), c.run = ts →
    (p.runWith .ofText (Rule.run .ofText depth) c).Finds a ts'

variable {p q : Parser α} {ts ts₁ ts' : List TokenKind} {a : α} {v : β}

theorem finds_pure (a : α) (ts : List TokenKind) : (pure a : Parser α).Finds ts a ts :=
  fun _ _ hc => ⟨rfl, hc⟩

/-- Finding one thing after the other. -/
theorem Finds.bind {f : α → Parser β} (hp : p.Finds ts a ts₁) (hf : (f a).Finds ts₁ v ts') :
    (p >>= f).Finds ts v ts' := by
  intro depth c hc
  rw [bind_eq, runWith_bind]
  exact (hp depth c hc).bind fun c₁ hc₁ => hf depth c₁ hc₁

/-- Finding by a rule. -/
theorem Finds.call {r : Rule} {w : r.Result} {f : r.Result → Parser α}
    (h : r.body.Finds ts w ts₁) (hf : (f w).Finds ts₁ a ts') :
    (Parser.call r f).Finds ts a ts' := by
  intro depth c hc
  have hrule : (r.run .ofText depth c).Finds w ts₁ := by
    cases depth with
    | zero => exact rfl
    | succ depth => exact h depth c hc
  simp only [runWith]
  cases hrun : r.run .ofText depth c with
  | error e c₁ =>
    rw [hrun] at hrule
    exact hrule
  | ok w' c₁ =>
    rw [hrun] at hrule
    obtain ⟨rfl, hc₁⟩ := hrule
    exact hf depth c₁ hc₁

theorem finds_kind_bind {f : TokenKind → Parser β} (h : (f (firstOf ts)).Finds ts v ts') :
    (kind >>= f).Finds ts v ts' := by
  intro depth c hc
  have hrun := h depth c hc
  rw [← hc] at hrun
  exact hrun

theorem finds_nextKind_bind {f : TokenKind → Parser β} (h : (f (secondOf ts)).Finds ts v ts') :
    (nextKind >>= f).Finds ts v ts' := by
  intro depth c hc
  have hrun := h depth (c.request 2) hc
  rw [← hc, ← Cursor.next_ofText] at hrun
  exact hrun

theorem finds_index_bind {f : Nat → Parser β} (h : ∀ n, (f n).Finds ts v ts') :
    (index >>= f).Finds ts v ts' :=
  fun depth c hc => h c.place depth c hc

theorem finds_skip_bind {k : TokenKind} {f : Unit → Parser β} (h : (f ()).Finds ts v ts') :
    (skip >>= f).Finds (k :: ts) v ts' := by
  intro depth c hc
  refine h depth c.advance ?_
  rw [Cursor.run_advance, hc, List.tail_cons]

/-- A loop whose step finds the end. -/
theorem finds_iterate {step : σ → Parser (Option σ)} {s : σ} (h : (step s).Finds ts none ts') :
    (iterate step s).Finds ts s ts' :=
  fun depth c hc => (h.bind (finds_pure s ts')) depth c hc

/-- A loop that takes one turn. -/
theorem finds_iterate_once {step : σ → Parser (Option σ)} {s s' : σ} (hne : ts ≠ [])
    (h : (step s).Finds ts (some s') ts₁) (hend : (step s').Finds ts₁ none ts') :
    (iterate step s).Finds ts s' ts' := by
  intro depth c hc
  -- there is room for the turn, since there is a token to move on from
  obtain ⟨n, hn⟩ : ∃ n, c.room = n + 1 := by
    refine Nat.exists_eq_succ_of_ne_zero fun hzero => hne ?_
    rwa [c.room_eq, List.length_eq_zero_iff, hc] at hzero
  show ((iterateAtMost step (c.room + 1) s).runWith .ofText (Rule.run .ofText depth) c).Finds s' ts'
  rw [hn]
  exact (h.bind (hend.bind (finds_pure s' ts'))) depth c hc

end Parser

/-! ### Words -/

namespace Grammar

open SqlSyntax.Parser

variable {p q : Parser α} {k : TokenKind} {w : Keyword} {ts ts' : List TokenKind} {a : α}

theorem finds_isAt_bind {f : Bool → Parser α} (h : (f (firstOf ts = k)).Finds ts a ts') :
    (isAt k >>= f).Finds ts a ts' := by
  rw [isAt, bind_assoc]
  exact finds_kind_bind h

theorem finds_accept (k : TokenKind) (ts : List TokenKind) :
    (accept k).Finds (k :: ts) true ts := by
  refine finds_isAt_bind ?_
  rw [firstOf_cons, decide_eq_true rfl]
  exact finds_skip_bind (finds_pure true ts)

theorem finds_accept_other (h : firstOf ts ≠ k) : (accept k).Finds ts false ts := by
  refine finds_isAt_bind ?_
  rw [decide_eq_false h]
  exact finds_pure false ts

theorem finds_expect (k : TokenKind) (ts : List TokenKind) :
    (expect k).Finds (k :: ts) () ts :=
  (finds_accept k ts).bind (finds_pure () ts)

/-- What stands in parentheses. -/
theorem finds_parenthesized (h : p.Finds ts a (.rightParen :: ts')) :
    (parenthesized p).Finds (.leftParen :: ts) a ts' :=
  (finds_expect .leftParen ts).bind (h.bind ((finds_expect .rightParen ts').bind (finds_pure a ts')))

theorem finds_after_other (h : firstOf ts ≠ .keyword w) :
    (after w p).Finds ts none ts :=
  (finds_accept_other h).bind (finds_pure none ts)

theorem finds_listAfter {p : Parser (List α)} {as : List α} (h : p.Finds ts as ts') :
    (listAfter w p).Finds (.keyword w :: ts) as ts' :=
  (finds_accept (.keyword w) ts).bind h

theorem finds_listAfter_other {p : Parser (List α)} (h : firstOf ts ≠ .keyword w) :
    (listAfter w p).Finds ts [] ts :=
  (finds_accept_other h).bind (finds_pure [] ts)

/-- A list of one item. -/
theorem finds_commaList_one {item : Parser α} {ts₁ : List TokenKind} (h : item.Finds ts a ts₁)
    (hcomma : firstOf ts₁ ≠ .comma) : (commaList item).Finds ts [a] ts₁ := by
  refine h.bind (Finds.bind (finds_iterate ?_) (finds_pure [a] ts₁))
  exact (finds_accept_other hcomma).bind (finds_pure none ts₁)

/-! ### Rules -/

theorem finds_operand {above : Level} {n : Node} (h : (expressionAbove above).Finds ts n ts') :
    (operand above).Finds ts n ts' :=
  Finds.call (r := .expression above) h (finds_pure n ts')

theorem finds_query {s : Select} (h : queryWithClauses.Finds ts s ts') : query.Finds ts s ts' :=
  Finds.call (r := .query) h (finds_pure s ts')

theorem finds_enclosedContent {e : Enclosed} (h : enclosed.Finds ts e ts') :
    enclosedContent.Finds ts e ts' :=
  Finds.call (r := .enclosed) h (finds_pure e ts')

theorem finds_enclosedSourceContent {e : Enclosed} (h : enclosedSource.Finds ts e ts') :
    enclosedSourceContent.Finds ts e ts' :=
  Finds.call (r := .enclosedSource) h (finds_pure e ts')

end Grammar

end SqlSyntax
