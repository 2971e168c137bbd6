import SqlSyntax.Proofs.Grammar.Run

/-!
# What parsers yield

A property of all values of a parser, whatever the tokens are and wherever it stops.
It is found from the properties of its parts, given what is known of the tokens and of
the values of the rules.  If each rule keeps to what is known of it, so do all runs,
however deep the rules nest.

## Main definitions

* `Known` — what is known of tokens and of the values of rules.
* `Parser.Ensures` — what holds of each value and the token where the parser stops.
* `Parser.Yields` — what holds of each value.

## Main results

* `Yields.bind`, `yields_iterate` — parsers one after the other.
* `yields_subscript` — the bounds of a subscript.
* `Yields.of_run` — **what a parser yields holds of the value of a run.**
-/

namespace SqlSyntax

variable {α β σ : Type}

/-- What is known of the tokens of a statement and of the values of rules. -/
structure Known where
  /-- What holds of each token. -/
  token : TokenKind → Prop
  /-- What holds of each value of a rule. -/
  value : (r : Rule) → r.Result → Prop

theorem forall_mem_some {P : α → Prop} {a : α} (h : P a) : ∀ a' ∈ some a, P a' := by
  intro a' ha
  cases ha
  exact h

theorem two_le_length {as : List α} (hne : as ≠ []) (hmany : ∀ a, as ≠ [a]) : 2 ≤ as.length := by
  cases as with
  | nil => exact absurd rfl hne
  | cons a as =>
    cases as with
    | nil => exact absurd rfl (hmany a)
    | cons b more => exact Nat.le_add_left 2 more.length

theorem forall_mem_none {P : α → Prop} : ∀ a ∈ none, P a := by
  intro a ha
  cases ha

namespace Parser

variable {K : Known}

/-! ### The token at hand -/

/-- From the token `k` on, each value of the parser and the token where it stops pass the
test `P`. -/
def Ensures (K : Known) : Parser α → TokenKind → (α → TokenKind → Prop) → Prop
  | done a, k, P => P a k
  | fail _, _, _ => True
  | current next, k, P => (next k).Ensures K k P
  | peek next, k, P => ∀ k', K.token k' → (next k').Ensures K k P
  | place next, k, P => ∀ n, (next n).Ensures K k P
  | room next, k, P => ∀ n, (next n).Ensures K k P
  | advance next, _, P => ∀ k, K.token k → next.Ensures K k P
  | warn _ next, k, P => next.Ensures K k P
  | call r next, _, P => ∀ v, K.value r v → ∀ k, K.token k → (next v).Ensures K k P

theorem ensures_bind {p : Parser α} {f : α → Parser β} {k : TokenKind}
    {P : β → TokenKind → Prop} :
    (p.bind f).Ensures K k P ↔ p.Ensures K k fun a k' => (f a).Ensures K k' P := by
  induction p generalizing k with
  | done | fail => exact Iff.rfl
  | current _ ih => exact ih k
  | warn _ _ ih => exact ih
  | peek _ ih => exact forall₂_congr fun k' _ => ih k'
  | place _ ih | room _ ih => exact forall_congr' fun n => ih n
  | advance _ ih => exact forall₂_congr fun _ _ => ih
  | call r _ ih => exact forall₂_congr fun v _ => forall₂_congr fun _ _ => ih v

/-- A weaker test is passed too, and the token where a parser stops is one of the
statement. -/
theorem Ensures.mono {p : Parser α} {k : TokenKind} {P Q : α → TokenKind → Prop}
    (h : p.Ensures K k P) (hk : K.token k) (hPQ : ∀ a k', K.token k' → P a k' → Q a k') :
    p.Ensures K k Q := by
  induction p generalizing k with
  | done a => exact hPQ a k hk h
  | fail => trivial
  | current _ ih => exact ih k h hk
  | warn _ _ ih => exact ih h hk
  | peek _ ih => exact fun k' hk' => ih k' (h k' hk') hk
  | place _ ih | room _ ih => exact fun n => ih n (h n) hk
  | advance _ ih => exact fun k' hk' => ih (h k' hk') hk'
  | call r _ ih => exact fun v hv k' hk' => ih v (h v hv k' hk') hk'

/-! ### Any token -/

/-- Each value of the parser passes the test `P`. -/
def Yields (K : Known) (P : α → Prop) (p : Parser α) : Prop :=
  ∀ k, K.token k → p.Ensures K k fun a _ => P a

variable {P Q : α → Prop} {p : Parser α}

theorem Yields.mono (h : p.Yields K P) (hPQ : ∀ a, P a → Q a) : p.Yields K Q :=
  fun k hk => (h k hk).mono hk fun a _ _ => hPQ a

theorem ensures_trivial (p : Parser α) (k : TokenKind) : p.Ensures K k fun _ _ => True := by
  induction p generalizing k with
  | done | fail => trivial
  | current _ ih => exact ih k k
  | warn _ _ ih => exact ih k
  | peek _ ih => exact fun k' _ => ih k' k
  | place _ ih | room _ ih => exact fun n => ih n k
  | advance _ ih => exact fun k' _ => ih k'
  | call r _ ih => exact fun v _ k' _ => ih v k'

theorem yields_trivial (p : Parser α) : p.Yields K fun _ => True :=
  fun k _ => ensures_trivial p k

theorem yields_pure {a : α} (h : P a) : (pure a : Parser α).Yields K P :=
  fun _ _ => h

theorem yields_fail (e : Problem) : (fail e : Parser α).Yields K P :=
  fun _ _ => trivial

theorem yields_refuse (cause : Cause) : (refuse cause : Parser α).Yields K P :=
  fun _ _ _ => trivial

theorem yields_unexpected (expected : Expected) : (unexpected expected : Parser α).Yields K P :=
  yields_refuse _

theorem yields_misplaced : (misplaced : Parser α).Yields K P :=
  yields_refuse _

theorem yields_refuseSince (first : Nat) (cause : Cause) :
    (refuseSince first cause : Parser α).Yields K P :=
  fun _ _ _ => trivial

theorem yields_call {r : Rule} {f : r.Result → Parser α}
    (h : ∀ v, K.value r v → (f v).Yields K P) : (call r f).Yields K P :=
  fun _ _ v hv k hk => h v hv k hk

theorem Yields.bind {f : α → Parser β} {R : β → Prop} (h : p.Yields K P)
    (hf : ∀ a, P a → (f a).Yields K R) : (p >>= f).Yields K R :=
  fun k hk => ensures_bind.mpr ((h k hk).mono hk fun a k' hk' ha => hf a ha k' hk')

/-- The values of a first parser may not matter. -/
theorem yields_bind_any {f : α → Parser β} {R : β → Prop} (hf : ∀ a, (f a).Yields K R) :
    (p >>= f).Yields K R :=
  (yields_trivial p).bind fun a _ => hf a

theorem yields_kind_bind {f : TokenKind → Parser β} {R : β → Prop}
    (hf : ∀ k, K.token k → (f k).Yields K R) : (kind >>= f).Yields K R :=
  fun k hk => hf k hk k hk

theorem yields_ite {c : Prop} [Decidable c] {q : Parser α} (hp : c → p.Yields K P)
    (hq : ¬c → q.Yields K P) : (if c then p else q).Yields K P := by
  split
  · exact hp ‹c›
  · exact hq ‹¬c›

/-- A step that keeps a property may be repeated. -/
theorem yields_iterate {step : σ → Parser (Option σ)} {P : σ → Prop} {s : σ} (hs : P s)
    (hstep : ∀ s, P s → (step s).Yields K fun found => ∀ s' ∈ found, P s') :
    (iterate step s).Yields K P := by
  have hmost : ∀ n s, P s → (iterateAtMost step n s).Yields K P := by
    intro n
    induction n with
    | zero => exact fun s hs => yields_pure hs
    | succ n ih =>
      intro s hs
      rw [iterateAtMost]
      apply (hstep s hs).bind
      intro found hfound
      cases found with
      | none => exact yields_pure hs
      | some s' => exact ih s' (hfound s' rfl)
  exact fun k hk n => hmost (n + 1) s hs k hk

/-! ### Runs -/

variable {b : Boundary} {rules : (r : Rule) → Cursor → Outcome r.Result}

/-- The tokens of the statement and those behind it are as they are known to be. -/
structure Fits (K : Known) (b : Boundary) (c : Cursor) : Prop where
  run : ∀ k ∈ c.run, K.token k
  stop : K.token b.stop
  beyond : K.token b.beyond

namespace Fits

variable {c c' : Cursor}

theorem of_reaches (h : Fits K b c) (hc : c.Reaches c') : Fits K b c' where
  run k hk := h.run k (hc.mem_run hk)
  stop := h.stop
  beyond := h.beyond

theorem current (h : Fits K b c) : K.token (c.current b) := by
  unfold Cursor.current
  cases hrun : c.run with
  | nil => exact h.stop
  | cons k ks => exact h.run k (hrun ▸ List.mem_cons_self)

theorem next (h : Fits K b c) : K.token (c.next b) := by
  have hmem := h.run
  unfold Cursor.next
  split
  · next k _ hrun => exact hmem k (hrun ▸ List.mem_cons_of_mem _ List.mem_cons_self)
  · exact h.stop
  · exact h.beyond

end Fits

/-- What a parser ensures holds of the value of a run, if the rules keep to what is known
of them. -/
theorem Ensures.of_runWith {p : Parser α} {P : α → TokenKind → Prop} {c c' : Cursor} {a : α}
    (hreach : ∀ r (c : Cursor), c.Reaches (rules r c).cursor)
    (hvalue : ∀ r c v c', Fits K b c → rules r c = .ok v c' → K.value r v)
    (hc : Fits K b c) (h : p.Ensures K (c.current b) P) (hrun : p.runWith b rules c = .ok a c') :
    P a (c'.current b) := by
  induction p generalizing c with
  | done a₁ =>
    cases hrun
    exact h
  | fail q => cases hrun
  | current next ih => exact ih _ hc h hrun
  | peek next ih => exact ih _ (c := c.request 2) ⟨hc.run, hc.stop, hc.beyond⟩ (h _ hc.next) hrun
  | place next ih => exact ih c.place hc (h c.place) hrun
  | room next ih => exact ih c.room hc (h c.room) hrun
  | advance next ih =>
    have hc' := hc.of_reaches c.reaches_advance
    exact ih hc' (h _ hc'.current) hrun
  | warn w next ih => exact ih (c := c.warn w) ⟨hc.run, hc.stop, hc.beyond⟩ h hrun
  | call r next ih =>
    have hstep := hreach r c
    simp only [runWith] at hrun
    cases hr : rules r c with
    | ok v c₁ =>
      rw [hr] at hrun hstep
      have hc₁ := hc.of_reaches hstep
      exact ih v hc₁ (h v (hvalue r c v c₁ hc hr) _ hc₁.current) hrun
    | error q c₁ =>
      rw [hr] at hrun
      cases hrun

/-- Rules keep to what is known of them at any depth, if their bodies do. -/
theorem value_of_run (hbody : ∀ r : Rule, r.body.Yields K (K.value r)) {depth : Nat} {r : Rule}
    {c c' : Cursor} {v : r.Result} (hc : Fits K b c) (hrun : r.run b depth c = .ok v c') :
    K.value r v := by
  induction depth generalizing r c c' with
  | zero => cases hrun
  | succ depth ih =>
    exact Ensures.of_runWith (fun r c => r.reaches_run b depth c)
      (fun _ _ _ _ hc h => ih hc h) hc (hbody r _ hc.current) hrun

/-- **What a parser yields holds of the value of a run.** -/
theorem Yields.of_run (hbody : ∀ r : Rule, r.body.Yields K (K.value r)) (h : p.Yields K P)
    {c c' : Cursor} {a : α} (hc : Fits K b c) (hrun : p.run b c = .ok a c') : P a :=
  Ensures.of_runWith (fun r c => r.reaches_run b maxNesting c)
    (fun _ _ _ _ hc h => value_of_run hbody hc h) hc (h _ hc.current) hrun

end Parser

/-! ### Words and lists -/

namespace Grammar

open SqlSyntax.Parser

variable {K : Known} {P : α → Prop} {p item : Parser α}

/-- Whether the current token is `t` depends on that token alone. -/
theorem ensures_isAt {t k : TokenKind} {f : Bool → Parser β} {Q : β → TokenKind → Prop} :
    (isAt t >>= f).Ensures K k Q ↔ (f (decide (k = t))).Ensures K k Q :=
  Iff.rfl

/-- Behind a token that is not there the current token is the same. -/
theorem ensures_accept {t k : TokenKind} {f : Bool → Parser β} {Q : β → TokenKind → Prop}
    (hfound : k = t → ∀ k', K.token k' → (f true).Ensures K k' Q)
    (hmissing : k ≠ t → (f false).Ensures K k Q) : (accept t >>= f).Ensures K k Q := by
  unfold accept
  rw [bind_assoc, ensures_isAt]
  by_cases hk : k = t
  · rw [decide_eq_true hk]
    exact hfound hk
  · rw [decide_eq_false hk]
    exact hmissing hk

theorem yields_after (w : Keyword) (h : p.Yields K P) :
    (after w p).Yields K fun o => ∀ a ∈ o, P a := by
  unfold after
  apply yields_bind_any
  intro found
  apply yields_ite
  · intro _
    apply h.bind
    intro a ha
    exact yields_pure (forall_mem_some ha)
  · intro _
    exact yields_pure forall_mem_none

theorem yields_listAfter (w : Keyword) {p : Parser (List α)}
    (h : p.Yields K fun as => ∀ a ∈ as, P a) :
    (listAfter w p).Yields K fun as => ∀ a ∈ as, P a := by
  unfold listAfter
  apply yields_bind_any
  intro found
  apply yields_ite
  · exact fun _ => h
  · exact fun _ => yields_pure (List.forall_mem_nil _)

theorem yields_parenthesized (h : p.Yields K P) : (parenthesized p).Yields K P := by
  unfold parenthesized
  apply yields_bind_any
  intro _
  apply h.bind
  intro a ha
  apply yields_bind_any
  intro _
  exact yields_pure ha

/-- Items behind others make a list with something in it. -/
theorem yields_itemsAfter (mark : TokenKind) (hitem : item.Yields K P) {items : List α}
    (hne : items ≠ []) (hitems : ∀ a ∈ items, P a) :
    (itemsAfter mark item items).Yields K fun as => as ≠ [] ∧ ∀ a ∈ as, P a := by
  have hsteps : (iterate (moreItems mark item) items.reverse).Yields K
      fun as => as ≠ [] ∧ ∀ a ∈ as, P a := by
    apply yields_iterate
    · exact ⟨List.reverse_ne_nil_iff.mpr hne, fun a ha => hitems a (List.mem_reverse.mp ha)⟩
    · intro as has
      unfold moreItems
      apply yields_bind_any
      intro found
      apply yields_ite
      · intro _
        apply hitem.bind
        intro a ha
        apply yields_pure
        exact forall_mem_some ⟨List.cons_ne_nil a as, List.forall_mem_cons.mpr ⟨ha, has.2⟩⟩
      · exact fun _ => yields_pure forall_mem_none
  unfold itemsAfter
  apply hsteps.bind
  intro as has
  exact yields_pure
    ⟨List.reverse_ne_nil_iff.mpr has.1, fun a ha => has.2 a (List.mem_reverse.mp ha)⟩

theorem yields_commaList (hitem : item.Yields K P) :
    (commaList item).Yields K fun as => as ≠ [] ∧ ∀ a ∈ as, P a := by
  unfold commaList
  apply hitem.bind
  intro a ha
  exact yields_itemsAfter .comma hitem (List.cons_ne_nil a []) (by simpa using ha)

/-- The items of a list with commas. -/
theorem yields_commaList_mem (hitem : item.Yields K P) :
    (commaList item).Yields K fun as => ∀ a ∈ as, P a :=
  (yields_commaList hitem).mono fun _ h => h.2

/-! ### Rules -/

theorem yields_operand (above : Level) :
    (operand above).Yields K (K.value (.expression above)) :=
  yields_call fun _ hv => yields_pure hv

theorem yields_query : query.Yields K (K.value .query) :=
  yields_call fun _ hv => yields_pure hv

theorem yields_enclosedContent : enclosedContent.Yields K (K.value .enclosed) :=
  yields_call fun _ hv => yields_pure hv

theorem yields_enclosedSourceContent :
    enclosedSourceContent.Yields K (K.value .enclosedSource) :=
  yields_call fun _ hv => yields_pure hv

/-! ### Subscripts -/

/-- What is known of expressions holds of a bound. -/
theorem ensures_optionalBound {stop k : TokenKind} (hk : K.token k) :
    (optionalBound stop).Ensures K k fun bound k' =>
      (∀ n ∈ bound, K.value (.expression 0) n) ∧ (bound = none → k' = stop) := by
  unfold optionalBound
  rw [ensures_isAt]
  by_cases hstop : k = stop
  · rw [decide_eq_true hstop]
    exact ⟨nofun, fun _ => hstop⟩
  · rw [decide_eq_false hstop]
    refine ensures_bind.mpr ((yields_operand 0 k hk).mono hk fun n k' _ hn => ?_)
    exact ⟨forall_mem_some hn, nofun⟩

theorem yields_optionalBound (stop : TokenKind) :
    (optionalBound stop).Yields K fun bound => ∀ n ∈ bound, K.value (.expression 0) n :=
  fun _ hk => (ensures_optionalBound hk).mono hk fun _ _ _ h => h.1

/-- A subscript that is no slice has a single bound. -/
theorem yields_subscript : subscript.Yields K fun s =>
    (s.slice = false → s.lower = none ∧ s.upper.isSome = true) ∧
      (∀ n ∈ s.lower, K.value (.expression 0) n) ∧ ∀ n ∈ s.upper, K.value (.expression 0) n := by
  intro k hk
  unfold subscript
  refine ensures_bind.mpr ((ensures_optionalBound hk).mono hk fun lower k' hk' ⟨hlower, hnone⟩ => ?_)
  refine ensures_accept (fun _ k'' hk'' => ?_) fun hcolon => ?_
  · have hslice : (do
        let upper ← optionalBound .rightBracket
        expect .rightBracket
        return ⟨true, lower, upper⟩ : Parser Subscript).Yields K fun s =>
          (s.slice = false → s.lower = none ∧ s.upper.isSome = true) ∧
            (∀ n ∈ s.lower, K.value (.expression 0) n) ∧
              ∀ n ∈ s.upper, K.value (.expression 0) n := by
      apply (yields_optionalBound _).bind
      intro upper hupper
      apply yields_bind_any
      intro _
      exact yields_pure ⟨nofun, hlower, hupper⟩
    exact hslice k'' hk''
  · -- without a bound the current token is a colon, so that one is read next
    have hsome : lower.isSome = true :=
      Option.isSome_iff_ne_none.mpr fun h => hcolon (hnone h)
    refine ensures_bind.mpr ((ensures_trivial (expect .rightBracket) k').mono hk' fun _ _ _ _ => ?_)
    exact ⟨fun _ => ⟨rfl, hsome⟩, nofun, hlower⟩

end Grammar

end SqlSyntax
