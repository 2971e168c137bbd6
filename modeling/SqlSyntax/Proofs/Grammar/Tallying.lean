import SqlSyntax.Proofs.Grammar.Yielding
import SqlSyntax.Proofs.Tree.Params

/-!
# What becomes of parameters

A parser reads the parameters of a statement one by one and puts each into its value.
So the parameters that it has read are those of what it gives: none is left out and none
is used twice.

Whether a token may be passed over without an account depends on what it is.  Therefore
a parser is followed along the token at hand and the one behind it, as far as it has
asked for them.

## Main definitions

* `Parser.View` — what a parser sees of a statement, and what it has read.
* `Parser.Tracks` — what holds of each value and of the view behind it.
* `Parser.TalliesFrom`, `Parser.Tallies` — the parameters read are those of the value.
* `Parser.QuietFrom`, `Parser.Quiet` — a parser reads no parameters.

## Main results

* `TalliesFrom.bind`, `tallies_iterate` — parsers one after the other.
* `Tallies.of_run` — **the parameters that a run reads are those of its value.**
-/

namespace SqlSyntax

variable {α β σ : Type}

/-- The number of a parameter. -/
def TokenKind.params : TokenKind → Multiset Int
  | param m => {m}
  | _ => 0

theorem TokenKind.eq_param_of_params {k : TokenKind} (h : k.params ≠ 0) : ∃ m, k = .param m := by
  cases k with
  | param m => exact ⟨m, rfl⟩
  | _ => exact absurd rfl h

/-- Nothing is known of the tokens and of the values of rules. -/
def Known.nothing : Known :=
  ⟨fun _ => True, fun _ _ => True⟩

/-- The parameters of what parentheses hold. -/
def Enclosed.params : Enclosed → Multiset Int
  | query s => s.params
  | item n => n.params

/-- The parameters in the value of a rule. -/
def Rule.params : (r : Rule) → r.Result → Multiset Int
  | expression _, n => n.params
  | query, s => s.params
  | enclosed, e => e.params
  | elements, es => total Node.params es
  | enclosedSource, e => e.params

namespace Parser

/-! ### Views of a statement -/

/-- What a parser sees of a statement. -/
structure View where
  /-- The token at hand. -/
  kind : TokenKind
  /-- The token behind it. -/
  next : TokenKind
  /-- The parameters that have been read. -/
  read : Multiset Int

/-- From the view `v` on, each value of the parser and the view behind it pass the test
`P`. -/
def Tracks : Parser α → View → (α → View → Prop) → Prop
  | done a, v, P => P a v
  | fail _, _, _ => True
  | current next, v, P => (next v.kind).Tracks v P
  | peek next, v, P => (next v.next).Tracks v P
  | place next, v, P => ∀ n, (next n).Tracks v P
  | room next, v, P => ∀ n, (next n).Tracks v P
  | advance next, v, P =>
    -- the end of a statement is not left, and nothing is known of the token that comes up
    (v.kind.endsStatement = true → next.Tracks v P) ∧
      ∀ k, next.Tracks ⟨v.next, k, v.read + v.kind.params⟩ P
  | warn _ next, v, P => next.Tracks v P
  | call r next, v, P => ∀ a k k', (next a).Tracks ⟨k, k', v.read + r.params a⟩ P

theorem tracks_bind {p : Parser α} {f : α → Parser β} {v : View} {P : β → View → Prop} :
    (p.bind f).Tracks v P ↔ p.Tracks v fun a v' => (f a).Tracks v' P := by
  induction p generalizing v with
  | done | fail => exact Iff.rfl
  | current _ ih | peek _ ih => exact ih _
  | place _ ih | room _ ih => exact forall_congr' fun n => ih n
  | advance _ ih => exact and_congr (imp_congr_right fun _ => ih) (forall_congr' fun _ => ih)
  | warn _ _ ih => exact ih
  | call r _ ih => exact forall_congr' fun a => forall₂_congr fun _ _ => ih a

theorem Tracks.mono {p : Parser α} {v : View} {P Q : α → View → Prop} (h : p.Tracks v P)
    (hPQ : ∀ a v', P a v' → Q a v') : p.Tracks v Q := by
  induction p generalizing v with
  | done a => exact hPQ a v h
  | fail => trivial
  | current _ ih | peek _ ih => exact ih _ h
  | place _ ih | room _ ih => exact fun n => ih n (h n)
  | advance _ ih => exact ⟨fun hends => ih (h.1 hends), fun k => ih (h.2 k)⟩
  | warn _ _ ih => exact ih h
  | call r _ ih => exact fun a k k' => ih a (h a k k')

/-- What all values of a parser have in common holds besides what is tracked. -/
theorem Tracks.and {p : Parser α} {v : View} {P : α → View → Prop} {Q : α → Prop}
    (h : p.Tracks v P) (hQ : p.Ensures .nothing v.kind fun a _ => Q a) :
    p.Tracks v fun a v' => P a v' ∧ Q a := by
  induction p generalizing v with
  | done a => exact ⟨h, hQ⟩
  | fail => trivial
  | current _ ih => exact ih _ h hQ
  | peek _ ih => exact ih _ h (hQ v.next trivial)
  | place _ ih | room _ ih => exact fun n => ih n (h n) (hQ n)
  | advance _ ih =>
    exact ⟨fun hends => ih (h.1 hends) (hQ _ trivial), fun k => ih (h.2 k) (hQ _ trivial)⟩
  | warn _ _ ih => exact ih h hQ
  | call r _ ih => exact fun a k k' => ih a (h a k k') (hQ a trivial k trivial)

/-! ### Accounts -/

/-- The next `known` tokens are no parameters.  A parser sees two tokens at most. -/
structure View.Knows (known : Nat) (v : View) : Prop where
  bound : known ≤ 2
  kind : 1 ≤ known → v.kind.params = 0
  next : 2 ≤ known → v.next.params = 0

theorem View.knows_zero (v : View) : v.Knows 0 :=
  ⟨Nat.zero_le 2, nofun, nofun⟩

theorem View.Knows.mono {known less : Nat} {v : View} (h : v.Knows known) (hless : less ≤ known) :
    v.Knows less :=
  ⟨hless.trans h.bound, fun hone => h.kind (hone.trans hless), fun htwo => h.next (htwo.trans hless)⟩

/-- With `held` in hand, and the parameters read besides, a parser gives a value that
holds them all, if the next `known` tokens are no parameters. -/
def TalliesFrom (known : Nat) (held : Multiset Int) (w : α → Multiset Int) (p : Parser α) : Prop :=
  ∀ v, v.Knows known → p.Tracks v fun a v' => held + v'.read = v.read + w a

/-- The parameters that the parser reads are those of its value. -/
abbrev Tallies (w : α → Multiset Int) (p : Parser α) : Prop :=
  p.TalliesFrom 0 0 w

/-- The parser moves nowhere. -/
class Still (p : Parser α) : Prop where
  tracks {v : View} {P : α → View → Prop} : (∀ a, P a v) → p.Tracks v P

instance (a : α) : (pure a : Parser α).Still := ⟨fun h => h a⟩

instance : kind.Still := ⟨fun h => h _⟩

instance : nextKind.Still := ⟨fun h => h _⟩

instance : index.Still := ⟨fun h n => h n⟩

instance {p : Parser α} {f : α → Parser β} [hp : p.Still] [hf : ∀ a, (f a).Still] :
    (p >>= f).Still :=
  ⟨fun h => tracks_bind.mpr (hp.tracks fun a => (hf a).tracks h)⟩

/-- The parser reads no parameters, if the next `known` tokens are none. -/
class QuietFrom (known : Nat) (p : Parser α) : Prop where
  tallies : p.TalliesFrom known 0 fun _ => 0

/-- The parser reads no parameters. -/
abbrev Quiet (p : Parser α) : Prop :=
  p.QuietFrom 0

section Rules

variable {known : Nat} {held : Multiset Int} {u : α → Multiset Int} {w : β → Multiset Int}
  {p q : Parser α} {f : α → Parser β}

theorem TalliesFrom.of_le {less : Nat} (h : p.TalliesFrom less held u) (hless : less ≤ known) :
    p.TalliesFrom known held u :=
  fun v hv => h v (hv.mono hless)

/-- What a first parser gives is in hand for the next one, which may rely on what its
values have in common. -/
theorem TalliesFrom.bind_of_yields {P : α → Prop} (hp : p.TalliesFrom known 0 u)
    (hP : p.Yields .nothing P) (hf : ∀ a, P a → (f a).TalliesFrom 0 (held + u a) w) :
    (p >>= f).TalliesFrom known held w := by
  intro v hv
  have hboth := (hp v hv).and (hP v.kind trivial)
  refine tracks_bind.mpr (hboth.mono fun a v' ⟨ha, hPa⟩ => ?_)
  refine (hf a hPa v' v'.knows_zero).mono fun b v'' hb => ?_
  -- both sides have what `p` has read
  rw [zero_add] at ha
  rw [ha, add_right_comm, add_right_comm v.read] at hb
  exact add_right_cancel hb

/-- What a first parser gives is in hand for the next one. -/
theorem TalliesFrom.bind (hp : p.TalliesFrom known 0 u)
    (hf : ∀ a, (f a).TalliesFrom 0 (held + u a) w) : (p >>= f).TalliesFrom known held w :=
  hp.bind_of_yields (yields_trivial p) fun a _ => hf a

/-- A first parser hands on what it holds in the end. -/
theorem TalliesFrom.trans (hp : p.TalliesFrom known held u)
    (hf : ∀ a, (f a).TalliesFrom 0 (u a) w) : (p >>= f).TalliesFrom known held w := by
  intro v hv
  refine tracks_bind.mpr ((hp v hv).mono fun a v' ha => ?_)
  refine (hf a v' v'.knows_zero).mono fun b v'' hb => ?_
  have hsum : held + v''.read + v'.read = v.read + w b + v'.read := by
    rw [add_right_comm, ha, add_assoc, hb, add_comm v'.read, add_assoc]
  exact add_right_cancel hsum

theorem quiet_bind [hp : p.QuietFrom known] (hf : ∀ a, (f a).TalliesFrom 0 held w) :
    (p >>= f).TalliesFrom known held w :=
  hp.tallies.bind fun a => (add_zero held).symm ▸ hf a

theorem tallies_pure {a : α} (h : held = u a) : (pure a : Parser α).TalliesFrom known held u := by
  intro v _
  exact h ▸ add_comm held v.read

theorem tallies_fail (e : Problem) : (fail e : Parser α).TalliesFrom known held u :=
  fun _ _ => trivial

theorem tallies_refuse (cause : Cause) : (refuse cause : Parser α).TalliesFrom known held u :=
  fun _ _ _ => trivial

theorem tallies_refuseSince (first : Nat) (cause : Cause) :
    (refuseSince first cause : Parser α).TalliesFrom known held u :=
  fun _ _ _ => trivial

theorem tallies_ite {c : Prop} [Decidable c] (hp : c → p.TalliesFrom known held u)
    (hq : ¬c → q.TalliesFrom known held u) :
    (if c then p else q).TalliesFrom known held u := by
  by_cases hc : c
  · rw [if_pos hc]
    exact hp hc
  · rw [if_neg hc]
    exact hq hc

/-- A parser that moves nowhere leaves all that is known. -/
theorem tallies_still_bind [hp : p.Still] (hf : ∀ a, (f a).TalliesFrom known held w) :
    (p >>= f).TalliesFrom known held w :=
  fun v hv => tracks_bind.mpr (hp.tracks fun a => hf a v hv)

/-- A rule gives what it has read. -/
theorem tallies_call {r : Rule} {f : r.Result → Parser β}
    (hf : ∀ a, (f a).TalliesFrom 0 (held + r.params a) w) :
    (call r f).TalliesFrom known held w := by
  intro v _ a k k'
  refine (hf a _ (View.knows_zero _)).mono fun b v' hb => ?_
  rw [add_right_comm, add_right_comm v.read] at hb
  exact add_right_cancel hb

/-- A token that is no parameter may be passed over. -/
theorem tallies_skip_bind {f : Unit → Parser β} (hf : (f ()).TalliesFrom known held w) :
    (skip >>= f).TalliesFrom (known + 1) held w := by
  intro v hv
  have hkind : v.kind.params = 0 := hv.kind (Nat.le_add_left 1 known)
  refine ⟨fun _ => hf v (hv.mono (Nat.le_succ known)), fun k => ?_⟩
  have hbound := hv.bound
  have hread : v.read + v.kind.params = v.read := by rw [hkind, add_zero]
  rw [hread]
  exact hf _ ⟨by omega, fun h => hv.next (by omega), fun h => by omega⟩

/-- A parameter that is passed over comes into hand. -/
theorem tracks_skip_bind {f : Unit → Parser β} {v : View} {m : Int} (hv : v.kind = .param m)
    (hf : (f ()).TalliesFrom 0 (held + {m}) w) :
    (skip >>= f).Tracks v fun b v' => held + v'.read = v.read + w b := by
  have hends : v.kind.endsStatement ≠ true := by
    rw [hv]
    exact Bool.false_ne_true
  refine ⟨fun h => absurd h hends, fun k => ?_⟩
  refine (hf _ (View.knows_zero _)).mono fun b v' hb => ?_
  rw [hv, TokenKind.params, add_right_comm, add_right_comm v.read] at hb
  exact add_right_cancel hb

/-- A parser may ask for the current token.  It may move on from there if that is no
parameter. -/
theorem tallies_kind_bind {f : TokenKind → Parser β}
    (hparam : ∀ m, (f (.param m)).TalliesFrom 0 held w)
    (hf : ∀ k : TokenKind, k.params = 0 → (f k).TalliesFrom 1 held w) :
    (kind >>= f).TalliesFrom 0 held w := by
  intro v hv
  by_cases hk : v.kind.params = 0
  · exact hf v.kind hk v ⟨by decide, fun _ => hk, fun h => by omega⟩
  · obtain ⟨m, hm⟩ := TokenKind.eq_param_of_params hk
    change (f v.kind).Tracks v _
    rw [hm]
    exact hparam m v hv

/-- A parser may ask for the token behind one that is no parameter. -/
theorem tallies_nextKind_bind {f : TokenKind → Parser β}
    (hparam : ∀ m, (f (.param m)).TalliesFrom 1 held w)
    (hf : ∀ k : TokenKind, k.params = 0 → (f k).TalliesFrom 2 held w) :
    (nextKind >>= f).TalliesFrom 1 held w := by
  intro v hv
  by_cases hk : v.next.params = 0
  · exact hf v.next hk v ⟨Nat.le_refl 2, fun _ => hv.kind (Nat.le_refl 1), fun _ => hk⟩
  · obtain ⟨m, hm⟩ := TokenKind.eq_param_of_params hk
    change (f v.next).Tracks v _
    rw [hm]
    exact hparam m v hv

theorem tracks_kind_bind {f : TokenKind → Parser β} {v : View} {P : β → View → Prop}
    (hf : (f v.kind).Tracks v P) : (kind >>= f).Tracks v P :=
  hf

theorem tracks_nextKind_bind {f : TokenKind → Parser β} {v : View} {P : β → View → Prop}
    (hf : (f v.next).Tracks v P) : (nextKind >>= f).Tracks v P :=
  hf

/-- A step may be repeated if it keeps what the state holds. -/
theorem tallies_iterate {step : σ → Parser (Option σ)} {u : σ → Multiset Int}
    (hstep : ∀ s, (step s).TalliesFrom 0 (u s) fun found => u (found.getD s)) (s : σ) :
    (iterate step s).TalliesFrom 0 (u s) u := by
  have hmost : ∀ n s, (iterateAtMost step n s).TalliesFrom 0 (u s) u := by
    intro n
    induction n with
    | zero => exact fun s => tallies_pure rfl
    | succ n ih =>
      refine fun s => (hstep s).trans fun found => ?_
      cases found with
      | none => exact tallies_pure rfl
      | some s' => exact ih s'
  exact fun v hv n => hmost (n + 1) s v hv

end Rules

/-! ### Parsers without parameters -/

section Quiet

variable {known : Nat} {p q : Parser α} {f : α → Parser β}

instance (priority := low) QuietFrom.succ [h : p.QuietFrom known] : p.QuietFrom (known + 1) :=
  ⟨h.tallies.of_le (Nat.le_succ known)⟩

instance (a : α) : (done a).QuietFrom known := ⟨tallies_pure rfl⟩

instance (a : α) : (pure a : Parser α).QuietFrom known := ⟨tallies_pure rfl⟩

instance (e : Problem) : (fail e : Parser α).QuietFrom known := ⟨tallies_fail e⟩

instance (cause : Cause) : (refuse cause : Parser α).QuietFrom known := ⟨tallies_refuse cause⟩

instance (expected : Expected) : (unexpected expected : Parser α).QuietFrom known :=
  ⟨tallies_refuse _⟩

instance : (misplaced : Parser α).QuietFrom known := ⟨tallies_refuse _⟩

instance (first : Nat) (cause : Cause) : (refuseSince first cause : Parser α).QuietFrom known :=
  ⟨tallies_refuseSince first cause⟩

instance : index.QuietFrom known := ⟨fun v _ _ => add_comm 0 v.read⟩

instance (w : Keyword) [hp : p.QuietFrom known] : (warn w p).QuietFrom known :=
  ⟨fun v hv => hp.tallies v hv⟩

instance [p.QuietFrom known] [hf : ∀ a, (f a).Quiet] : (p >>= f).QuietFrom known :=
  ⟨quiet_bind fun a => (hf a).tallies⟩

instance {f : Nat → Parser α} [hf : ∀ n, (f n).QuietFrom known] :
    (index >>= f).QuietFrom known :=
  ⟨tallies_still_bind fun n => (hf n).tallies⟩

instance {c : Prop} [Decidable c] [hp : p.QuietFrom known] [hq : q.QuietFrom known] :
    (if c then p else q).QuietFrom known :=
  ⟨tallies_ite (fun _ => hp.tallies) fun _ => hq.tallies⟩

instance {f : Unit → Parser α} [hf : (f ()).QuietFrom known] :
    (skip >>= f).QuietFrom (known + 1) :=
  ⟨tallies_skip_bind hf.tallies⟩

theorem quiet_kind {f : TokenKind → Parser β} (hparam : ∀ m, (f (.param m)).Quiet)
    (hf : ∀ k : TokenKind, k.params = 0 → (f k).QuietFrom 1) : (kind >>= f).Quiet :=
  ⟨tallies_kind_bind (fun m => (hparam m).tallies) fun k hk => (hf k hk).tallies⟩

instance {step : σ → Parser (Option σ)} [h : ∀ s, (step s).Quiet] (s : σ) :
    (iterate step s).Quiet :=
  ⟨tallies_iterate (u := fun _ => 0) (fun s => (h s).tallies) s⟩

end Quiet

/-! ### Runs -/

variable {b : Boundary} {rules : (r : Rule) → Cursor → Outcome r.Result}

/-- What a run has read is what has gone from its statement. -/
theorem Tracks.of_runWith (hb : b.stop.endsStatement = true)
    (hrules : ∀ r c a c', rules r c = .ok a c' →
      total TokenKind.params c.run = r.params a + total TokenKind.params c'.run)
    {p : Parser α} {P : α → View → Prop} {c c' : Cursor} {a : α} {m : Multiset Int}
    (h : p.Tracks ⟨c.current b, c.next b, m⟩ P) (hrun : p.runWith b rules c = .ok a c') :
    ∃ m', P a ⟨c'.current b, c'.next b, m'⟩ ∧
      m + total TokenKind.params c.run = m' + total TokenKind.params c'.run := by
  induction p generalizing c m with
  | done a₁ =>
    cases hrun
    exact ⟨m, h, rfl⟩
  | fail q => cases hrun
  | current next ih => exact ih _ h hrun
  | peek next ih => exact ih _ (c := c.request 2) h hrun
  | place next ih => exact ih c.place (h c.place) hrun
  | room next ih => exact ih c.room (h c.room) hrun
  | warn w next ih => exact ih (c := c.warn w) h hrun
  | advance next ih =>
    cases hc : c.run with
    | nil =>
      have hcurrent : c.current b = b.stop := by rw [Cursor.current, hc]; rfl
      have hadvance : c.advance = c := by
        obtain ⟨run, _, _, _, _, _⟩ := c
        cases hc
        rfl
      rw [← hc]
      simp only [runWith, hadvance] at hrun
      exact ih (h.1 (hcurrent ▸ hb)) hrun
    | cons k ks =>
      have hcurrent : c.current b = k := by rw [Cursor.current, hc]; rfl
      have hadvance : c.advance.run = ks := by
        obtain ⟨run, _, _, _, _, _⟩ := c
        cases hc
        rfl
      have hnext : c.advance.current b = c.next b := by
        rw [Cursor.current, hadvance, Cursor.next, hc]
        cases ks <;> rfl
      have hview := h.2 (c.advance.next b)
      rw [← hnext] at hview
      obtain ⟨m', hP, hm'⟩ := ih hview hrun
      refine ⟨m', hP, ?_⟩
      rw [← hm', hadvance, total_cons, add_assoc]
      exact congrArg (fun k' : TokenKind => m + (k'.params + total TokenKind.params ks)) hcurrent.symm
  | call r next ih =>
    simp only [runWith] at hrun
    cases hr : rules r c with
    | error q c₁ =>
      rw [hr] at hrun
      cases hrun
    | ok v c₁ =>
      rw [hr] at hrun
      obtain ⟨m', hP, hm'⟩ := ih v (h v _ _) hrun
      exact ⟨m', hP, by rw [hrules r c v c₁ hr, ← add_assoc, hm']⟩

theorem TalliesFrom.of_runWith {w : α → Multiset Int} {p : Parser α} (hb : b.stop.endsStatement = true)
    (hrules : ∀ r c a c', rules r c = .ok a c' →
      total TokenKind.params c.run = r.params a + total TokenKind.params c'.run)
    (h : p.Tallies w) {c c' : Cursor} {a : α} (hrun : p.runWith b rules c = .ok a c') :
    total TokenKind.params c.run = w a + total TokenKind.params c'.run := by
  obtain ⟨m, hm, hread⟩ := Tracks.of_runWith hb hrules
    (h ⟨c.current b, c.next b, 0⟩ (View.knows_zero _)) hrun
  have hvalue : m = w a := by simpa using hm
  rw [zero_add, hvalue] at hread
  exact hread

/-- Rules give what they have read at any depth, if their bodies do. -/
theorem params_of_run (hbody : ∀ r : Rule, r.body.Tallies r.params)
    (hb : b.stop.endsStatement = true) {depth : Nat} {r : Rule} {c c' : Cursor} {a : r.Result}
    (hrun : r.run b depth c = .ok a c') :
    total TokenKind.params c.run = r.params a + total TokenKind.params c'.run := by
  induction depth generalizing r c c' with
  | zero => cases hrun
  | succ depth ih => exact (hbody r).of_runWith hb (fun _ _ _ _ h => ih h) hrun

/-- **The parameters that a run reads are those of its value**: none is left out and none
is used twice. -/
theorem TalliesFrom.of_run {w : α → Multiset Int} {p : Parser α} (h : p.Tallies w)
    (hbody : ∀ r : Rule, r.body.Tallies r.params) (hb : b.stop.endsStatement = true)
    {c c' : Cursor} {a : α} (hrun : p.run b c = .ok a c') :
    total TokenKind.params c.run = w a + total TokenKind.params c'.run :=
  h.of_runWith hb (fun _ _ _ _ h => params_of_run hbody hb h) hrun

end Parser

end SqlSyntax
