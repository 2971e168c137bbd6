import SqlSyntax.Proofs.Grammar.Run

/-!
# Parsers that keep to their statement

A parser keeps to its statement if it moves on only from a token that it has
seen to be one of the statement, does not look beyond the end, and does not tell
the two kinds of ends apart.  What such a parser makes of a statement depends on
the tokens of the statement only.

## Main definitions

* `Parser.Keeps` — a parser keeps to its statement, given how many tokens of it
  are known to lie ahead.
* `Parser.LocalFrom`, `Parser.Local` — the same as classes, with instances for all
  ways to put parsers together.
* `Parser.Stuck` — a parser fails at the end of a statement.
* `Cursor.Twin`, `Outcome.Agree` — the same place, and the same outcome, of two
  runs.

## Main results

* `Keeps.agree` — two runs of a parser that keeps to its statement agree.
-/

namespace SqlSyntax

variable {α β σ : Type}

namespace Parser

/-! ### Parsers that fail at the end -/

/-- The parser fails at the end of a statement without moving on, if all rules do. -/
def Stuck : Parser α → Prop
  | done _ => False
  | fail _ => True
  | current next => (next .eof).Stuck ∧ (next .semicolon).Stuck
  | peek next => ∀ k, (next k).Stuck
  | place next => ∀ n, (next n).Stuck
  | room next => ∀ n, (next n).Stuck
  | advance _ => False
  | warn _ next => next.Stuck
  | call _ _ => True

theorem Stuck.bind {p : Parser α} (h : p.Stuck) (f : α → Parser β) : (p.bind f).Stuck := by
  induction p with
  | done a => exact h.elim
  | fail q => exact trivial
  | current _ ih => exact ⟨ih _ h.1, ih _ h.2⟩
  | peek _ ih | place _ ih | room _ ih => exact fun k => ih k (h k)
  | advance _ _ => exact h.elim
  | warn _ _ ih => exact ih h
  | call r _ _ => exact trivial

/-! ### Parsers that keep to their statement -/

/-- The parser keeps to its statement if `known` tokens of it lie ahead; behind a
value `a` there are `left a` of them. -/
def Keeps (left : α → Nat) : Nat → Parser α → Prop
  | known, done a => left a ≤ known
  | _, fail _ => True
  | known, current next =>
    (known = 0 → next .semicolon = next .eof ∧ (next .eof).Keeps left 0) ∧
      ∀ k : TokenKind, k.endsStatement = false → (next k).Keeps left (max known 1)
  | known, peek next =>
    -- at the end of the statement the answer makes no difference
    (known = 0 → ∀ k, (next k).Stuck) ∧
    (known ≤ 1 → next .semicolon = next .eof ∧ (next .eof).Keeps left 1) ∧
      ∀ k : TokenKind, k.endsStatement = false → (next k).Keeps left (max known 2)
  | known, place next => ∀ n, (next n).Keeps left known
  | known, room next => ∀ n, (next n).Keeps left known
  | known, advance next => 0 < known ∧ next.Keeps left (known - 1)
  | known, warn _ next => next.Keeps left known
  | _, call _ next => ∀ v, (next v).Keeps left 0

variable {known more : Nat} {left : α → Nat}

/-- It helps to know more. -/
theorem Keeps.mono {p : Parser α} {less : α → Nat} (h : p.Keeps left known)
    (hknown : known ≤ more) (hleft : ∀ a, less a ≤ left a) : p.Keeps less more := by
  induction p generalizing known more with
  | done a => exact Nat.le_trans (hleft a) (Nat.le_trans h hknown)
  | fail q => exact trivial
  | current next ih =>
    refine ⟨fun hmore => ?_, fun k hk => ih k (h.2 k hk) (by omega)⟩
    obtain ⟨heq, hend⟩ := h.1 (by omega)
    exact ⟨heq, ih _ hend (Nat.le_refl 0)⟩
  | peek next ih =>
    refine ⟨fun hmore => h.1 (by omega), fun hmore => ?_, fun k hk => ih k (h.2.2 k hk) (by omega)⟩
    obtain ⟨heq, hend⟩ := h.2.1 (by omega)
    exact ⟨heq, ih _ hend (Nat.le_refl 1)⟩
  | place next ih | room next ih => exact fun n => ih n (h n) hknown
  | advance next ih => exact ⟨by have := h.1; omega, ih h.2 (by omega)⟩
  | warn w next ih => exact ih h hknown
  | call r next ih => exact fun v => ih v (h v) (Nat.le_refl 0)

theorem Keeps.bind {p : Parser α} {f : α → Parser β} {left' : β → Nat} (h : p.Keeps left known)
    (hf : ∀ a, (f a).Keeps left' (left a)) : (p.bind f).Keeps left' known := by
  induction p generalizing known with
  | done a => exact (hf a).mono h fun _ => Nat.le_refl _
  | fail q => exact trivial
  | current next ih =>
    refine ⟨fun hknown => ?_, fun k hk => ih k (h.2 k hk)⟩
    obtain ⟨heq, hend⟩ := h.1 hknown
    exact ⟨congrArg (Parser.bind · f) heq, ih _ hend⟩
  | peek next ih =>
    refine ⟨fun hknown k => (h.1 hknown k).bind f, fun hknown => ?_, fun k hk => ih k (h.2.2 k hk)⟩
    obtain ⟨heq, hend⟩ := h.2.1 hknown
    exact ⟨congrArg (Parser.bind · f) heq, ih _ hend⟩
  | place next ih | room next ih => exact fun n => ih n (h n)
  | advance next ih => exact ⟨h.1, ih h.2⟩
  | warn w next ih => exact ih h
  | call r next ih => exact fun v => ih v (h v)

/-- The parser keeps to its statement if `known` tokens of it lie ahead. -/
class LocalFrom (known : Nat) (p : Parser α) : Prop where
  keeps : p.Keeps (fun _ => 0) known

/-- The parser keeps to its statement. -/
abbrev Local (p : Parser α) : Prop := p.LocalFrom 0

/-- The parser keeps to its statement and stays at a token of it. -/
class Peeking (p : Parser α) : Prop where
  keeps : p.Keeps (fun _ => 1) 1

section Instances

variable {p q : Parser α} {f : α → Parser β}

instance (priority := low) LocalFrom.succ [h : p.LocalFrom known] : p.LocalFrom (known + 1) :=
  ⟨h.keeps.mono (Nat.le_succ known) fun _ => Nat.le_refl 0⟩

instance (a : α) : (done a).LocalFrom known := ⟨Nat.zero_le _⟩

instance (a : α) : (pure a : Parser α).LocalFrom known := ⟨Nat.zero_le _⟩

instance (e : Problem) : (fail e : Parser α).LocalFrom known := ⟨trivial⟩

theorem LocalFrom.bind (hp : p.LocalFrom known) (hf : ∀ a, (f a).Local) :
    (p >>= f).LocalFrom known :=
  ⟨hp.keeps.bind fun a => (hf a).keeps⟩

instance [hp : p.LocalFrom known] [hf : ∀ a, (f a).Local] : (p >>= f).LocalFrom known :=
  hp.bind hf

instance {c : Prop} [Decidable c] [hp : p.LocalFrom known] [hq : q.LocalFrom known] :
    (if c then p else q).LocalFrom known := by
  split
  · exact hp
  · exact hq

instance (w : Keyword) [hp : p.LocalFrom known] : (warn w p).LocalFrom known := ⟨hp.keeps⟩

instance (r : Rule) {f : r.Result → Parser α} [hf : ∀ v, (f v).Local] :
    (call r f).LocalFrom known :=
  ⟨fun v => (hf v).keeps⟩

instance : index.LocalFrom known := ⟨fun _ => Nat.zero_le _⟩

instance {f : Nat → Parser α} [hf : ∀ n, (f n).LocalFrom known] :
    (index >>= f).LocalFrom known :=
  ⟨fun n => (hf n).keeps⟩

instance (cause : Cause) : (refuse cause : Parser α).LocalFrom known := ⟨fun _ => trivial⟩

instance (expected : Expected) : (unexpected expected : Parser α).LocalFrom known :=
  ⟨fun _ => trivial⟩

instance : (misplaced : Parser α).LocalFrom known := ⟨fun _ => trivial⟩

instance (first : Nat) (cause : Cause) : (refuseSince first cause : Parser α).LocalFrom known :=
  ⟨fun _ => trivial⟩

instance : skip.LocalFrom 1 := ⟨Nat.one_pos, Nat.zero_le _⟩

instance {f : Unit → Parser α} [hf : (f ()).LocalFrom known] :
    (skip >>= f).LocalFrom (known + 1) :=
  ⟨Nat.succ_pos known, hf.keeps⟩

instance [hp : Peeking p] [hf : ∀ a, (f a).LocalFrom 1] : (p >>= f).LocalFrom 1 :=
  ⟨hp.keeps.bind fun a => (hf a).keeps⟩

instance (a : α) : Peeking (done a) := ⟨Nat.le_refl 1⟩

instance (a : α) : Peeking (pure a) := ⟨Nat.le_refl 1⟩

/-- A step may be repeated. -/
instance {step : σ → Parser (Option σ)} [h : ∀ s, (step s).Local] (s : σ) :
    (iterate step s).Local := by
  have hmost : ∀ n s, (iterateAtMost step n s).Local := by
    intro n
    induction n with
    | zero => exact fun s => inferInstanceAs (done s).Local
    | succ n ih =>
      intro s
      refine ⟨(h s).keeps.bind fun found => ?_⟩
      cases found with
      | none => exact Nat.zero_le _
      | some s => exact (ih s).keeps
  exact ⟨fun n => (hmost (n + 1) s).keeps⟩

/-- A parser that asks for the current token does not tell the ends apart; if the
token is no end, it may move on from there. -/
theorem local_kind {f : TokenKind → Parser α} (heq : f .semicolon = f .eof) (hend : (f .eof).Local)
    (hin : ∀ k : TokenKind, k.endsStatement = false → (f k).LocalFrom 1) : (kind >>= f).Local :=
  ⟨fun _ => ⟨heq, hend.keeps⟩, fun k hk => (hin k hk).keeps⟩

/-- A parser may ask for the token behind one that it knows. -/
theorem localFrom_nextKind {f : TokenKind → Parser α} (heq : f .semicolon = f .eof)
    (hend : (f .eof).LocalFrom 1)
    (hin : ∀ k : TokenKind, k.endsStatement = false → (f k).LocalFrom 2) :
    (nextKind >>= f).LocalFrom 1 :=
  ⟨fun h => absurd h Nat.one_ne_zero, fun _ => ⟨heq, hend.keeps⟩, fun k hk => (hin k hk).keeps⟩

end Instances

end Parser

/-! ### Two runs -/

/-- The same place in the same statement, perhaps reached in another way. -/
structure Cursor.Twin (c c' : Cursor) : Prop where
  run_eq : c.run = c'.run
  place_eq : c.place = c'.place
  inside : ∀ k ∈ c.run, k.endsStatement = false

/-- Two runs give the same value at the same place, or both fail.  At least
`left a` tokens lie behind a value `a`. -/
def Outcome.Agree (left : α → Nat) : Outcome α → Outcome α → Prop
  | .ok a c, .ok a' c' => a = a' ∧ c.Twin c' ∧ left a ≤ c.run.length
  | .error _ _, .error _ _ => True
  | _, _ => False

/-- Outcomes of rules that agree, and fail at the end of the statement. -/
structure Agreeing (rules rules' : (r : Rule) → Cursor → Outcome r.Result) : Prop where
  agree : ∀ r (c c' : Cursor), c.Twin c' → (rules r c).Agree (fun _ => 0) (rules' r c')
  stuck : ∀ r (c : Cursor), c.run = [] → ∃ q c', rules r c = .error q c'
  stuck' : ∀ r (c : Cursor), c.run = [] → ∃ q c', rules' r c = .error q c'

namespace Cursor

variable {c c' : Cursor}

theorem Twin.room_eq (h : c.Twin c') : c.room = c'.room := by
  rw [c.room_eq, c'.room_eq, h.run_eq]

theorem Twin.advance (h : c.Twin c') : c.advance.Twin c'.advance := by
  obtain ⟨run, room, place, _, _, _⟩ := c
  obtain ⟨run', room', place', _, _, _⟩ := c'
  obtain ⟨hrun, hplace, hin⟩ := h
  simp only at hrun hplace hin
  subst hrun hplace
  cases run with
  | nil => exact ⟨rfl, rfl, hin⟩
  | cons k ks => exact ⟨rfl, rfl, fun j hj => hin j (List.mem_cons_of_mem k hj)⟩

theorem length_advance (c : Cursor) : c.advance.run.length = c.run.length - 1 := by
  unfold Cursor.advance
  split
  · next h => simp [h]
  · next h => simp [request, h]

end Cursor

variable {b b' : Boundary} {rules rules' : (r : Rule) → Cursor → Outcome r.Result}

theorem TokenKind.ends_cases {k : TokenKind} (h : k.endsStatement = true) :
    k = .eof ∨ k = .semicolon := by
  cases k <;> simp_all [TokenKind.endsStatement]

/-- A parser that is stuck fails at the end of a statement. -/
theorem Parser.Stuck.error (hb : b.stop.endsStatement = true)
    (hr : ∀ r (c : Cursor), c.run = [] → ∃ q c', rules r c = .error q c') {p : Parser α}
    (h : p.Stuck) {c : Cursor} (hc : c.run = []) : ∃ q c', p.runWith b rules c = .error q c' := by
  induction p generalizing c with
  | done a => exact h.elim
  | fail q => exact ⟨q, c, rfl⟩
  | current next ih =>
    have hstop : c.current b = b.stop := by rw [Cursor.current, hc]; rfl
    simp only [runWith, hstop]
    rcases TokenKind.ends_cases hb with hk | hk <;> rw [hk]
    · exact ih _ h.1 hc
    · exact ih _ h.2 hc
  | peek next ih => exact ih _ (h _) hc
  | place next ih | room next ih => exact ih _ (h _) hc
  | advance next ih => exact h.elim
  | warn w next ih => exact ih h hc
  | call r next ih =>
    obtain ⟨q, c', hrun⟩ := hr r c hc
    exact ⟨q, c', by simp only [runWith, hrun]⟩

/-- **Two runs of a parser that keeps to its statement agree**, however the
statement ends. -/
theorem Parser.Keeps.agree (hb : b.stop.endsStatement = true) (hb' : b'.stop.endsStatement = true)
    (hr : Agreeing rules rules') {known : Nat} {left : α → Nat} {p : Parser α}
    (h : p.Keeps left known) {c c' : Cursor} (hc : c.Twin c') (hknown : known ≤ c.run.length) :
    (p.runWith b rules c).Agree left (p.runWith b' rules' c') := by
  induction p generalizing known c c' with
  | done a => exact ⟨rfl, hc, Nat.le_trans h hknown⟩
  | fail q => exact trivial
  | current next ih =>
    simp only [runWith]
    cases hrun : c.run with
    | nil =>
      -- both runs are at the end, and the ends are not told apart
      have hrun' : c'.run = [] := hc.run_eq ▸ hrun
      have hzero : known = 0 := by rw [hrun] at hknown; exact Nat.le_zero.mp hknown
      obtain ⟨heq, hend⟩ := h.1 hzero
      have hnext : ∀ k : TokenKind, k.endsStatement = true → next k = next .eof := by
        intro k hk
        rcases TokenKind.ends_cases hk with rfl | rfl
        · rfl
        · exact heq
      have hleft : c.current b = b.stop := by rw [Cursor.current, hrun]; rfl
      have hright : c'.current b' = b'.stop := by rw [Cursor.current, hrun']; rfl
      rw [hleft, hright, hnext _ hb, hnext _ hb']
      exact ih _ hend hc (Nat.zero_le _)
    | cons k ks =>
      have hk : k.endsStatement = false := hc.inside k (by rw [hrun]; exact List.mem_cons_self)
      have hleft : c.current b = k := by rw [Cursor.current, hrun]; rfl
      have hright : c'.current b' = k := by rw [Cursor.current, ← hc.run_eq, hrun]; rfl
      rw [hleft, hright]
      refine ih k (h.2 k hk) hc ?_
      rw [hrun] at hknown ⊢
      simp only [List.length_cons] at hknown ⊢
      omega
  | peek next ih =>
    simp only [runWith]
    have hc₂ : (c.request 2).Twin (c'.request 2) := ⟨hc.run_eq, hc.place_eq, hc.inside⟩
    have hrun₂ : (c.request 2).run = c.run := rfl
    cases hrun : c.run with
    | nil =>
      have hrun' : c'.run = [] := hc.run_eq ▸ hrun
      have hzero : known = 0 := by rw [hrun] at hknown; exact Nat.le_zero.mp hknown
      obtain ⟨q, e, hq⟩ := (h.1 hzero (c.next b)).error hb hr.stuck (c := c.request 2) hrun
      obtain ⟨q', e', hq'⟩ := (h.1 hzero (c'.next b')).error hb' hr.stuck' (c := c'.request 2) hrun'
      rw [hq, hq']
      exact trivial
    | cons k ks =>
      have hrun' : c'.run = k :: ks := by rw [← hc.run_eq, hrun]
      cases ks with
      | nil =>
        have hone : known ≤ 1 := by rw [hrun] at hknown; exact hknown
        obtain ⟨heq, hend⟩ := h.2.1 hone
        have hnext : ∀ k : TokenKind, k.endsStatement = true → next k = next .eof := by
          intro k hk
          rcases TokenKind.ends_cases hk with rfl | rfl
          · rfl
          · exact heq
        have hleft : c.next b = b.stop := by rw [Cursor.next, hrun]
        have hright : c'.next b' = b'.stop := by rw [Cursor.next, hrun']
        rw [hleft, hright, hnext _ hb, hnext _ hb']
        exact ih _ hend hc₂ (by rw [hrun₂, hrun]; exact Nat.le_refl 1)
      | cons k₂ ks =>
        have hk₂ : k₂.endsStatement = false := hc.inside k₂ (by rw [hrun]; simp)
        have hleft : c.next b = k₂ := by rw [Cursor.next, hrun]
        have hright : c'.next b' = k₂ := by rw [Cursor.next, hrun']
        rw [hleft, hright]
        refine ih k₂ (h.2.2 k₂ hk₂) hc₂ ?_
        rw [hrun] at hknown
        rw [hrun₂, hrun]
        simp only [List.length_cons] at hknown ⊢
        omega
  | place next ih =>
    simp only [runWith, ← hc.place_eq]
    exact ih _ (h _) hc hknown
  | room next ih =>
    simp only [runWith, ← hc.room_eq]
    exact ih _ (h _) hc hknown
  | advance next ih =>
    simp only [runWith]
    refine ih h.2 hc.advance ?_
    rw [Cursor.length_advance]
    exact Nat.sub_le_sub_right hknown 1
  | warn w next ih => exact ih h ⟨hc.run_eq, hc.place_eq, hc.inside⟩ hknown
  | call r next ih =>
    have hstep := hr.agree r c c' hc
    simp only [runWith]
    cases hrun : rules r c with
    | ok v d =>
      cases hrun' : rules' r c' with
      | ok v' d' =>
        rw [hrun, hrun'] at hstep
        obtain ⟨rfl, htwin, -⟩ := hstep
        exact ih v (h v) htwin (Nat.zero_le _)
      | error q' d' =>
        rw [hrun, hrun'] at hstep
        exact hstep.elim
    | error q d =>
      cases hrun' : rules' r c' with
      | ok v' d' =>
        rw [hrun, hrun'] at hstep
        exact hstep.elim
      | error q' d' => exact trivial

end SqlSyntax
