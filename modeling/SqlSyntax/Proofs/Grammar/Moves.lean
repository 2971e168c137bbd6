import SqlSyntax.Proofs.Grammar.LocalStatement

/-!
# How parsers move

A parser moves on by one token at a time.  One that keeps to its statement never tries to do
so at the end: it moves on from the tokens between the places where its run starts and stops,
each once and in order.

## Main definitions

* `Parser.moves` — the places that a run moves on from.
* `Cursor.Walks` — moves that lead from one place to another, token by token.

## Main results

* `Parser.Keeps.walks` — a parser that keeps to its statement walks if its rules do.
* `Parser.walks_run` — **the run of a parser that keeps to its statement walks.**
-/

namespace SqlSyntax

variable {α : Type}

/-! ### Moves -/

/-- The places of the tokens that a run moves on from, in order, given those of its rules. -/
def Parser.movesWith (b : Boundary) (rules : (r : Rule) → Cursor → Outcome r.Result)
    (ruleMoves : Rule → Cursor → List Nat) : Parser α → Cursor → List Nat
  | done _, _ | fail _, _ => []
  | current next, c => (next (c.current b)).movesWith b rules ruleMoves c
  | peek next, c => (next (c.next b)).movesWith b rules ruleMoves (c.request 2)
  | place next, c => (next c.place).movesWith b rules ruleMoves c
  | room next, c => (next c.room).movesWith b rules ruleMoves c
  | advance next, c => c.place :: next.movesWith b rules ruleMoves c.advance
  | warn word next, c => next.movesWith b rules ruleMoves (c.warn word)
  | call rule next, c =>
    ruleMoves rule c ++ match rules rule c with
      | .ok v c' => (next v).movesWith b rules ruleMoves c'
      | .error _ _ => []

/-- The places that the run of a rule moves on from. -/
def Rule.moves (b : Boundary) : Nat → Rule → Cursor → List Nat
  | 0, _, _ => []
  | depth + 1, r, c => r.body.movesWith b (Rule.run b depth) (Rule.moves b depth) c

/-- The places that the run of a parser moves on from. -/
def Parser.moves (b : Boundary) (p : Parser α) (c : Cursor) : List Nat :=
  p.movesWith b (Rule.run b maxNesting) (Rule.moves b maxNesting) c

/-! ### Walks -/

/-- Places in order, in two parts. -/
theorem range'_append_of_le {k n stop : Nat} (hkn : k ≤ n) (hn : n ≤ stop) :
    List.range' k (n - k) ++ List.range' n (stop - n) = List.range' k (stop - k) := by
  have happend := @List.range'_append k (n - k) (stop - n) 1
  have hmiddle : k + 1 * (n - k) = n := by omega
  have hlength : n - k + (stop - n) = stop - k := by omega
  rwa [hmiddle, hlength] at happend

namespace Cursor

variable {c c' c'' : Cursor} {moves moves' : List Nat}

/-- The moves lead from the first place to the second, one token at a time. -/
structure Walks (c : Cursor) (moves : List Nat) (c' : Cursor) : Prop where
  reaches : c.Reaches c'
  moves_eq : moves = List.range' c.place (c'.place - c.place)

theorem Walks.refl (c : Cursor) : c.Walks [] c :=
  ⟨Reaches.refl c, by rw [Nat.sub_self]; rfl⟩

theorem Walks.trans (h : c.Walks moves c') (h' : c'.Walks moves' c'') :
    c.Walks (moves ++ moves') c'' := by
  refine ⟨h.reaches.trans h'.reaches, ?_⟩
  rw [h.moves_eq, h'.moves_eq, range'_append_of_le h.reaches.place_le h'.reaches.place_le]

/-- What has been asked for and warned of is no part of a walk. -/
theorem Walks.of_request {n : Nat} (h : (c.request n).Walks moves c') : c.Walks moves c' :=
  ⟨h.reaches, h.moves_eq⟩

theorem Walks.of_warn {w : Keyword} (h : (c.warn w).Walks moves c') : c.Walks moves c' :=
  ⟨h.reaches, h.moves_eq⟩

/-- Moving on from a token of the statement is a walk. -/
theorem walks_advance (h : c.run ≠ []) : c.Walks [c.place] c.advance := by
  refine ⟨reaches_advance c, ?_⟩
  obtain ⟨k, ks, hrun⟩ := List.exists_cons_of_ne_nil h
  have hplace := (reaches_advance c).place_add_length
  rw [length_advance, hrun, List.length_cons] at hplace
  have hone : c.advance.place - c.place = 1 := by omega
  rw [hone]
  rfl

/-- The tokens that are left are inside the statement. -/
def Inside (c : Cursor) : Prop :=
  ∀ k ∈ c.run, k.endsStatement = false

theorem Inside.of_reaches (h : c.Inside) (hc : c.Reaches c') : c'.Inside :=
  fun k hk => h k (hc.mem_run hk)

end Cursor

open Cursor

/-- Rules that walk, and fail at the end of the statement. -/
structure Walking (rules : (r : Rule) → Cursor → Outcome r.Result)
    (ruleMoves : Rule → Cursor → List Nat) : Prop where
  walks : ∀ r (c : Cursor), c.Inside → c.Walks (ruleMoves r c) (rules r c).cursor
  stuck : ∀ r (c : Cursor), c.run = [] → ∃ q c', rules r c = .error q c'

variable {b : Boundary} {rules : (r : Rule) → Cursor → Outcome r.Result}
variable {ruleMoves : Rule → Cursor → List Nat}

/-- A parser that is stuck does not move on at the end of a statement. -/
theorem Parser.Stuck.walks (hb : b.stop.endsStatement = true) (hr : Walking rules ruleMoves)
    {p : Parser α} (h : p.Stuck) {c : Cursor} (hc : c.run = []) :
    c.Walks (p.movesWith b rules ruleMoves c) (p.runWith b rules c).cursor := by
  induction p generalizing c with
  | done a => exact h.elim
  | fail q => exact Walks.refl c
  | current next ih =>
    have hstop : c.current b = b.stop := by rw [Cursor.current, hc]; rfl
    simp only [runWith, movesWith, hstop]
    rcases TokenKind.ends_cases hb with hk | hk <;> rw [hk]
    · exact ih _ h.1 hc
    · exact ih _ h.2 hc
  | peek next ih => exact (ih _ (h _) (c := c.request 2) hc).of_request
  | place next ih | room next ih => exact ih _ (h _) hc
  | advance next ih => exact h.elim
  | warn w next ih => exact (ih h (c := c.warn w) hc).of_warn
  | call r next ih =>
    have hwalk := hr.walks r c fun k hk => absurd hk (by rw [hc]; exact List.not_mem_nil)
    obtain ⟨q, c', hrun⟩ := hr.stuck r c hc
    simp only [runWith, movesWith, hrun, List.append_nil]
    rwa [hrun] at hwalk

/-- **A parser that keeps to its statement walks** if its rules do. -/
theorem Parser.Keeps.walks (hb : b.stop.endsStatement = true) (hr : Walking rules ruleMoves)
    {known : Nat} {left : α → Nat} {p : Parser α} (h : p.Keeps left known) {c : Cursor}
    (hc : c.Inside) (hknown : known ≤ c.run.length) :
    c.Walks (p.movesWith b rules ruleMoves c) (p.runWith b rules c).cursor := by
  induction p generalizing known c with
  | done a => exact Walks.refl c
  | fail q => exact Walks.refl c
  | current next ih =>
    simp only [runWith, movesWith]
    cases hrun : c.run with
    | nil =>
      -- the ends are not told apart
      have hzero : known = 0 := by rw [hrun] at hknown; exact Nat.le_zero.mp hknown
      obtain ⟨heq, hend⟩ := h.1 hzero
      have hnext : next b.stop = next .eof := by
        rcases TokenKind.ends_cases hb with hk | hk <;> rw [hk]
        exact heq
      have hstop : c.current b = b.stop := by rw [Cursor.current, hrun]; rfl
      rw [hstop, hnext]
      exact ih _ hend hc (Nat.zero_le _)
    | cons k ks =>
      have hk : k.endsStatement = false := hc k (by rw [hrun]; exact List.mem_cons_self)
      have hcurrent : c.current b = k := by rw [Cursor.current, hrun]; rfl
      rw [hcurrent]
      refine ih k (h.2 k hk) hc ?_
      rw [hrun] at hknown ⊢
      simp only [List.length_cons] at hknown ⊢
      omega
  | peek next ih =>
    simp only [runWith, movesWith]
    have hc₂ : (c.request 2).Inside := hc
    have hrun₂ : (c.request 2).run = c.run := rfl
    cases hrun : c.run with
    | nil =>
      have hzero : known = 0 := by rw [hrun] at hknown; exact Nat.le_zero.mp hknown
      exact ((h.1 hzero (c.next b)).walks hb hr (c := c.request 2) hrun).of_request
    | cons k more =>
      cases more with
      | nil =>
        have hone : known ≤ 1 := by rw [hrun] at hknown; exact hknown
        obtain ⟨heq, hend⟩ := h.2.1 hone
        have hnext : next b.stop = next .eof := by
          rcases TokenKind.ends_cases hb with hk | hk <;> rw [hk]
          exact heq
        have hstop : c.next b = b.stop := by rw [Cursor.next, hrun]
        rw [hstop, hnext]
        exact (ih _ hend hc₂ (by rw [hrun₂, hrun]; exact Nat.le_refl 1)).of_request
      | cons k₂ ks =>
        have hk₂ : k₂.endsStatement = false := hc k₂ (by rw [hrun]; simp)
        have hnext : c.next b = k₂ := by rw [Cursor.next, hrun]
        rw [hnext]
        refine (ih k₂ (h.2.2 k₂ hk₂) hc₂ ?_).of_request
        rw [hrun] at hknown
        rw [hrun₂, hrun]
        simp only [List.length_cons] at hknown ⊢
        omega
  | place next ih | room next ih => exact ih _ (h _) hc hknown
  | advance next ih =>
    have hne : c.run ≠ [] := by
      intro hnil
      rw [hnil] at hknown
      exact absurd h.1 (by simpa using hknown)
    refine (walks_advance hne).trans (ih h.2 (hc.of_reaches (reaches_advance c)) ?_)
    rw [Cursor.length_advance]
    exact Nat.sub_le_sub_right hknown 1
  | warn w next ih => exact (ih h (c := c.warn w) hc hknown).of_warn
  | call r next ih =>
    have hwalk := hr.walks r c hc
    simp only [runWith, movesWith]
    cases hrun : rules r c with
    | ok v c' =>
      rw [hrun] at hwalk
      exact hwalk.trans (ih v (h v) (hc.of_reaches hwalk.reaches) (Nat.zero_le _))
    | error q c' =>
      rw [hrun] at hwalk
      exact hwalk.trans (Walks.refl c')

/-- The runs of rules walk. -/
theorem Rule.walking (hb : b.stop.endsStatement = true) (depth : Nat) :
    Walking (Rule.run b depth) (Rule.moves b depth) := by
  induction depth with
  | zero => exact ⟨fun _ c _ => Walks.refl c, fun r _ => Rule.run_error hb 0 r⟩
  | succ depth ih =>
    refine ⟨fun r c hc => ?_, fun r _ => Rule.run_error hb (depth + 1) r⟩
    have hbody : r.body.Local := inferInstance
    exact hbody.keeps.walks hb ih hc (Nat.zero_le _)

/-- **The run of a parser that keeps to its statement walks.** -/
theorem Parser.walks_run (hb : b.stop.endsStatement = true) (p : Parser α) [hp : p.Local]
    {c : Cursor} (hc : c.Inside) : c.Walks (p.moves b c) (p.run b c).cursor :=
  hp.keeps.walks hb (Rule.walking hb maxNesting) hc (Nat.zero_le _)

end SqlSyntax
