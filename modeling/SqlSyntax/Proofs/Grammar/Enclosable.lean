import SqlSyntax.Proofs.Grammar.Finding

/-!
# Parsers in parentheses

What a parser makes of a whole text it should make of the same tokens in front of a closing
parenthesis too.  Such a parser takes the parenthesis for the end of the text, unless it fails
at the end of a text; it does not heed where it stands except in its problem, nor how much
room there is.

## Main definitions

* `Parser.Alike` — parsers that differ in their problems only.
* `Parser.Encloses`, `Parser.Enclosable` — a parser does not tell a closing parenthesis from the
  end of a text that it accepts, with instances for all ways to put parsers together.
* `Parser.CarriesOver` — what it makes of a text, parsers alike find in front of other tokens.

## Main results

* `carriesOver` — **what a parser makes of a text it finds in front of a closing parenthesis**,
  if its rules do so.
-/

namespace SqlSyntax

variable {α β σ : Type}

namespace Parser

/-! ### Parsers that differ in their problems -/

/-- The same parser, which does not say what its problem is. -/
def blurred : Parser α → Parser α
  | done a => done a
  | fail _ => fail ⟨.unexpected none, 0, 0⟩
  | current next => current fun k => (next k).blurred
  | peek next => peek fun k => (next k).blurred
  | place next => place fun n => (next n).blurred
  | room next => room fun n => (next n).blurred
  | advance next => advance next.blurred
  | warn word next => warn word next.blurred
  | call rule next => call rule fun v => (next v).blurred

/-- The parsers differ in their problems only. -/
def Alike (p q : Parser α) : Prop :=
  p.blurred = q.blurred

section Alike

variable {p q r : Parser α} {f g : α → Parser β}

theorem Alike.refl (p : Parser α) : p.Alike p :=
  rfl

theorem Alike.symm (h : p.Alike q) : q.Alike p :=
  Eq.symm h

theorem Alike.trans (h : p.Alike q) (h' : q.Alike r) : p.Alike r :=
  Eq.trans h h'

theorem blurred_bind (p : Parser α) (f : α → Parser β) :
    (p.bind f).blurred = p.blurred.bind fun a => (f a).blurred := by
  induction p with
  | done | fail => rfl
  | current _ ih | peek _ ih | place _ ih | room _ ih | call _ _ ih => simp [bind, blurred, ih]
  | advance _ ih | warn _ _ ih => simp [bind, blurred, ih]

theorem Alike.bind (h : p.Alike q) (hf : ∀ a, (f a).Alike (g a)) :
    (p >>= f).Alike (q >>= g) := by
  have hfg : (fun a => (f a).blurred) = fun a => (g a).blurred := funext hf
  rw [Alike, bind_eq, bind_eq, blurred_bind, blurred_bind, h, hfg]

/-- Only what follows may differ. -/
theorem alike_bind (p : Parser α) (hf : ∀ a, (f a).Alike (g a)) : (p >>= f).Alike (p >>= g) :=
  (Alike.refl p).bind hf

theorem alike_fail (e e' : Problem) : (fail e : Parser α).Alike (fail e') :=
  rfl

theorem alike_ite {c : Prop} [Decidable c] {p' q' : Parser α} (hp : c → p.Alike p')
    (hq : ¬ c → q.Alike q') : (if c then p else q).Alike (if c then p' else q') := by
  split
  · next h => exact hp h
  · next h => exact hq h

theorem alike_refuseSince (first first' : Nat) (cause : Cause) :
    (refuseSince first cause : Parser α).Alike (refuseSince first' cause) :=
  rfl

end Alike

/-! ### Parsers that may stand in parentheses -/

/-- More room than there are tokens makes no difference. -/
def Roomy (next : Nat → Parser α) : Prop :=
  ∀ (depth : Nat) (c : Cursor), c.Inside → ∀ n, c.room ≤ n →
    (next c.room).runWith .ofText (Rule.run .ofText depth) c
      = (next n).runWith .ofText (Rule.run .ofText depth) c

/-- A closing parenthesis is like the end of a text that the parser accepts. -/
def Encloses : Parser α → Prop
  | done _ | fail _ => True
  | current next =>
    ((next .rightParen).Alike (next .eof) ∨ (next .eof).Stuck) ∧ ∀ k, (next k).Encloses
  | peek next => (next .rightParen).Alike (next .eof) ∧ ∀ k, (next k).Encloses
  | place next => (∀ m n, (next m).Alike (next n)) ∧ ∀ n, (next n).Encloses
  | room next => Roomy next ∧ ∀ n, (next n).Encloses
  | advance next | warn _ next => next.Encloses
  | call _ next => ∀ v, (next v).Encloses

theorem Encloses.bind {p : Parser α} {f : α → Parser β} (h : p.Encloses)
    (hf : ∀ a, (f a).Encloses) : (p.bind f).Encloses := by
  have halike : ∀ {q q' : Parser α}, q.Alike q' → (q.bind f).Alike (q'.bind f) :=
    fun hq => hq.bind fun a => Alike.refl (f a)
  induction p with
  | done a => exact hf a
  | fail e => exact trivial
  | current next ih =>
    exact ⟨h.1.imp halike fun hstuck => hstuck.bind f, fun k => ih k (h.2 k)⟩
  | peek next ih => exact ⟨halike h.1, fun k => ih k (h.2 k)⟩
  | place next ih => exact ⟨fun m n => halike (h.1 m n), fun n => ih n (h.2 n)⟩
  | room next ih =>
    refine ⟨fun depth c hc n hn => ?_, fun n => ih n (h.2 n)⟩
    rw [runWith_bind, runWith_bind, h.1 depth c hc n hn]
  | advance next ih | warn w next ih => exact ih h
  | call r next ih => exact fun v => ih v (h v)

/-- What is stuck stays stuck behind a parser that keeps to its statement. -/
theorem Keeps.stuck_bind {p : Parser α} {f : α → Parser β} {left : α → Nat} (h : p.Keeps left 0)
    (hf : ∀ a, (f a).Stuck) : (p.bind f).Stuck := by
  induction p with
  | done a => exact hf a
  | fail e => exact trivial
  | current next ih =>
    obtain ⟨heq, hend⟩ := h.1 rfl
    have hstuck := ih .eof hend
    refine ⟨hstuck, ?_⟩
    show ((next .semicolon).bind f).Stuck
    rw [heq]
    exact hstuck
  | peek next ih => exact fun k => (h.1 rfl k).bind f
  | place next ih | room next ih => exact fun n => ih n (h n)
  | advance next ih => exact absurd h.1 (Nat.lt_irrefl 0)
  | warn w next ih => exact ih h
  | call r next ih => exact trivial

theorem stuck_bind_local {p : Parser α} [hp : p.Local] {f : α → Parser β}
    (hf : ∀ a, (f a).Stuck) : (p >>= f).Stuck :=
  hp.keeps.stuck_bind hf

/-- A parser that asks for the token behind the current one is stuck if what it does then is. -/
theorem stuck_nextKind {f : TokenKind → Parser α} (hf : ∀ k, (f k).Stuck) : (nextKind >>= f).Stuck :=
  hf

/-- The parser may stand in parentheses. -/
class Enclosable (p : Parser α) : Prop where
  encloses : p.Encloses

section Instances

variable {p q : Parser α} {f : α → Parser β}

instance (a : α) : Enclosable (done a) := ⟨trivial⟩

instance (a : α) : Enclosable (pure a) := ⟨trivial⟩

instance (e : Problem) : (fail e : Parser α).Enclosable := ⟨trivial⟩

theorem Enclosable.bind (hp : p.Enclosable) (hf : ∀ a, (f a).Enclosable) :
    (p >>= f).Enclosable :=
  ⟨hp.encloses.bind fun a => (hf a).encloses⟩

instance [hp : p.Enclosable] [hf : ∀ a, (f a).Enclosable] : (p >>= f).Enclosable :=
  hp.bind hf

instance {c : Prop} [Decidable c] [hp : p.Enclosable] [hq : q.Enclosable] :
    (if c then p else q).Enclosable := by
  split
  · exact hp
  · exact hq

instance (w : Keyword) [hp : p.Enclosable] : (warn w p).Enclosable := ⟨hp.encloses⟩

instance (r : Rule) {f : r.Result → Parser α} [hf : ∀ v, (f v).Enclosable] :
    (call r f).Enclosable :=
  ⟨fun v => (hf v).encloses⟩

instance (cause : Cause) : (refuse cause : Parser α).Enclosable :=
  ⟨fun _ _ => rfl, fun _ => trivial⟩

instance (expected : Expected) : (unexpected expected : Parser α).Enclosable :=
  inferInstanceAs (refuse _).Enclosable

instance : (misplaced : Parser α).Enclosable :=
  inferInstanceAs (refuse _).Enclosable

instance (first : Nat) (cause : Cause) : (refuseSince first cause : Parser α).Enclosable :=
  ⟨fun _ _ => rfl, fun _ => trivial⟩

instance : skip.Enclosable := ⟨trivial⟩

/-- A parser that asks for the current token does not tell a closing parenthesis from the end of
the text, or fails at that end. -/
theorem enclosable_kind {f : TokenKind → Parser α}
    (hclose : (f .rightParen).Alike (f .eof) ∨ (f .eof).Stuck) (hf : ∀ k, (f k).Enclosable) :
    (kind >>= f).Enclosable :=
  ⟨hclose, fun k => (hf k).encloses⟩

/-- The same for the token behind. -/
theorem enclosable_nextKind {f : TokenKind → Parser α}
    (hclose : (f .rightParen).Alike (f .eof)) (hf : ∀ k, (f k).Enclosable) :
    (nextKind >>= f).Enclosable :=
  ⟨hclose, fun k => (hf k).encloses⟩

/-- Where a parser stands may have a say in its problem only. -/
theorem enclosable_index {f : Nat → Parser α} (halike : ∀ m n, (f m).Alike (f n))
    (hf : ∀ n, (f n).Enclosable) : (index >>= f).Enclosable :=
  ⟨halike, fun n => (hf n).encloses⟩

instance {f : Nat → Problem} : (index >>= fun n => (fail (f n) : Parser α)).Enclosable :=
  enclosable_index (fun m n => alike_fail (f m) (f n)) fun _ => inferInstance

/-- A step that moves on may be repeated. -/
theorem enclosable_iterate {step : σ → Parser (Option σ)} (hturns : Turns step)
    (hstep : ∀ s, (step s).Enclosable) (s : σ) : (iterate step s).Enclosable := by
  have hmost : ∀ n s, (iterateAtMost step n s).Encloses := by
    intro n
    induction n with
    | zero => exact fun _ => trivial
    | succ n ih =>
      refine fun s => (hstep s).encloses.bind fun found => ?_
      cases found with
      | none => exact trivial
      | some s => exact ih s
  refine ⟨fun depth c hc n hn => ?_, fun n => hmost (n + 1) s⟩
  exact runWith_iterateAtMost (fun hc _ _ hrun => hturns.moves rfl hc hrun) hc (Nat.lt_succ_self _)
    (Nat.lt_succ_of_le hn) s

end Instances

/-! ### Runs -/

/-- The tokens end, or go on with a closing parenthesis. -/
def Closing (ts : List TokenKind) : Prop :=
  firstOf ts = .eof ∨ firstOf ts = .rightParen

/-- A parser that is stuck at the end of a text makes nothing of it. -/
theorem Stuck.not_ok {p : Parser α} (hp : p.Stuck) {depth : Nat} {c d : Cursor} (hc : c.run = [])
    {a : α} : p.runWith .ofText (Rule.run .ofText depth) c ≠ .ok a d := by
  intro hrun
  obtain ⟨e, c₁, herror⟩ := hp.error (b := .ofText) rfl
    (fun r _ => Rule.run_error (b := .ofText) rfl depth r) hc
  rw [herror] at hrun
  cases hrun

/-- What the parser makes of a text, parsers alike find in it in front of the tokens `ts`. -/
def CarriesOver (ts : List TokenKind) (depth depth' : Nat) (p : Parser α) : Prop :=
  ∀ {known : Nat} {left : α → Nat} {q : Parser α} {c c' d : Cursor} {a : α},
    p.Encloses → p.Keeps left known → p.Alike q → c.Inside → known ≤ c.run.length →
    c'.run = c.run ++ ts → p.runWith .ofText (Rule.run .ofText depth) c = .ok a d →
    (q.runWith .ofText (Rule.run .ofText depth') c').Finds a (d.run ++ ts)

section CarriesOver

variable {ts : List TokenKind} {depth depth' : Nat}

theorem carriesOver_current (hts : Closing ts) {next : TokenKind → Parser α}
    (ih : ∀ k, (next k).CarriesOver ts depth depth') :
    (Parser.current next).CarriesOver ts depth depth' := by
  intro known left q c c' d a h hkeeps hq hc hknown hc' hrun
  cases q with
  | current next' =>
    have hnext : ∀ k, (next k).Alike (next' k) := congrFun (Parser.current.inj hq)
    simp only [runWith, Cursor.current_ofText] at hrun ⊢
    cases hcase : c.run with
    | cons k ks =>
      rw [hcase, firstOf_cons] at hrun
      rw [hc', hcase, List.cons_append, firstOf_cons]
      have hk : k.endsStatement = false := hc k (hcase ▸ List.mem_cons_self)
      refine ih k (h.2 k) (hkeeps.2 k hk) (hnext k) hc ?_ hc' hrun
      rw [hcase] at hknown ⊢
      simp only [List.length_cons] at hknown ⊢
      omega
    | nil =>
      -- the text ends here, in front of the closing parenthesis
      rw [hcase, firstOf_nil] at hrun
      rw [hc', hcase, List.nil_append]
      have hzero : known = 0 := by rw [hcase] at hknown; exact Nat.le_zero.mp hknown
      have hend := (hkeeps.1 hzero).2
      rcases hts with hts | hts
      · rw [hts]
        exact ih .eof (h.2 .eof) hend (hnext .eof) hc (Nat.zero_le _) hc' hrun
      · rw [hts]
        rcases h.1 with hclose | hclose
        · exact ih .eof (h.2 .eof) hend (hclose.symm.trans (hnext .rightParen)) hc
            (Nat.zero_le _) hc' hrun
        · exact (hclose.not_ok hcase hrun).elim
  | _ => cases hq

theorem carriesOver_peek (hts : Closing ts) {next : TokenKind → Parser α}
    (ih : ∀ k, (next k).CarriesOver ts depth depth') :
    (Parser.peek next).CarriesOver ts depth depth' := by
  intro known left q c c' d a h hkeeps hq hc hknown hc' hrun
  cases q with
  | peek next' =>
    have hnext : ∀ k, (next k).Alike (next' k) := congrFun (Parser.peek.inj hq)
    have hc₂ : (c.request 2).Inside := hc
    simp only [runWith, Cursor.next_ofText] at hrun ⊢
    cases hcase : c.run with
    | nil =>
      have hzero : known = 0 := by rw [hcase] at hknown; exact Nat.le_zero.mp hknown
      have hnil : (c.request 2).run = [] := hcase
      exact ((hkeeps.1 hzero _).not_ok hnil hrun).elim
    | cons k ks =>
      rw [hcase, secondOf_cons] at hrun
      rw [hc', hcase, List.cons_append, secondOf_cons]
      cases ks with
      | nil =>
        -- the text ends behind this token, in front of the closing parenthesis
        have hone : known ≤ 1 := by rw [hcase] at hknown; exact hknown
        have hend := (hkeeps.2.1 hone).2
        have hlength : 1 ≤ (c.request 2).run.length := by
          show 1 ≤ c.run.length
          rw [hcase]
          exact Nat.le_refl 1
        rw [firstOf_nil] at hrun
        rw [List.nil_append]
        rcases hts with hts | hts
        · rw [hts]
          exact ih .eof (h.2 .eof) hend (hnext .eof) hc₂ hlength hc' hrun
        · rw [hts]
          exact ih .eof (h.2 .eof) hend (h.1.symm.trans (hnext .rightParen)) hc₂ hlength hc' hrun
      | cons k₂ ks =>
        rw [firstOf_cons] at hrun
        rw [List.cons_append, firstOf_cons]
        have hk₂ : k₂.endsStatement = false := hc k₂ (by rw [hcase]; simp)
        refine ih k₂ (h.2 k₂) (hkeeps.2.2 k₂ hk₂) (hnext k₂) hc₂ ?_ hc' hrun
        show max known 2 ≤ c.run.length
        rw [hcase] at hknown ⊢
        simp only [List.length_cons] at hknown ⊢
        omega
  | _ => cases hq

theorem carriesOver_room {next : Nat → Parser α} (ih : ∀ n, (next n).CarriesOver ts depth depth') :
    (Parser.room next).CarriesOver ts depth depth' := by
  intro known left q c c' d a h hkeeps hq hc hknown hc' hrun
  cases q with
  | room next' =>
    have hnext : ∀ n, (next n).Alike (next' n) := congrFun (Parser.room.inj hq)
    -- the tokens that follow the text only add room
    have hroom : c.room ≤ c'.room := by
      rw [c.room_eq, c'.room_eq, hc', List.length_append]
      exact Nat.le_add_right _ _
    simp only [runWith] at hrun ⊢
    rw [h.1 depth c hc c'.room hroom] at hrun
    exact ih c'.room (h.2 c'.room) (hkeeps c'.room) (hnext c'.room) hc hknown hc' hrun
  | _ => cases hq

theorem carriesOver_advance {next : Parser α} (ih : next.CarriesOver ts depth depth') :
    (Parser.advance next).CarriesOver ts depth depth' := by
  intro known left q c c' d a h hkeeps hq hc hknown hc' hrun
  cases q with
  | advance next' =>
    -- a parser that keeps to its statement moves on only from a token that it knows
    have hne : c.run ≠ [] := by
      intro hnil
      rw [hnil] at hknown
      exact absurd hkeeps.1 (by simpa using hknown)
    obtain ⟨k, ks, hcase⟩ := List.exists_cons_of_ne_nil hne
    have hnext : next.Alike next' := Parser.advance.inj hq
    have hadvance : c'.advance.run = c.advance.run ++ ts := by
      rw [Cursor.run_advance, Cursor.run_advance, hc', hcase]
      rfl
    show (next'.runWith .ofText (Rule.run .ofText depth') c'.advance).Finds a (d.run ++ ts)
    refine ih h hkeeps.2 hnext (hc.of_reaches c.reaches_advance) ?_ hadvance hrun
    rw [Cursor.length_advance]
    exact Nat.sub_le_sub_right hknown 1
  | _ => cases hq

theorem carriesOver_call {r : Rule} {next : r.Result → Parser α}
    (hrule : ∀ (c c' d : Cursor) (v : r.Result), c.Inside → c'.run = c.run ++ ts →
      r.run .ofText depth c = .ok v d → (r.run .ofText depth' c').Finds v (d.run ++ ts))
    (ih : ∀ v, (next v).CarriesOver ts depth depth') :
    (Parser.call r next).CarriesOver ts depth depth' := by
  intro known left q c c' d a h hkeeps hq hc hknown hc' hrun
  cases q with
  | call r' next' =>
    obtain ⟨rfl, hnext⟩ := Parser.call.inj hq
    have hnext : ∀ v, (next v).Alike (next' v) := congrFun (eq_of_heq hnext)
    have hreach := r.reaches_run .ofText depth c
    simp only [runWith] at hrun ⊢
    cases hcase : r.run .ofText depth c with
    | error e c₁ =>
      rw [hcase] at hrun
      cases hrun
    | ok v c₁ =>
      rw [hcase] at hrun hreach
      have hfinds := hrule c c' c₁ v hc hc' hcase
      cases hcase' : r.run .ofText depth' c' with
      | error e c₂ =>
        rw [hcase'] at hfinds
        exact hfinds
      | ok v' c₂ =>
        rw [hcase'] at hfinds
        obtain ⟨rfl, hc₂⟩ := hfinds
        exact ih v' (h v') (hkeeps v') (hnext v') (hc.of_reaches hreach) (Nat.zero_le _) hc₂ hrun
  | _ => cases hq

/-- **What a parser makes of a text it finds in front of a closing parenthesis**, if its rules
do so. -/
theorem carriesOver (hts : Closing ts)
    (hrules : ∀ (r : Rule) (c c' d : Cursor) (v : r.Result), c.Inside → c'.run = c.run ++ ts →
      r.run .ofText depth c = .ok v d → (r.run .ofText depth' c').Finds v (d.run ++ ts))
    (p : Parser α) : p.CarriesOver ts depth depth' := by
  induction p with
  | done a₁ =>
    intro known left q c c' d a h hkeeps hq hc hknown hc' hrun
    cases q <;> cases hq
    cases hrun
    exact ⟨rfl, hc'⟩
  | fail e => exact fun _ _ _ _ _ _ hrun => nomatch hrun
  | current next ih => exact carriesOver_current hts ih
  | peek next ih => exact carriesOver_peek hts ih
  | place next ih =>
    intro known left q c c' d a h hkeeps hq hc hknown hc' hrun
    cases q with
    | place next' =>
      have hnext : ∀ n, (next n).Alike (next' n) := congrFun (Parser.place.inj hq)
      have hplace : (next c.place).Alike (next' c'.place) :=
        (h.1 c.place c'.place).trans (hnext c'.place)
      show ((next' c'.place).runWith .ofText (Rule.run .ofText depth') c').Finds a (d.run ++ ts)
      exact ih c.place (h.2 c.place) (hkeeps c.place) hplace hc hknown hc' hrun
    | _ => cases hq
  | room next ih => exact carriesOver_room ih
  | advance next ih => exact carriesOver_advance ih
  | warn w next ih =>
    intro known left q c c' d a h hkeeps hq hc hknown hc' hrun
    cases q with
    | warn w' next' =>
      show (next'.runWith .ofText (Rule.run .ofText depth') (c'.warn w')).Finds a (d.run ++ ts)
      exact ih h hkeeps (Parser.warn.inj hq).2 (c := c.warn w) hc hknown hc' hrun
    | _ => cases hq
  | call r next ih => exact carriesOver_call (hrules r) ih

end CarriesOver

end Parser

end SqlSyntax
