import SqlSyntax.Proofs.Grammar.Nesting
import SqlSyntax.Proofs.Script.Progress

/-!
# Statements read one by one

A session can be asked for one statement after the other, whatever came of those before.
A reader does so with a count of the rules that are being run, which it takes over from
one call to the next.  Every call finds the count at zero and leaves it there, and moves
on inside the statement at hand only.

## Main definitions

* `Reader`, `Reader.call` — a session with its count, and a call for a statement.
* `Reader.after`, `Session.after` — what is left after a number of calls.
* `Session.StandsBefore` — a session stands at a place of its script.

## Main results

* `Reader.call_eq` — a call gives the statement that the session gives.
* `Session.next_moves` — a call moves on inside its statement.
* `calls_stay_in_statement` — **any number of calls keep the count and the place.**
-/

namespace SqlSyntax

/-! ### Calls -/

namespace Session

/-- The session at the place that was reached in a passage. -/
def movedTo (s : Session) (p : Passage) (c : Cursor) : Session :=
  { s with
    place := p.place + c.place
    requested := p.place + c.requested
    events := s.events ++ c.warnings.reverse.map (s.warningEvent p) }

theorem next_eq (s : Session) :
    let p := s.passageAt s.place
    let outcome := Grammar.statement.run ⟨p.stop.kind, p.beyond⟩ (s.startOf p)
    s.next = (s.outcomeResult p outcome, s.movedTo p outcome.cursor) :=
  rfl

/-- The session after `n` statements were asked for. -/
def after (s : Session) : Nat → Session
  | 0 => s
  | n + 1 => (s.after n).next.2

end Session

/-- A script whose statements are read one by one. -/
structure Reader where
  /-- What is left of the script. -/
  session : Session
  /-- The number of rules that are being run. -/
  depth : Nat
  deriving DecidableEq, Repr

namespace Reader

/-- What comes of a call for a statement. -/
structure Call where
  /-- The statement or the problem. -/
  result : Except SyntaxError Node
  /-- What the number of rules was set to, in order. -/
  depths : List Nat
  /-- The places of the lexemes that were moved on from, in order. -/
  consumed : List Nat
  /-- The reader behind the call. -/
  behind : Reader

/-- A call of which a watched run at a passage was made. -/
def callOf (s : Session) (p : Passage) (outcome : Outcome Node) (w : Watch) : Call where
  result := s.outcomeResult p outcome
  depths := w.depths
  consumed := w.moved.map (p.place + ·)
  behind := ⟨s.movedTo p outcome.cursor, w.depth⟩

/-- Asks for the next statement. -/
def call (r : Reader) : Call :=
  let p := r.session.passageAt r.session.place
  let watched := Grammar.statement.watch ⟨p.stop.kind, p.beyond⟩ (r.session.startOf p)
    { depth := r.depth }
  callOf r.session p watched.1 watched.2

/-- The reader at the start of a text. -/
def ofText (d : Dialect) (source : List Char) : Reader :=
  ⟨Session.ofText d source, 0⟩

/-- The reader after `n` calls. -/
def after (r : Reader) : Nat → Reader
  | 0 => r
  | n + 1 => (r.after n).call.behind

/-- **A call gives the statement that the session gives**, and comes back to no rule. -/
theorem call_eq (s : Session) :
    let p := s.passageAt s.place
    let call := (Reader.mk s 0).call
    call.result = s.next.1 ∧ call.behind = ⟨s.next.2, 0⟩ ∧
      (∀ depth ∈ call.depths, depth ≤ maxNesting) ∧
      call.consumed = (Grammar.statement.moves ⟨p.stop.kind, p.beyond⟩ (s.startOf p)).map
        (p.place + ·) := by
  intro p call
  have hcall : call = _ := Reader.call.eq_1 ⟨s, 0⟩
  have hnext := s.next_eq
  have hwatched := @Parser.watched_watch _ ⟨p.stop.kind, p.beyond⟩ Grammar.statement
    (s.startOf p) { depth := 0 } rfl
  dsimp only at hcall hnext
  rw [hcall, hnext]
  generalize Grammar.statement.watch ⟨p.stop.kind, p.beyond⟩ (s.startOf p) { depth := 0 } = r
    at hwatched ⊢
  obtain ⟨ds, hds, hlimit⟩ := hwatched.depths
  obtain ⟨outcome, w⟩ := r
  refine ⟨?_, ?_, ?_, ?_⟩
  · rw [← hwatched.outcome]
    rfl
  · rw [← hwatched.outcome]
    exact congrArg _ hwatched.depth
  · show ∀ depth ∈ w.depths, depth ≤ maxNesting
    rw [hds]
    exact hlimit
  · exact congrArg _ hwatched.moved

/-- After any number of calls no rule is being run, and the session is where it is without
the count. -/
theorem after_eq (d : Dialect) (source : List Char) (n : Nat) :
    (ofText d source).after n = ⟨(Session.ofText d source).after n, 0⟩ := by
  induction n with
  | zero => rfl
  | succ n ih =>
    rw [after, ih, Session.after]
    exact (call_eq ((Session.ofText d source).after n)).2.1

end Reader

/-! ### Places in a script -/

/-- The lexemes up to the end of a statement, and those behind. -/
theorem EndsOnce.exists_run {ls : List Lexeme} (h : EndsOnce ls) :
    ∃ run stop behind, ls = run ++ stop :: behind ∧
      (∀ l ∈ run, l.kind.endsStatement = false) ∧ stop.kind.endsStatement = true := by
  induction ls with
  | nil => exact h.elim
  | cons l ls ih =>
    cases hl : l.kind.endsStatement with
    | true => exact ⟨[], l, ls, rfl, List.forall_mem_nil _, hl⟩
    | false =>
      rw [EndsOnce, if_neg (Session.kind_ne_of_inside hl rfl)] at h
      obtain ⟨run, stop, behind, rfl, hrun, hstop⟩ := ih h
      exact ⟨l :: run, stop, behind, rfl, List.forall_mem_cons.mpr ⟨hl, hrun⟩, hstop⟩

namespace Session

variable {s : Session} {pre run ls : List Lexeme} {stop : Lexeme}

/-- The session stands before the lexemes `rest` of its script. -/
structure StandsBefore (s : Session) (pre rest : List Lexeme) : Prop where
  lexemes : s.lexemes = pre ++ rest
  place : s.place = pre.length
  ends : EndsOnce rest

/-- **A call moves on inside its statement**, lexeme by lexeme. -/
theorem next_moves (hs : s.StandsBefore pre (run ++ stop :: ls))
    (hrun : ∀ l ∈ run, l.kind.endsStatement = false) (hstop : stop.kind.endsStatement = true) :
    let p := s.passageAt s.place
    ∃ k ≤ run.length, s.next.2.place = s.place + k ∧
      s.next.2.StandsBefore (pre ++ run.take k) (run.drop k ++ stop :: ls) ∧
      (Grammar.statement.moves ⟨p.stop.kind, p.beyond⟩ (s.startOf p)).map (p.place + ·)
        = List.range' s.place k := by
  intro p
  have hp : p = ⟨pre.length, run, stop, (ls.headD s.fin).kind⟩ := by
    show s.passageAt s.place = _
    rw [hs.place, passageAt_append hs.lexemes hrun hstop]
  have hin : (s.startOf p).Inside := by
    rw [hp]
    exact List.forall_mem_map.mpr hrun
  have hb : (Boundary.mk p.stop.kind p.beyond).stop.endsStatement = true := by
    rw [hp]
    exact hstop
  have hwalk := Parser.walks_run hb Grammar.statement hin
  have hlength := hwalk.reaches.place_add_length
  generalize hrunCursor : (Grammar.statement.run ⟨p.stop.kind, p.beyond⟩ (s.startOf p)).cursor = c
    at hwalk hlength
  have hplace : s.next.2.place = s.place + c.place := by
    rw [← hrunCursor]
    rfl
  have hzero : (s.startOf p).place = 0 := rfl
  have htotal : (s.startOf p).run.length = run.length := by
    rw [hp]
    exact List.length_map _
  have hle : c.place ≤ run.length := by omega
  refine ⟨c.place, hle, hplace, ⟨?_, ?_, ?_⟩, ?_⟩
  · rw [List.append_assoc, ← List.append_assoc (run.take _), List.take_append_drop]
    exact hs.lexemes
  · rw [hplace, hs.place, List.length_append, List.length_take_of_le hle]
  · -- the lexemes that are left out end no statement
    have hleft : ∀ l ∈ run.take c.place, l.kind.endsStatement = false :=
      fun l hl => hrun l (List.mem_of_mem_take hl)
    refine endsOnce_of_append hleft ?_
    rw [← List.append_assoc, List.take_append_drop]
    exact hs.ends
  · rw [hwalk.moves_eq, hzero, Nat.sub_zero, List.map_add_range', Nat.add_zero]
    rfl

/-- After any number of calls the session stands at a place of its script. -/
theorem after_stands (d : Dialect) (source : List Char) (n : Nat) :
    ∃ pre rest, ((ofText d source).after n).StandsBefore pre rest ∧
      pre ++ rest = SqlSyntax.lexemes d source := by
  induction n with
  | zero => exact ⟨[], _, ⟨rfl, rfl, endsOnce_lexemes d source⟩, rfl⟩
  | succ n ih =>
    obtain ⟨pre, rest, hs, hwhole⟩ := ih
    obtain ⟨run, stop, behind, rfl, hrun, hstop⟩ := hs.ends.exists_run
    obtain ⟨k, -, -, hnext, -⟩ := next_moves hs hrun hstop
    refine ⟨_, _, hnext, ?_⟩
    rw [← hwhole, List.append_assoc, ← List.append_assoc (run.take k), List.take_append_drop]

/-! ### The statement at hand -/

/-- No token up to the end of a statement is a semicolon or the end of the text. -/
theorem token_of_inside {i : Nat} (hrun : ∀ l ∈ run, l.kind.endsStatement = false)
    (hi : pre.length ≤ i) (hlt : i < pre.length + run.length) :
    ∃ t, ((pre ++ (run ++ stop :: ls)).map Lexeme.token)[i]? = some t ∧
      t.kind ≠ .semicolon ∧ t.kind ≠ .eof := by
  obtain ⟨l, hl⟩ : ∃ l, run[i - pre.length]? = some l :=
    ⟨_, List.getElem?_eq_getElem (by omega)⟩
  have hinside := hrun l (List.mem_of_getElem? hl)
  refine ⟨l.token, ?_, kind_ne_of_inside hinside rfl, kind_ne_of_inside hinside rfl⟩
  rw [List.getElem?_map, List.getElem?_append_right hi, List.getElem?_append_left (by omega), hl]
  rfl

/-- The token at its end is one of them. -/
theorem token_of_stop (hstop : stop.kind.endsStatement = true) :
    ∃ t, ((pre ++ (run ++ stop :: ls)).map Lexeme.token)[pre.length + run.length]? = some t ∧
      (t.kind = .semicolon ∨ t.kind = .eof) := by
  refine ⟨stop.token, ?_, (TokenKind.ends_cases hstop).symm⟩
  rw [List.getElem?_map, List.getElem?_append_right (by omega), Nat.add_sub_cancel_left,
    List.getElem?_append_right (Nat.le_refl _), Nat.sub_self]
  rfl

end Session

/-! ### Sequences of calls -/

/-- **Any number of calls keep the count and the place.**  Whatever statements were asked for
before and whatever came of them, a call finds no rule running and leaves none, and there
were never more than the limit in between.  It moves on from the tokens between the places
where it starts and stops, each once and in order.  None of them is a semicolon or the end
of the text, and there is none up to the end of the statement at hand either, so that the
call stops inside this statement or at its end. -/
theorem calls_stay_in_statement (d : Dialect) (source : List Char) (n : Nat) :
    let tokens := (TokenStream.ofText d source).tokenize.1
    let s := (Session.ofText d source).after n
    let reader := (Reader.ofText d source).after n
    let call := reader.call
    reader = ⟨s, 0⟩ ∧ call.result = s.next.1 ∧ call.behind = ⟨s.next.2, 0⟩ ∧
      (∀ depth ∈ call.depths, depth ≤ maxNesting) ∧
      call.consumed = List.range' s.place (s.next.2.place - s.place) ∧
      ∃ stop, s.place ≤ s.next.2.place ∧ s.next.2.place ≤ stop ∧
        (∀ i, s.place ≤ i → i < stop →
          ∃ t, tokens[i]? = some t ∧ t.kind ≠ .semicolon ∧ t.kind ≠ .eof) ∧
        ∃ t, tokens[stop]? = some t ∧ (t.kind = .semicolon ∨ t.kind = .eof) := by
  intro tokens s reader call
  have hreader : reader = ⟨s, 0⟩ := Reader.after_eq d source n
  have hcall : call = Reader.call ⟨s, 0⟩ := congrArg Reader.call hreader
  obtain ⟨hresult, hbehind, hdepths, hconsumed⟩ := Reader.call_eq s
  obtain ⟨pre, rest, hs, hwhole⟩ := Session.after_stands d source n
  obtain ⟨run, stop, behind, rfl, hrun, hstop⟩ := hs.ends.exists_run
  obtain ⟨k, hk, hplace, -, hmoves⟩ := Session.next_moves hs hrun hstop
  have hpre : s.place = pre.length := hs.place
  have htokens : tokens = (pre ++ (run ++ stop :: behind)).map Lexeme.token := by
    rw [hwhole]
    exact congrArg Prod.fst (tokenize_ofText d source)
  have hmoved : s.next.2.place = s.place + k := hplace
  refine ⟨hreader, by rw [hcall, hresult], by rw [hcall, hbehind], by rwa [hcall], ?_,
    pre.length + run.length, by omega, by omega, fun i hi hlt => ?_, ?_⟩
  · rw [hcall, hconsumed, hmoved, Nat.add_sub_cancel_left]
    exact hmoves
  · rw [htokens]
    exact Session.token_of_inside hrun (hpre ▸ hi) hlt
  · rw [htokens]
    exact Session.token_of_stop hstop

end SqlSyntax
