import SqlSyntax.Proofs.Grammar.Turns
import SqlSyntax.Proofs.Script.Accounting

/-!
# How a script is read to its end

The statements of a script are read in a loop: a semicolon is passed over, a statement is tried
from where it starts, and after a problem all tokens up to the next end of a statement are
skipped.  Each turn of this loop moves on, so that it comes to the end of the text.

## Main definitions

* `Session.Skips` — moving on to the next end of a statement.
* `Session.Loops` — the loop over the statements of a script.

## Main results

* `readsOut_segments` — the loop comes to the end of the text, token by token.
* `Loops.unique` — there is one way for the loop to go.
* `parse_moves_on` — **a script is read to its end by moving on.**
-/

namespace SqlSyntax

/-- The cursor before a run of tokens, of which some have been asked for. -/
def Cursor.ofRun (run : List TokenKind) (requested : Nat) : Cursor :=
  { run, requested }

namespace Session

variable {s : Session} {n : Nat}

/-! ### The loop over the statements -/

/-- The kind of the token at a place. -/
def kindAt (s : Session) (n : Nat) : TokenKind :=
  (s.lexemes.getD n s.fin).kind

/-- The passage that starts at a place. -/
def passageAt (s : Session) (n : Nat) : Passage :=
  Passage.ofRest s.fin n (s.lexemes.drop n)

/-- Where a passage starts to be read. -/
def startOf (s : Session) (p : Passage) : Cursor :=
  .ofRun p.kinds (max 1 (s.requested - p.place))

/-- The places of the tokens that are moved on from while a passage is read. -/
def movesOf (s : Session) (p : Passage) : List Nat :=
  (Grammar.wholeStatement.moves ⟨p.stop.kind, p.beyond⟩ (s.startOf p)).map (p.place + ·)

/-- From a place on the tokens are skipped up to the next one that ends a statement, at the
last place.  The list has the places that are moved on from. -/
inductive Skips (s : Session) : Nat → List Nat → Nat → Prop
  | stop {n : Nat} (h : (s.kindAt n).endsStatement = true) : Skips s n [] n
  | move {n stop : Nat} {moves : List Nat} (h : (s.kindAt n).endsStatement = false)
    (rest : Skips s (n + 1) moves stop) : Skips s n (n :: moves) stop

/-- The loop over the statements of a script, from a place on.  For each turn the list has the
places that are moved on from; the attempts are those at the statements. -/
inductive Loops (s : Session) : Nat → List (List Nat) → List (Attempt RawStatement) → Prop
  /-- At the end of the text the loop is left. -/
  | fin {n : Nat} (h : s.kindAt n = .eof) : Loops s n [] []
  /-- A semicolon is passed over. -/
  | semicolon {n : Nat} {turns : List (List Nat)} {as : List (Attempt RawStatement)}
    (h : s.kindAt n = .semicolon) (rest : Loops s (n + 1) turns as) :
    Loops s n ([n] :: turns) as
  /-- Behind a statement the loop goes on from where it ends. -/
  | statement {n : Nat} {turns : List (List Nat)} {as : List (Attempt RawStatement)}
    (h : (s.kindAt n).endsStatement = false) {r : RawStatement}
    (result : (s.attemptWhole (s.passageAt n)).result = .ok r)
    (rest : Loops s (s.attemptWhole (s.passageAt n)).place turns as) :
    Loops s n (s.movesOf (s.passageAt n) :: turns) (s.attemptWhole (s.passageAt n) :: as)
  /-- After a problem it goes on behind what is skipped. -/
  | problem {n stop : Nat} {skipped : List Nat} {turns : List (List Nat)}
    {as : List (Attempt RawStatement)} (h : (s.kindAt n).endsStatement = false) {e : SyntaxError}
    (result : (s.attemptWhole (s.passageAt n)).result = .error e)
    (skips : Skips s (s.attemptWhole (s.passageAt n)).place skipped stop)
    (rest : Loops s stop turns as) :
    Loops s n ((s.movesOf (s.passageAt n) ++ skipped) :: turns)
      (s.attemptWhole (s.passageAt n) :: as)

/-! ### There is one way to go -/

theorem Skips.unique {moves moves' : List Nat} {stop stop' : Nat} (h : s.Skips n moves stop)
    (h' : s.Skips n moves' stop') : moves = moves' ∧ stop = stop' := by
  induction h generalizing moves' with
  | stop hn =>
    cases h' with
    | stop => exact ⟨rfl, rfl⟩
    | move hn' => exact Bool.noConfusion (hn.symm.trans hn')
  | move hn _ ih =>
    cases h' with
    | stop hn' => exact Bool.noConfusion (hn'.symm.trans hn)
    | move _ rest =>
      obtain ⟨rfl, rfl⟩ := ih rest
      exact ⟨rfl, rfl⟩

theorem kind_ne_of_inside {k k' : TokenKind} (h : k.endsStatement = false)
    (h' : k'.endsStatement = true) : k ≠ k' := by
  rintro rfl
  exact Bool.noConfusion (h'.symm.trans h)

/-- The loop has one way to go. -/
theorem Loops.unique {turns turns' : List (List Nat)} {as as' : List (Attempt RawStatement)}
    (h : s.Loops n turns as) (h' : s.Loops n turns' as') : turns = turns' ∧ as = as' := by
  induction h generalizing turns' as' with
  | fin hn =>
    cases h' with
    | fin => exact ⟨rfl, rfl⟩
    | semicolon hn' => exact TokenKind.noConfusion (hn.symm.trans hn')
    | statement hn' => exact absurd hn (kind_ne_of_inside hn' rfl)
    | problem hn' => exact absurd hn (kind_ne_of_inside hn' rfl)
  | semicolon hn _ ih =>
    cases h' with
    | fin hn' => exact TokenKind.noConfusion (hn.symm.trans hn')
    | semicolon _ rest =>
      obtain ⟨rfl, rfl⟩ := ih rest
      exact ⟨rfl, rfl⟩
    | statement hn' => exact absurd hn (kind_ne_of_inside hn' rfl)
    | problem hn' => exact absurd hn (kind_ne_of_inside hn' rfl)
  | statement hn result _ ih =>
    cases h' with
    | fin hn' => exact absurd hn' (kind_ne_of_inside hn rfl)
    | semicolon hn' => exact absurd hn' (kind_ne_of_inside hn rfl)
    | statement _ _ rest =>
      obtain ⟨rfl, rfl⟩ := ih rest
      exact ⟨rfl, rfl⟩
    | problem _ result' =>
      rw [result] at result'
      cases result'
  | problem hn result skips _ ih =>
    cases h' with
    | fin hn' => exact absurd hn' (kind_ne_of_inside hn rfl)
    | semicolon hn' => exact absurd hn' (kind_ne_of_inside hn rfl)
    | statement _ result' =>
      rw [result] at result'
      cases result'
    | problem _ _ skips' rest =>
      obtain ⟨rfl, rfl⟩ := skips.unique skips'
      obtain ⟨rfl, rfl⟩ := ih rest
      exact ⟨rfl, rfl⟩

/-! ### The turns of the loop -/

variable {pre r ls : List Lexeme} {m : Lexeme}

theorem kindAt_append (hs : s.lexemes = pre ++ m :: ls) : s.kindAt pre.length = m.kind := by
  simp [kindAt, hs]

/-- The tokens of a statement are skipped up to its end. -/
theorem skips_run (hs : s.lexemes = pre ++ (r ++ m :: ls))
    (hr : ∀ l ∈ r, l.kind.endsStatement = false) (hm : m.kind.endsStatement = true) :
    s.Skips pre.length (List.range' pre.length r.length) (pre.length + r.length) := by
  induction r generalizing pre with
  | nil => exact .stop (by rw [kindAt_append hs, hm])
  | cons l r ih =>
    rw [List.forall_mem_cons] at hr
    have hsplit : s.lexemes = (pre ++ [l]) ++ (r ++ m :: ls) := by
      rw [hs, List.append_assoc]
      rfl
    have hrest := ih hsplit hr.2
    rw [List.length_append, List.length_singleton, Nat.add_assoc, Nat.add_comm 1] at hrest
    exact .move (by rw [kindAt_append hs, hr.1]) hrest

/-- The same from a place inside the statement. -/
theorem skips_within (hs : s.lexemes = pre ++ (r ++ m :: ls))
    (hr : ∀ l ∈ r, l.kind.endsStatement = false) (hm : m.kind.endsStatement = true)
    (hge : pre.length ≤ n) (hle : n ≤ pre.length + r.length) :
    s.Skips n (List.range' n (pre.length + r.length - n)) (pre.length + r.length) := by
  have hlength : (pre ++ r.take (n - pre.length)).length = n := by
    rw [List.length_append, List.length_take]
    omega
  have hrest : (r.drop (n - pre.length)).length = pre.length + r.length - n := by
    rw [List.length_drop]
    omega
  have hsplit : s.lexemes
      = (pre ++ r.take (n - pre.length)) ++ (r.drop (n - pre.length) ++ m :: ls) := by
    rw [hs, List.append_assoc, ← List.append_assoc (r.take _), List.take_append_drop]
  have hskips := skips_run hsplit (fun l hl => hr l (List.mem_of_mem_drop hl)) hm
  rwa [hlength, hrest, Nat.add_sub_cancel' hle] at hskips

/-- A part of a script that is a statement with its end is the passage that starts there. -/
theorem passageAt_append (hs : s.lexemes = pre ++ (r ++ m :: ls))
    (hr : ∀ l ∈ r, l.kind.endsStatement = false) (hm : m.kind.endsStatement = true) :
    s.passageAt pre.length = ⟨pre.length, r, m, (ls.headD s.fin).kind⟩ := by
  rw [passageAt, hs, List.drop_left, ofRest_run s.fin hm hr]

/-- While a passage is read, its tokens are moved on from one by one, up to the place that is
reached. -/
theorem movesOf_eq {p : Passage} {ls : List Lexeme} (hp : p.LiesIn ls) :
    s.movesOf p = List.range' p.place ((s.attemptWhole p).place - p.place) := by
  have hin : (s.startOf p).Inside := fun k hk => hp.kinds_inside hk
  have hwalk := Parser.walks_run (b := ⟨p.stop.kind, p.beyond⟩) hp.stop Grammar.wholeStatement hin
  have hplace : (s.attemptWhole p).place = p.place
      + (Grammar.wholeStatement.run ⟨p.stop.kind, p.beyond⟩ (s.startOf p)).cursor.place := by
    simp only [attemptWhole, attempt, startOf]
    congr 1
  have hzero : (s.startOf p).place = 0 := rfl
  rw [movesOf, hwalk.moves_eq, hplace, hzero, List.map_add_range', Nat.sub_zero,
    Nat.add_sub_cancel_left, Nat.add_zero]

/-- From a place on the loop reads the lexemes that are left, each turn moving on, and moves on
from each lexeme but the last once and in order. -/
def ReadsOut (s : Session) (n : Nat) (ls : List Lexeme) : Prop :=
  ∃ turns, s.Loops n turns ((passages s.fin n ls).map s.attemptWhole) ∧
    (∀ turn ∈ turns, turn ≠ []) ∧ turns.flatten = List.range' n (ls.length - 1)

theorem endsOnce_of_append (hr : ∀ l ∈ r, l.kind.endsStatement = false)
    (h : EndsOnce (r ++ ls)) : EndsOnce ls := by
  induction r with
  | nil => exact h
  | cons l r ih =>
    rw [List.forall_mem_cons] at hr
    rw [List.cons_append, EndsOnce, if_neg (kind_ne_of_inside hr.1 rfl)] at h
    exact ih hr.2 h

/-- At an end of a statement the loop goes on, or the text ends. -/
theorem readsOut_end (hs : s.lexemes = pre ++ m :: ls) (hm : m.kind.endsStatement = true)
    (hends : EndsOnce (m :: ls)) (h : EndsOnce ls → s.ReadsOut (pre.length + 1) ls) :
    s.ReadsOut pre.length (m :: ls) := by
  have hkind := kindAt_append hs
  rw [ReadsOut, passages_skip hm]
  rw [EndsOnce] at hends
  split at hends
  · next heof =>
    subst hends
    exact ⟨[], .fin (by rw [hkind, heof]), List.forall_mem_nil _, rfl⟩
  · next heof =>
    have hsemicolon : m.kind = .semicolon := (TokenKind.ends_cases hm).resolve_left heof
    obtain ⟨turns, hloops, hturns, hflatten⟩ := h hends
    have hlength : 0 < ls.length := by
      cases ls with
      | nil => exact hends.elim
      | cons l ls => exact Nat.succ_pos _
    refine ⟨[pre.length] :: turns, .semicolon (by rw [hkind, hsemicolon]) hloops,
      List.forall_mem_cons.mpr ⟨List.cons_ne_nil _ _, hturns⟩, ?_⟩
    rw [List.flatten_cons, hflatten, List.length_cons, Nat.add_sub_cancel, List.singleton_append,
      ← List.range'_succ, Nat.sub_add_cancel hlength]

/-- A statement is read, or skipped, up to its end. -/
theorem readsOut_run (hs : s.lexemes = pre ++ (r ++ m :: ls)) (hne : r ≠ [])
    (hr : ∀ l ∈ r, l.kind.endsStatement = false) (hm : m.kind.endsStatement = true)
    (h : s.ReadsOut (pre.length + r.length) (m :: ls)) :
    s.ReadsOut pre.length (r ++ m :: ls) := by
  obtain ⟨turns, hloops, hturns, hflatten⟩ := h
  have hpassage := passageAt_append hs hr hm
  have hlies : (s.passageAt pre.length).LiesIn s.lexemes := by
    rw [hpassage]
    exact ⟨hne, hr, hm, pre, ls, hs, rfl⟩
  have hkind : (s.kindAt pre.length).endsStatement = false := by
    obtain ⟨l, r, rfl⟩ := List.exists_cons_of_ne_nil hne
    rw [kindAt_append hs]
    exact hr l List.mem_cons_self
  have hpos : 0 < r.length := List.length_pos_iff.mpr hne
  have happend (k : Nat) (hk : k = pre.length + r.length) :
      List.range' pre.length (k - pre.length) ++ turns.flatten
        = List.range' pre.length ((r ++ m :: ls).length - 1) := by
    have hsplit := @List.range'_append pre.length r.length ((m :: ls).length - 1) 1
    rw [Nat.one_mul] at hsplit
    rw [hflatten, hk, Nat.add_sub_cancel_left, hsplit, List.length_append, List.length_cons,
      Nat.add_sub_cancel]
    rfl
  rw [passages_skip hm] at hloops
  rw [ReadsOut, passages_run hm hne hr, List.map_cons, ← hpassage]
  have hmoves := movesOf_eq (s := s) hlies
  have hplace : (s.passageAt pre.length).place = pre.length := by rw [hpassage]
  have hlength : (s.passageAt pre.length).run.length = r.length := by rw [hpassage]
  rw [hplace] at hmoves
  cases hresult : (s.attemptWhole (s.passageAt pre.length)).result with
  | ok v =>
    have hstop := (attemptWhole_ok hlies hresult).1
    rw [hplace, hlength] at hstop
    refine ⟨_, .statement hkind hresult ?_, List.forall_mem_cons.mpr ⟨?_, hturns⟩, ?_⟩
    · rw [hstop]
      exact hloops
    · rw [hmoves, hstop, Ne, List.range'_eq_nil_iff]
      omega
    · rw [List.flatten_cons, hmoves, happend _ hstop]
  | error e =>
    obtain ⟨hge, hle, -⟩ := attemptWhole_error hresult
    rw [hplace] at hge
    rw [hplace, hlength] at hle
    have hskips := skips_within hs hr hm hge hle
    refine ⟨_, .problem hkind hresult hskips hloops, List.forall_mem_cons.mpr ⟨?_, hturns⟩, ?_⟩
    · rw [hmoves, range'_append_of_le hge hle, Ne, List.range'_eq_nil_iff]
      omega
    · rw [List.flatten_cons, hmoves, range'_append_of_le hge hle, happend _ rfl]

/-- **The loop comes to the end of the text.** -/
theorem readsOut_segments (h : Segments ls) (hs : s.lexemes = pre ++ ls) (hends : EndsOnce ls) :
    s.ReadsOut pre.length ls := by
  induction h generalizing pre with
  | nil => exact hends.elim
  | @skip m ls hm rest ih =>
    refine readsOut_end hs hm hends fun hends => ?_
    have hsplit : s.lexemes = (pre ++ [m]) ++ ls := by
      rw [hs, List.append_assoc]
      rfl
    have hrest := ih hsplit hends
    rwa [List.length_append] at hrest
  | @run r m ls hne hr hm rest ih =>
    refine readsOut_run hs hne hr hm ?_
    have hbehind : s.lexemes = (pre ++ r) ++ m :: ls := by rw [hs, List.append_assoc]
    have hlength : (pre ++ r).length = pre.length + r.length := List.length_append
    rw [← hlength]
    refine readsOut_end hbehind hm (endsOnce_of_append hr hends) fun hends => ?_
    have hsplit : s.lexemes = (pre ++ r ++ [m]) ++ ls := by
      rw [hbehind, List.append_assoc (pre ++ r)]
      rfl
    have hrest := ih hsplit hends
    rwa [List.length_append] at hrest

end Session

/-- **A script is read to its end by moving on.**  The loop over its statements has one way to
go, which comes to the end of the text and gives what the script holds.  Each turn moves on, and
all together move on from every token but the end, once and in order.  Every other loop of the
grammar moves on in every turn but its last, too. -/
theorem parse_moves_on (d : Dialect) (source : List Char) :
    (∃ turns as before fin,
      (Session.ofText d source).Loops 0 turns as ∧
      (∀ turns' as', (Session.ofText d source).Loops 0 turns' as' → turns' = turns ∧ as' = as) ∧
      parse d source = (Session.ofText d source).resultOf as ∧
      (TokenStream.ofText d source).tokenize.1 = before ++ [fin] ∧
      fin.kind = .eof ∧ (∀ t ∈ before, t.kind ≠ .eof) ∧
      (∀ turn ∈ turns, turn ≠ []) ∧ turns.flatten = List.range before.length) ∧
    ∀ {σ : Type} (step : σ → Parser (Option σ)), Grammar.LoopStep step → Parser.Turns step := by
  refine ⟨?_, fun step h => Grammar.turns_of_loopStep h⟩
  have hends := endsOnce_lexemes d source
  have hwhole : (Session.ofText d source).lexemes = [] ++ lexemes d source := rfl
  obtain ⟨turns, hloops, hturns, hflatten⟩ := Session.readsOut_segments hends.segments hwhole hends
  obtain ⟨before, fin, hsplit, hfin, hbefore⟩ := hends.exists_append
  refine ⟨turns, (Session.ofText d source).attempts, tokensOf before, fin.token, hloops,
    fun turns' as' h => h.unique hloops, rfl, ?_, hfin, ?_, hturns, ?_⟩
  · rw [tokenize_ofText, hsplit, tokensOf, List.map_append, List.map_singleton]
  · exact List.forall_mem_map.mpr hbefore
  · rw [hflatten, hsplit, List.length_append, List.length_singleton, Nat.add_sub_cancel,
      List.length_map, List.range_eq_range']
    rfl

/-- A statement that fails at once, two semicolons and one that fails at its second token. -/
theorem parse_moves_on_problems :
    Grammar.LoopStep (Grammar.moreItems .comma Grammar.expression) ∧
      Parser.Turns (Grammar.moreItems .comma Grammar.expression) ∧
      ∃ turns as, (Session.ofText .postgres ") ( ; ; show (".toList).Loops 0 turns as ∧
        turns.flatten = [0, 1, 2, 3, 4, 5] := by
  have hstep : Grammar.LoopStep (Grammar.moreItems .comma Grammar.expression) :=
    .items .comma Grammar.expression
  obtain ⟨⟨turns, as, before, fin, hloops, -, -, htokens, -, -, -, hflatten⟩, hturns⟩ :=
    parse_moves_on .postgres ") ( ; ; show (".toList
  have hlength : before.length = 6 := by
    have hcount : (TokenStream.ofText .postgres ") ( ; ; show (".toList).tokenize.1.length = 7 := by
      decide +kernel
    rw [htokens, List.length_append, List.length_singleton] at hcount
    omega
  rw [hlength] at hflatten
  exact ⟨hstep, hturns _ hstep, turns, as, hloops, hflatten⟩

end SqlSyntax
