import SqlSyntax.Proofs.Grammar.SoundStatement
import SqlSyntax.Script

/-!
# The trees of a script

A statement of a script is the value of a run on the tokens of its passage.  So what the
grammar yields holds of all statements, and below each statement all nodes have their
shape.

## Main results

* `attemptWhole_node` — a statement is the value of a run.
* `forall_statements` — what the grammar yields holds of all statements.
* `parse_shaped` — **all nodes of all statements have their shape.**
-/

namespace SqlSyntax

/-- The tokens of a passage are as they are known to be. -/
structure Passage.Fits (K : Known) (p : Passage) : Prop where
  run : ∀ k ∈ p.kinds, K.token k
  stop : K.token p.stop.kind
  beyond : K.token p.beyond

theorem Passage.fits_ofRest {K : Known} {fin : Lexeme} {ls : List Lexeme} (place : Nat)
    (h : ∀ l ∈ ls, K.token l.kind) (hfin : K.token fin.kind) :
    (Passage.ofRest fin place ls).Fits K := by
  have hhead {ms : List Lexeme} (hms : ms ⊆ ls) : K.token (ms.headD fin).kind := by
    cases ms with
    | nil => exact hfin
    | cons m ms => exact h m (hms List.mem_cons_self)
  have hrest := (List.dropWhile_suffix (fun l : Lexeme => !l.kind.endsStatement) (l := ls)).subset
  refine ⟨?_, hhead hrest, hhead fun _ hl => hrest (List.mem_of_mem_tail hl)⟩
  intro k hk
  obtain ⟨l, hl, rfl⟩ := List.mem_map.mp hk
  exact h l (List.takeWhile_subset _ hl)

/-- A passage of lexemes starts at one of them. -/
theorem exists_ofRest_of_mem_passagesFrom {fin : Lexeme} {ls : List Lexeme} {place : Nat}
    {fresh : Bool} {p : Passage} (hp : p ∈ passagesFrom fin place fresh ls) :
    ∃ place' ls', ls' ⊆ ls ∧ p = Passage.ofRest fin place' ls' := by
  induction ls generalizing place fresh with
  | nil => cases hp
  | cons l ls ih =>
    have hlater {fresh : Bool} (hp : p ∈ passagesFrom fin (place + 1) fresh ls) :
        ∃ place' ls', ls' ⊆ l :: ls ∧ p = Passage.ofRest fin place' ls' := by
      obtain ⟨place', ls', hsub, rfl⟩ := ih hp
      exact ⟨place', ls', List.subset_cons_of_subset l hsub, rfl⟩
    unfold passagesFrom at hp
    split at hp
    · exact hlater hp
    · split at hp
      · obtain rfl | hp := List.mem_cons.mp hp
        · exact ⟨place, l :: ls, List.Subset.refl _, rfl⟩
        · exact hlater hp
      · exact hlater hp

/-- The passages of lexemes have the tokens of those. -/
theorem fits_of_mem_passages {K : Known} {fin : Lexeme} {ls : List Lexeme} {place : Nat}
    (h : ∀ l ∈ ls, K.token l.kind) (hfin : K.token fin.kind) :
    ∀ p ∈ passages fin place ls, p.Fits K := by
  intro p hp
  obtain ⟨place', ls', hsub, rfl⟩ := exists_ofRest_of_mem_passagesFrom hp
  exact Passage.fits_ofRest place' (fun l hl => h l (hsub hl)) hfin

/-- A passage is ended by a token that ends statements. -/
theorem stop_of_mem_passages {fin : Lexeme} {ls : List Lexeme} {place : Nat}
    (hfin : fin.kind.endsStatement = true) :
    ∀ p ∈ passages fin place ls, p.stop.kind.endsStatement = true := by
  intro p hp
  obtain ⟨place', ls', -, rfl⟩ := exists_ofRest_of_mem_passagesFrom hp
  rw [Passage.ofRest]
  cases hrest : ls'.dropWhile fun l => !l.kind.endsStatement with
  | nil => exact hfin
  | cons l rest =>
    have hl := List.head?_dropWhile_not (fun l : Lexeme => !l.kind.endsStatement) ls'
    rw [hrest] at hl
    simpa using hl

namespace Session

/-- The statement of an attempt is the value of a run on the tokens of the passage. -/
theorem attemptWhole_node {s : Session} {p : Passage} {r : RawStatement}
    (h : (s.attemptWhole p).result = .ok r) :
    ∃ c c', c.run = p.kinds ∧
      Grammar.wholeStatement.run ⟨p.stop.kind, p.beyond⟩ c = .ok r.node c' := by
  let start : Cursor := { run := p.kinds, requested := max 1 (s.requested - p.place) }
  have hresult : (s.attemptWhole p).result
      = (s.outcomeResult p (Grammar.wholeStatement.run ⟨p.stop.kind, p.beyond⟩ start)).map
          (rawStatement p) := rfl
  rw [hresult] at h
  cases hrun : Grammar.wholeStatement.run ⟨p.stop.kind, p.beyond⟩ start with
  | error q c =>
    rw [hrun] at h
    cases h
  | ok n c =>
    rw [hrun] at h
    cases h
    exact ⟨start, c, rfl, hrun⟩

/-- A statement comes from an attempt at a passage. -/
theorem exists_passage_of_mem_statements {s : Session} {r : RawStatement}
    (hr : r ∈ s.parse.statements) :
    ∃ p ∈ passages s.fin s.place (s.lexemes.drop s.place), (s.attemptWhole p).result = .ok r := by
  obtain ⟨a, ha, hvalue⟩ := List.mem_filterMap.mp hr
  obtain ⟨p, hp, rfl⟩ := List.mem_map.mp ha
  refine ⟨p, hp, ?_⟩
  unfold Attempt.value? at hvalue
  cases hcase : (s.attemptWhole p).result with
  | ok r' =>
    rw [hcase] at hvalue
    cases hvalue
    rfl
  | error e =>
    rw [hcase] at hvalue
    cases hvalue

/-- What the grammar yields holds of all statements of a script. -/
theorem forall_statements {K : Known} {P : Node → Prop} {s : Session}
    (hbody : ∀ r : Rule, r.body.Yields K (K.value r)) (h : Grammar.wholeStatement.Yields K P)
    (hfits : ∀ p ∈ passages s.fin s.place (s.lexemes.drop s.place), p.Fits K) :
    ∀ r ∈ s.parse.statements, P r.node := by
  intro r hr
  obtain ⟨p, hp, hresult⟩ := exists_passage_of_mem_statements hr
  obtain ⟨c, c', hc, hrun⟩ := attemptWhole_node hresult
  have hp := hfits p hp
  exact h.of_run hbody ⟨hc ▸ hp.run, hp.stop, hp.beyond⟩ hrun

end Session

theorem Grammar.wholeStatement_sound : Grammar.wholeStatement.Yields soundly Node.Sound := by
  unfold Grammar.wholeStatement
  apply Grammar.statement_sound.bind
  intro n hn
  apply Parser.yields_bind_any
  intro k
  apply Parser.yields_ite
  · exact fun _ => Parser.yields_pure hn
  · exact fun _ => Parser.yields_misplaced

/-- **All nodes of all statements have their shape.** -/
theorem parse_shaped (d : Dialect) (source : List Char) :
    ∀ s ∈ (parse d source).statements, ∀ n ∈ s.node.walk, n.Shaped := by
  apply Session.forall_statements Grammar.body_sound Grammar.wholeStatement_sound
  exact fun p _ => ⟨fun _ _ => trivial, trivial, trivial⟩

/-- The query of a text is there and has its shape. -/
theorem parse_shaped_select :
    ∃ s ∈ (parse .postgres "SELECT 1 AND 2 LIMIT 3".toList).statements,
      s.node.tag = .select ∧ s.node.Shaped := by
  have htag : (parse .postgres "SELECT 1 AND 2 LIMIT 3".toList).statements.head?.map (·.node.tag)
      = some .select := by
    decide +kernel
  obtain ⟨s, hs, htag⟩ := Option.map_eq_some_iff.mp htag
  have hmem := List.mem_of_head? hs
  have hself : s.node ∈ s.node.walk := by
    rw [Node.walk_eq]
    exact List.mem_cons_self
  exact ⟨s, hmem, htag, parse_shaped .postgres _ s hmem s.node hself⟩

end SqlSyntax
