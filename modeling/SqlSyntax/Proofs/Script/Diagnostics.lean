import SqlSyntax.Proofs.Script.Accounting

/-!
# The diagnostics of a script

Tokens are asked for by productions, by the search for the end of a statement that
failed, and to look at what follows.  Whoever asks, the notes on a token are recorded
once and in their place: what the grammar finds only comes between them.

## Main definitions

* `Interleaves as bs cs` — `cs` is made of `as` and `bs`, both in their order.
* `Diagnostic.isLabelWarning` — the warning of a keyword that stands for a label.

## Main results

* `interleaves_weave` — weaving interleaves events with notes.
* `parse_keeps_diagnostics` — **the diagnostics of a script are those of its text and
  one error for each statement that failed, but for warnings of labels.**
-/

namespace SqlSyntax

/-! ### Interleaving -/

/-- A list that is made of two others, both in their order. -/
inductive Interleaves {α : Type} : List α → List α → List α → Prop
  | nil : Interleaves [] [] []
  /-- The next element is the next one of the first list. -/
  | left {as bs cs : List α} (a : α) : Interleaves as bs cs → Interleaves (a :: as) bs (a :: cs)
  /-- The next element is the next one of the second list. -/
  | right {as bs cs : List α} (b : α) : Interleaves as bs cs → Interleaves as (b :: bs) (b :: cs)

namespace Interleaves

variable {α : Type} {as bs cs : List α}

theorem append_left (pre : List α) (h : Interleaves as bs cs) :
    Interleaves (pre ++ as) bs (pre ++ cs) := by
  induction pre with
  | nil => exact h
  | cons a pre ih => exact .left a ih

theorem append_right (pre : List α) (h : Interleaves as bs cs) :
    Interleaves as (pre ++ bs) (pre ++ cs) := by
  induction pre with
  | nil => exact h
  | cons b pre ih => exact .right b ih

theorem self_right (bs : List α) : Interleaves [] bs bs := by
  have h := append_right bs (Interleaves.nil (α := α))
  rwa [List.append_nil] at h

/-- What is left of an interleaving interleaves what is left of its parts. -/
theorem filter (p : α → Bool) (h : Interleaves as bs cs) :
    Interleaves (as.filter p) (bs.filter p) (cs.filter p) := by
  induction h with
  | nil => exact .nil
  | left a _ ih =>
    rw [List.filter_cons, List.filter_cons]
    split
    · exact .left a ih
    · exact ih
  | right b _ ih =>
    rw [List.filter_cons, List.filter_cons]
    split
    · exact .right b ih
    · exact ih

end Interleaves

/-- Weaving interleaves events with notes. -/
theorem interleaves_weave (ix : LineIndex) (n : Nat) (ls : List Lexeme) (es : List Event) :
    Interleaves (ls.flatMap (Lexeme.diagnostics ix)) (es.map Event.diagnostic)
      (weave ix n ls es) := by
  induction ls generalizing n es with
  | nil => exact Interleaves.self_right _
  | cons l ls ih =>
    have hes : es.map Event.diagnostic
        = (es.takeWhile (·.requested ≤ n)).map Event.diagnostic
          ++ (es.dropWhile (·.requested ≤ n)).map Event.diagnostic := by
      rw [← List.map_append, List.takeWhile_append_dropWhile]
    rw [weave, hes, List.flatMap_cons, List.append_assoc]
    exact ((ih _ _).append_left _).append_right _

/-! ### Warnings of labels -/

/-- The warning of a keyword that stands for a label. -/
def Diagnostic.isLabelWarning (g : Diagnostic) : Bool :=
  g.isWarning && "keyword \"".toList.isPrefixOf g.message.toList
    && "\" used as a column label".toList.isSuffixOf g.message.toList

theorem isLabelWarning_of_head {g : Diagnostic} {c : Char}
    (hmessage : g.message.toList.head? = some c) (hc : c ≠ 'k') : g.isLabelWarning = false := by
  obtain ⟨rest, hmessage⟩ := List.head?_eq_some_iff.mp hmessage
  have hprefix : List.isPrefixOf "keyword \"".toList (c :: rest) = false := by
    simp only [String.reduceToList, List.isPrefixOf_cons_cons, Bool.and_eq_false_iff]
    exact .inl (beq_eq_false_iff_ne.mpr hc.symm)
  rw [Diagnostic.isLabelWarning, hmessage, hprefix, Bool.and_false, Bool.false_and]

/-- No note on a lexeme looks like a warning of a label: it is an error, or its message
starts with another letter. -/
theorem isLabelWarning_note (ix : LineIndex) (n : Note) :
    (n.diagnostic ix).isLabelWarning = false := by
  cases hproblem : n.problem with
  | nameCut whole kept =>
    have hmessage : (n.diagnostic ix).message = "identifier \"" ++ whole
        ++ "\" will be truncated to \"" ++ kept ++ "\"" := by
      rw [Note.diagnostic, hproblem]
      rfl
    refine isLabelWarning_of_head ?_ (by decide : 'i' ≠ 'k')
    rw [hmessage]
    simp only [String.toList_append, String.reduceToList]
    rfl
  | plainEscape =>
    refine isLabelWarning_of_head ?_ (by decide : 'n' ≠ 'k')
    rw [Note.diagnostic, hproblem]
    show LexicalProblem.plainEscape.message.toList.head? = some 'n'
    decide +kernel
  | _ =>
    rw [Note.diagnostic, hproblem]
    rfl

namespace Session

variable {s : Session} {p : Passage}

theorem isLabelWarning_warningEvent (w : LabelWarning) :
    (s.warningEvent p w).diagnostic.isLabelWarning = true := by
  have hmessage : w.message.toList = "keyword \"".toList
      ++ (w.word.spelling.toList ++ "\" used as a column label".toList) := by
    rw [LabelWarning.message, String.toList_append, String.toList_append, List.append_assoc]
  show (true && List.isPrefixOf _ w.message.toList && List.isSuffixOf _ w.message.toList) = true
  rw [hmessage, Bool.true_and, Bool.and_eq_true, List.isPrefixOf_iff_prefix,
    List.isSuffixOf_iff_suffix, ← List.append_assoc]
  refine ⟨?_, List.suffix_append _ _⟩
  rw [List.append_assoc]
  exact List.prefix_append _ _

/-- Of what an attempt finds, all but its failure are warnings of labels. -/
theorem filter_allEvents (s : Session) (p : Passage) :
    ((Attempt.allEvents s (s.attemptWhole p)).map Event.diagnostic).filter
        (fun g => !g.isLabelWarning)
      = (Attempt.failure? s (s.attemptWhole p)).toList := by
  have hwarnings : ((s.attemptWhole p).events.map Event.diagnostic).filter
      (fun g => !g.isLabelWarning) = [] := by
    rw [List.filter_eq_nil_iff]
    intro g hg
    obtain ⟨e, he, rfl⟩ := List.mem_map.mp hg
    obtain ⟨w, -, rfl⟩ := List.mem_map.mp he
    rw [isLabelWarning_warningEvent]
    exact Bool.false_ne_true
  unfold Attempt.allEvents Attempt.failure?
  cases (s.attemptWhole p).result with
  | ok r => exact hwarnings
  | error e =>
    rw [List.map_append, List.filter_append, hwarnings]
    rfl

theorem filter_attempts (s : Session) (ps : List Passage) :
    (((ps.map s.attemptWhole).flatMap (Attempt.allEvents s)).map Event.diagnostic).filter
        (fun g => !g.isLabelWarning)
      = (ps.map s.attemptWhole).filterMap (Attempt.failure? s) := by
  induction ps with
  | nil => rfl
  | cons p ps ih =>
    rw [List.map_cons, List.flatMap_cons, List.map_append, List.filter_append, ih,
      filter_allEvents, List.filterMap_cons]
    cases Attempt.failure? s (s.attemptWhole p) <;> rfl

end Session

open Session in
/-- **No diagnostic of the text is lost or doubled when it is parsed.**  Each attempt at a
statement gives the statement or one error, and the script succeeds if none gives an
error.  Besides these errors and the warnings of labels the diagnostics of the script are
those of its tokens, in their order. -/
theorem parse_keeps_diagnostics (d : Dialect) (source : List Char) :
    let s := Session.ofText d source
    let failures := s.attempts.filterMap (Attempt.failure? s)
    Interleaves (TokenStream.ofText d source).tokenize.2 failures
        ((parse d source).diagnostics.filter fun g => !g.isLabelWarning) ∧
      (parse d source).statements = s.attempts.filterMap Attempt.value? ∧
      (parse d source).statements.length + failures.length = s.attempts.length ∧
      ((parse d source).success = true ↔ failures = []) := by
  intro s failures
  refine ⟨?_, rfl, length_values_add_failures s _, all_values_iff s _⟩
  have hfailures : failures
      = ((s.attempts.flatMap (Attempt.allEvents s)).map Event.diagnostic).filter
          fun g => !g.isLabelWarning := by
    show (s.attempts).filterMap _ = _
    rw [attempts_ofText, filter_attempts]
  have hnotes : (TokenStream.ofText d source).tokenize.2
      = (s.lexemes.flatMap (Lexeme.diagnostics s.lines)).filter fun g => !g.isLabelWarning := by
    rw [tokenize_ofText, List.filter_eq_self.mpr]
    · rfl
    · intro g hg
      obtain ⟨l, -, hg⟩ := List.mem_flatMap.mp hg
      obtain ⟨n, -, rfl⟩ := List.mem_map.mp hg
      rw [isLabelWarning_note]
      rfl
  rw [hfailures, hnotes]
  exact (interleaves_weave s.lines 0 s.lexemes _).filter _

end SqlSyntax
