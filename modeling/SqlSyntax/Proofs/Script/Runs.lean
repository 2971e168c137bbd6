import Mathlib.Data.List.Basic
import SqlSyntax.Proofs.Lexeme.Span
import SqlSyntax.Script.Session

/-!
# Runs of a script

A script falls into runs of tokens between its semicolons.  The passages of a
script are those runs, one for each and in order.

## Main definitions

* `IsRun` — a maximal run of tokens in which no statement ends.
* `Passage.bounds` — the positions between which a passage lies.
* `Passage.LiesIn` — a passage is a part of a script.

## Main results

* `mem_bounds_passages` — the passages are the runs.
* `pairwise_bounds_passages` — they come in order.
* `liesIn_of_mem_passages` — the tokens of a passage are those of its run.
-/

namespace SqlSyntax

/-! ### Runs -/

/-- The tokens from position `i` on and before position `j` are a maximal run in
which no statement ends.  The token at `j`, a semicolon or the end of the text,
ends the run. -/
structure IsRun (ts : List Token) (i j : Nat) : Prop where
  nonempty : i < j
  inside : ∀ n, i ≤ n → n < j → ∃ t, ts[n]? = some t ∧ t.kind.endsStatement = false
  stop : ∃ t, ts[j]? = some t ∧ t.kind.endsStatement = true
  start : i = 0 ∨ ∃ t, ts[i - 1]? = some t ∧ t.kind.endsStatement = true

namespace IsRun

variable {ts : List Token} {i j i' j' n : Nat}

theorem not_ends (h : IsRun ts i j) (hi : i ≤ n) (hj : n < j) {t : Token} (ht : ts[n]? = some t) :
    t.kind.endsStatement = false := by
  obtain ⟨t', ht', hends⟩ := h.inside n hi hj
  rw [ht] at ht'
  rw [Option.some.inj ht', hends]

/-- A run starts behind the end of every run that starts before it. -/
theorem le_of_lt (h : IsRun ts i j) (h' : IsRun ts i' j') (hlt : i < i') : j ≤ i' := by
  rcases h'.start with h0 | ⟨t, ht, hends⟩
  · omega
  · by_contra hle
    have := h.not_ends (n := i' - 1) (by omega) (by omega) ht
    rw [hends] at this
    exact Bool.noConfusion this

/-- Where a run starts says where it ends. -/
theorem stop_unique (h : IsRun ts i j) (h' : IsRun ts i j') : j = j' := by
  by_contra hne
  rcases Nat.lt_or_gt_of_ne hne with hlt | hlt
  · obtain ⟨t, ht, hends⟩ := h.stop
    have := h'.not_ends (Nat.le_of_lt h.nonempty) hlt ht
    rw [hends] at this
    exact Bool.noConfusion this
  · obtain ⟨t, ht, hends⟩ := h'.stop
    have := h.not_ends (Nat.le_of_lt h'.nonempty) hlt ht
    rw [hends] at this
    exact Bool.noConfusion this

end IsRun

/-! ### Passages -/

/-- The positions between which a passage lies. -/
def Passage.bounds (p : Passage) : Nat × Nat :=
  (p.place, p.place + p.run.length)

/-- The tokens of lexemes. -/
abbrev tokensOf (ls : List Lexeme) : List Token :=
  ls.map Lexeme.token

/-- The lexemes of a script, cut behind the lexemes that end a statement. -/
inductive Segments : List Lexeme → Prop
  | nil : Segments []
  /-- An end without a statement before it. -/
  | skip {m : Lexeme} {ls : List Lexeme} (stop : m.kind.endsStatement = true)
      (rest : Segments ls) : Segments (m :: ls)
  /-- A statement and its end. -/
  | run {r : List Lexeme} {m : Lexeme} {ls : List Lexeme} (nonempty : r ≠ [])
      (inside : ∀ l ∈ r, l.kind.endsStatement = false) (stop : m.kind.endsStatement = true)
      (rest : Segments ls) : Segments (r ++ m :: ls)

/-- A lexeme inside a statement joins the segment behind it. -/
theorem Segments.cons {l : Lexeme} {ls : List Lexeme} (h : Segments ls) (hne : ls ≠ [])
    (hl : l.kind.endsStatement = false) : Segments (l :: ls) := by
  cases h with
  | nil => exact absurd rfl hne
  | skip stop rest =>
    refine Segments.run (r := [l]) (by simp) ?_ stop rest
    simpa using hl
  | @run r m ls nonempty inside stop rest =>
    refine Segments.run (r := l :: r) (by simp) ?_ stop rest
    intro k hk
    rcases List.mem_cons.mp hk with rfl | hk
    · exact hl
    · exact inside k hk

/-- Lexemes that end with the end of the text fall into segments. -/
theorem EndsOnce.segments {ls : List Lexeme} (h : EndsOnce ls) : Segments ls := by
  induction ls with
  | nil => exact Segments.nil
  | cons l ls ih =>
    rw [EndsOnce] at h
    split at h
    · next hl =>
      rw [h]
      refine Segments.skip ?_ Segments.nil
      rw [hl, TokenKind.endsStatement]
    · cases hends : l.kind.endsStatement with
      | true => exact Segments.skip hends (ih h)
      | false =>
        refine (ih h).cons ?_ hends
        rintro rfl
        exact h

variable {fin : Lexeme}

theorem passages_skip {m : Lexeme} (hm : m.kind.endsStatement = true) (place : Nat)
    (ls : List Lexeme) : passages fin place (m :: ls) = passages fin (place + 1) ls := by
  simp only [passages, passagesFrom, if_pos hm]

/-- Inside a statement no other starts. -/
theorem passagesFrom_inside {m : Lexeme} (hm : m.kind.endsStatement = true) (r : List Lexeme)
    (hr : ∀ l ∈ r, l.kind.endsStatement = false) (place : Nat) (ls : List Lexeme) :
    passagesFrom fin place false (r ++ m :: ls) = passages fin (place + r.length + 1) ls := by
  induction r generalizing place with
  | nil => simp [passagesFrom, hm, passages]
  | cons l r ih =>
    have hl : ¬ l.kind.endsStatement = true := by simp [hr l (by simp)]
    rw [List.cons_append, passagesFrom, if_neg hl, if_neg Bool.false_ne_true,
      ih (fun k hk => hr k (by simp [hk])), List.length_cons]
    congr 1
    omega

theorem ofRest_run (fin : Lexeme) {m : Lexeme} (hm : m.kind.endsStatement = true)
    {r : List Lexeme} (hr : ∀ l ∈ r, l.kind.endsStatement = false) (place : Nat)
    (ls : List Lexeme) :
    Passage.ofRest fin place (r ++ m :: ls) = ⟨place, r, m, (ls.headD fin).kind⟩ := by
  have hr' : ∀ l ∈ r, (!l.kind.endsStatement) = true := fun l hl => by simp [hr l hl]
  simp [Passage.ofRest, List.takeWhile_append_of_pos hr', List.dropWhile_append_of_pos hr', hm]

/-- A segment with a statement is a passage. -/
theorem passages_run {m : Lexeme} (hm : m.kind.endsStatement = true) {r : List Lexeme}
    (hne : r ≠ []) (hr : ∀ l ∈ r, l.kind.endsStatement = false) (place : Nat) (ls : List Lexeme) :
    passages fin place (r ++ m :: ls)
      = ⟨place, r, m, (ls.headD fin).kind⟩ :: passages fin (place + r.length + 1) ls := by
  cases r with
  | nil => exact absurd rfl hne
  | cons l r =>
    have hl : ¬ l.kind.endsStatement = true := by simp [hr l (by simp)]
    have hofRest := ofRest_run fin hm hr place ls
    rw [List.cons_append] at hofRest ⊢
    rw [passages, passagesFrom, if_neg hl, if_pos rfl, hofRest,
      passagesFrom_inside hm r (fun k hk => hr k (by simp [hk])), List.length_cons]
    congr 2
    omega

/-! ### Passages are runs -/

theorem isRun_segment {m : Lexeme} (hm : m.kind.endsStatement = true) {r : List Lexeme}
    (hne : r ≠ []) (hr : ∀ l ∈ r, l.kind.endsStatement = false) {pre : List Lexeme}
    (hpre : pre = [] ∨ ∃ l, pre.getLast? = some l ∧ l.kind.endsStatement = true)
    (ls : List Lexeme) :
    IsRun (tokensOf (pre ++ (r ++ m :: ls))) pre.length (pre.length + r.length) where
  nonempty := Nat.lt_add_of_pos_right (List.length_pos_iff.mpr hne)
  inside := by
    intro n hi hj
    have hn : n - pre.length < r.length := by omega
    refine ⟨r[n - pre.length].token, ?_, hr _ (List.getElem_mem hn)⟩
    rw [List.getElem?_map, List.getElem?_append_right hi, List.getElem?_append_left hn,
      List.getElem?_eq_getElem hn, Option.map_some]
  stop := by
    refine ⟨m.token, ?_, hm⟩
    simp
  start := by
    rcases hpre with rfl | ⟨l, hl, hends⟩
    · exact .inl rfl
    · refine .inr ⟨l.token, ?_, hends⟩
      rw [List.getLast?_eq_getElem?] at hl
      have hlt : pre.length - 1 < pre.length := by
        by_contra hge
        rw [List.getElem?_eq_none (by omega)] at hl
        simp at hl
      rw [List.getElem?_map, List.getElem?_append_left hlt, hl, Option.map_some]

/-- The passages behind a place are the runs behind it. -/
theorem mem_bounds_passages_iff {ls : List Lexeme} (h : Segments ls) (pre : List Lexeme)
    (hpre : pre = [] ∨ ∃ l, pre.getLast? = some l ∧ l.kind.endsStatement = true) (i j : Nat) :
    (i, j) ∈ (passages fin pre.length ls).map Passage.bounds
      ↔ IsRun (tokensOf (pre ++ ls)) i j ∧ pre.length ≤ i := by
  induction h generalizing pre with
  | nil =>
    simp only [passages, passagesFrom, List.map_nil, List.not_mem_nil, false_iff, not_and]
    intro hrun hle
    obtain ⟨t, ht, -⟩ := hrun.inside i (Nat.le_refl i) hrun.nonempty
    rw [List.getElem?_eq_none (by simpa using hle)] at ht
    simp at ht
  | @skip m ls stop rest ih =>
    have := ih (pre ++ [m]) (.inr ⟨m, by simp, stop⟩)
    rw [passages_skip stop]
    rw [List.length_append, List.length_singleton, List.append_assoc, List.singleton_append] at this
    rw [this]
    refine and_congr_right fun hrun => ⟨fun hle => by omega, fun hle => ?_⟩
    -- no run starts at an end
    by_contra hlt
    have hi : i = pre.length := by omega
    have := hrun.not_ends (Nat.le_refl i) hrun.nonempty (t := m.token) (by simp [hi])
    rw [stop] at this
    exact Bool.noConfusion this
  | @run r m ls nonempty inside stop rest ih =>
    have hrun := isRun_segment stop nonempty inside hpre ls
    have hih := ih (pre ++ (r ++ [m])) (.inr ⟨m, by simp, stop⟩)
    have hlen : (pre ++ (r ++ [m])).length = pre.length + r.length + 1 := by simp; omega
    have happ : pre ++ (r ++ [m]) ++ ls = pre ++ (r ++ m :: ls) := by simp
    rw [hlen, happ] at hih
    rw [passages_run stop nonempty inside, List.map_cons, List.mem_cons, hih]
    constructor
    · rintro (heq | ⟨hrun', hle⟩)
      · simp only [Passage.bounds, Prod.mk.injEq] at heq
        rw [heq.1, heq.2]
        exact ⟨hrun, Nat.le_refl _⟩
      · exact ⟨hrun', by omega⟩
    · rintro ⟨hrun', hle⟩
      rcases Nat.eq_or_lt_of_le hle with rfl | hlt
      · -- the run of the first segment
        rw [← hrun.stop_unique hrun']
        exact .inl rfl
      · -- a run of a later segment, which does not start at the end of the first
        refine .inr ⟨hrun', ?_⟩
        have hge := hrun.le_of_lt hrun' hlt
        by_contra hlt'
        have hi : i = pre.length + r.length := by omega
        have := hrun'.not_ends (Nat.le_refl i) hrun'.nonempty (t := m.token) (by simp [hi])
        rw [stop] at this
        exact Bool.noConfusion this

/-- **The passages of a script are its runs.** -/
theorem mem_bounds_passages {ls : List Lexeme} (h : Segments ls) (i j : Nat) :
    (i, j) ∈ (passages fin 0 ls).map Passage.bounds ↔ IsRun (tokensOf ls) i j := by
  have := @mem_bounds_passages_iff fin ls h [] (.inl rfl) i j
  simpa using this

/-- A passage is a part of the script with the lexeme that ends it. -/
structure Passage.LiesIn (p : Passage) (ls : List Lexeme) : Prop where
  nonempty : p.run ≠ []
  inside : ∀ l ∈ p.run, l.kind.endsStatement = false
  stop : p.stop.kind.endsStatement = true
  split : ∃ before behind, ls = before ++ (p.run ++ p.stop :: behind) ∧ before.length = p.place

theorem liesIn_of_mem_passages_append {ls : List Lexeme} (h : Segments ls) (pre : List Lexeme)
    {p : Passage} (hp : p ∈ passages fin pre.length ls) : p.LiesIn (pre ++ ls) := by
  induction h generalizing pre with
  | nil => simp [passages, passagesFrom] at hp
  | @skip m ls stop rest ih =>
    rw [passages_skip stop] at hp
    have := ih (pre ++ [m]) (by simpa using hp)
    rwa [List.append_assoc, List.singleton_append] at this
  | @run r m ls nonempty inside stop rest ih =>
    rw [passages_run stop nonempty inside, List.mem_cons] at hp
    rcases hp with rfl | hp
    · exact ⟨nonempty, inside, stop, pre, ls, rfl, rfl⟩
    · have := ih (pre ++ (r ++ [m])) (by simpa [Nat.add_assoc] using hp)
      rwa [List.append_assoc, List.append_assoc, List.singleton_append] at this

theorem liesIn_of_mem_passages {ls : List Lexeme} (h : Segments ls) {p : Passage}
    (hp : p ∈ passages fin 0 ls) : p.LiesIn ls :=
  liesIn_of_mem_passages_append h [] hp

namespace Passage.LiesIn

variable {p : Passage} {ls : List Lexeme}

/-- The token behind `n` others of a passage is one of the script. -/
theorem tokenAt_eq (h : p.LiesIn ls) (n : Nat) :
    (tokensOf ls)[p.place + min n p.run.length]? = some (p.tokenAt n) := by
  obtain ⟨before, behind, rfl, hlen⟩ := h.split
  rw [List.getElem?_map, ← hlen, List.getElem?_append_right (Nat.le_add_right _ _),
    Nat.add_sub_cancel_left]
  rcases Nat.lt_or_ge n p.run.length with hn | hn
  · rw [Nat.min_eq_left (Nat.le_of_lt hn), List.getElem?_append_left hn]
    simp [tokenAt, List.getD_eq_getElem?_getD, List.getElem?_eq_getElem hn]
  · rw [Nat.min_eq_right hn, List.getElem?_append_right (Nat.le_refl _)]
    simp [tokenAt, List.getD_eq_getElem?_getD, List.getElem?_eq_none hn]

theorem firstToken_eq (h : p.LiesIn ls) : (tokensOf ls)[p.place]? = some p.firstToken := by
  simpa [firstToken] using h.tokenAt_eq 0

theorem stopToken_eq (h : p.LiesIn ls) :
    (tokensOf ls)[p.place + p.run.length]? = some p.stop.token := by
  have := h.tokenAt_eq p.run.length
  simpa [tokenAt, List.getD_eq_getElem?_getD] using this

theorem lastToken_eq (h : p.LiesIn ls) :
    (tokensOf ls)[p.place + p.run.length - 1]? = some p.lastToken := by
  have hpos : 0 < p.run.length := List.length_pos_iff.mpr h.nonempty
  have := h.tokenAt_eq (p.run.length - 1)
  rw [Nat.min_eq_left (Nat.sub_le _ _), ← Nat.add_sub_assoc hpos] at this
  rw [this]
  simp [tokenAt, lastToken, List.getD_eq_getElem?_getD, List.getLastD_eq_getLast?,
    List.getLast?_eq_getElem?]

/-- The kinds of the tokens of a passage end no statement. -/
theorem kinds_inside (h : p.LiesIn ls) {k : TokenKind} (hk : k ∈ p.kinds) :
    k.endsStatement = false := by
  obtain ⟨l, hl, rfl⟩ := List.mem_map.mp hk
  exact h.inside l hl

end Passage.LiesIn

/-! ### Order of tokens -/

/-- A token of a text ends before those that come later start. -/
theorem Laid.stop_le {offset : Nat} {cs : List Char} {ls : List Lexeme}
    (h : Laid offset cs (spans ls)) {m n : Nat} (hlt : m < n) {t u : Token}
    (ht : (tokensOf ls)[m]? = some t) (hu : (tokensOf ls)[n]? = some u) :
    t.span.stop ≤ u.span.start := by
  have hspans : spans ls = (tokensOf ls).map Token.span := by simp [spans]
  rw [hspans] at h
  obtain ⟨hm, rfl⟩ := List.getElem?_eq_some_iff.mp ht
  obtain ⟨hn, rfl⟩ := List.getElem?_eq_some_iff.mp hu
  simpa using List.pairwise_iff_getElem.mp h.ordered m n (by simpa using hm) (by simpa using hn) hlt

/-- Of two tokens of a text, the one that comes later does not start earlier. -/
theorem Laid.start_le {offset : Nat} {cs : List Char} {ls : List Lexeme}
    (h : Laid offset cs (spans ls)) {m n : Nat} (hle : m ≤ n) {t u : Token}
    (ht : (tokensOf ls)[m]? = some t) (hu : (tokensOf ls)[n]? = some u) :
    t.span.start ≤ u.span.start := by
  rcases Nat.eq_or_lt_of_le hle with rfl | hlt
  · rw [ht] at hu
    exact Nat.le_of_eq (by rw [Option.some.inj hu])
  · obtain ⟨l, hl, rfl⟩ := List.mem_map.mp (List.mem_of_getElem? ht)
    have hself := h.le l.token.span (List.mem_map.mpr ⟨l, hl, rfl⟩)
    exact Nat.le_trans hself (h.stop_le hlt ht hu)

end SqlSyntax
