import SqlSyntax.Lexeme.Stream

/-!
# Spans of lexemes

The lexemes of a text come in the order of their spans, each starts where a
character does, and the end of the text is the last of them and no other.
Resolving keeps all that: it leaves lexemes out, but changes no span.

## Main definitions

* `spans` — the spans of lexemes.
* `Laid offset cs ss` — the spans `ss` lie in order in a text that starts at
  byte `offset`.
* `EndsOnce` — the end of the text is the last lexeme and no other.

## Main results

* `laid_lexemes`, `endsOnce_lexemes` — both hold for the lexemes of a text.
-/

namespace SqlSyntax

/-! ### Order -/

/-- The spans of lexemes. -/
def spans (ls : List Lexeme) : List Span :=
  ls.map fun l => l.token.span

@[simp] theorem spans_nil : spans [] = [] := rfl

@[simp] theorem spans_cons (l : Lexeme) (ls : List Lexeme) :
    spans (l :: ls) = l.token.span :: spans ls := rfl

/-- Spans in a text that starts at byte `offset`: each starts where a character
does, and ends before the next one starts. -/
structure Laid (offset : Nat) (cs : List Char) (ss : List Span) : Prop where
  starts : ∀ s ∈ ss, ∃ k, s.start = offset + byteLength (cs.take k)
  le : ∀ s ∈ ss, s.start ≤ s.stop
  ordered : ss.Pairwise fun a b => a.stop ≤ b.start

namespace Laid

variable {offset : Nat} {cs : List Char} {s : Span} {ss ts : List Span}

/-- Some of the spans lie in order too. -/
theorem sublist (h : Laid offset cs ss) (hs : ts.Sublist ss) : Laid offset cs ts where
  starts := fun s hm => h.starts s (hs.subset hm)
  le := fun s hm => h.le s (hs.subset hm)
  ordered := h.ordered.sublist hs

theorem offset_le (h : Laid offset cs ss) (hm : s ∈ ss) : offset ≤ s.start := by
  obtain ⟨k, hk⟩ := h.starts s hm
  rw [hk]
  exact Nat.le_add_right _ _

theorem singleton {k : Nat} (hk : s.start = offset + byteLength (cs.take k))
    (hle : s.start ≤ s.stop) : Laid offset cs [s] where
  starts := by
    intro t ht
    rw [List.mem_singleton.mp ht]
    exact ⟨k, hk⟩
  le := by
    intro t ht
    rw [List.mem_singleton.mp ht]
    exact hle
  ordered := List.pairwise_singleton _ _

/-- A span in the first `n` characters before spans behind them. -/
theorem cons {k n : Nat} (hk : s.start = offset + byteLength (cs.take k)) (hle : s.start ≤ s.stop)
    (hn : s.stop ≤ offset + byteLength (cs.take n))
    (h : Laid (offset + byteLength (cs.take n)) (cs.drop n) ss) : Laid offset cs (s :: ss) where
  starts := by
    intro t ht
    rcases List.mem_cons.mp ht with rfl | ht
    · exact ⟨k, hk⟩
    · obtain ⟨j, hj⟩ := h.starts t ht
      refine ⟨n + j, ?_⟩
      rw [hj, List.take_add, byteLength_append, Nat.add_assoc]
  le := by
    intro t ht
    rcases List.mem_cons.mp ht with rfl | ht
    · exact hle
    · exact h.le t ht
  ordered := by
    refine List.pairwise_cons.mpr ⟨fun t ht => ?_, h.ordered⟩
    exact Nat.le_trans hn (h.offset_le ht)

end Laid

/-! ### Raw lexemes -/

/-- The lexeme of what a rule makes of the text behind a gap of `n` characters. -/
def Reading.lexeme (offset n : Nat) (cs : List Char) (r : Reading) : Lexeme :=
  let start := offset + byteLength (cs.take n)
  ⟨⟨r.kind, ⟨start, start + byteLength ((cs.drop n).take r.taken)⟩⟩, r.notes⟩

/-- The first lexeme is the end of the text or what a rule reads behind a gap. -/
theorem firstLexeme_cases (d : Dialect) (offset : Nat) (cs : List Char) :
    (∃ notes, firstLexeme d offset cs = (endLexeme offset cs notes, cs.length)) ∨
    (∃ n c rest, gap cs = .closed n ∧ cs.drop n = c :: rest ∧
      let r := readToken d (offset + byteLength (cs.take n)) c rest
      r.kind ≠ .eof ∧ firstLexeme d offset cs = (r.lexeme offset n cs, n + r.taken)) := by
  unfold firstLexeme
  cases hg : gap cs with
  | unclosed n => exact .inl ⟨_, rfl⟩
  | closed n =>
    cases hd : cs.drop n with
    | nil =>
      refine .inl ⟨[], ?_⟩
      simp only [hd]
    | cons c rest =>
      by_cases hr : (readToken d (offset + byteLength (cs.take n)) c rest).kind = .eof
      · refine .inl ⟨(readToken d (offset + byteLength (cs.take n)) c rest).notes, ?_⟩
        simp only [hd, if_pos hr]
      · refine .inr ⟨n, c, rest, rfl, hd, hr, ?_⟩
        simp only [hd, if_neg hr, Reading.lexeme]

/-- What holds of the first lexeme of every text holds of all lexemes. -/
theorem forall_rawLexemesFrom {d : Dialect} {P : Lexeme → Prop}
    (h : ∀ offset cs, P (firstLexeme d offset cs).1)
    (hend : ∀ offset cs, P (endLexeme offset cs [])) (count offset : Nat) (cs : List Char) :
    ∀ l ∈ rawLexemesFrom d count offset cs, P l := by
  induction count generalizing offset cs with
  | zero => exact List.forall_mem_singleton.mpr (hend offset cs)
  | succ count ih =>
    unfold rawLexemesFrom
    dsimp only
    split
    · exact List.forall_mem_singleton.mpr (h offset cs)
    · exact List.forall_mem_cons.mpr ⟨h offset cs, ih _ _⟩

/-- The first lexeme lies in the characters that it takes. -/
theorem firstLexeme_span (d : Dialect) (offset : Nat) (cs : List Char) :
    let l := (firstLexeme d offset cs).1
    (∃ k, l.token.span.start = offset + byteLength (cs.take k))
      ∧ l.token.span.start ≤ l.token.span.stop
      ∧ l.token.span.stop ≤ offset + byteLength (cs.take (firstLexeme d offset cs).2) := by
  rcases firstLexeme_cases d offset cs with ⟨notes, h⟩ | ⟨n, c, rest, -, -, -, h⟩
  · rw [h]
    refine ⟨⟨cs.length, ?_⟩, Nat.le_refl _, ?_⟩ <;> simp [endLexeme]
  · rw [h]
    refine ⟨⟨n, rfl⟩, Nat.le_add_right _ _, ?_⟩
    simp only [Reading.lexeme, List.take_add, byteLength_append, Nat.add_assoc, Nat.le_refl]

theorem laid_rawLexemesFrom (d : Dialect) (count offset : Nat) (cs : List Char) :
    Laid offset cs (spans (rawLexemesFrom d count offset cs)) := by
  induction count generalizing offset cs with
  | zero =>
    refine Laid.singleton (k := cs.length) ?_ (Nat.le_refl _)
    simp [endLexeme]
  | succ count ih =>
    obtain ⟨⟨k, hk⟩, hle, hstop⟩ := firstLexeme_span d offset cs
    simp only [rawLexemesFrom]
    split
    · exact Laid.singleton hk hle
    · exact Laid.cons hk hle hstop (ih _ _)

theorem laid_rawLexemes (d : Dialect) (source : List Char) :
    Laid 0 source (spans (rawLexemes d source)) :=
  laid_rawLexemesFrom d _ 0 source

/-! ### Resolved lexemes -/

@[simp] theorem resolve_nil (d : Dialect) (looked : Bool) : resolve d looked [] = [] := by
  cases looked <;> rfl

/-- Resolving leaves lexemes out and changes no span. -/
theorem spans_resolve_sublist (d : Dialect) (looked : Bool) (ls : List Lexeme) :
    (spans (resolve d looked ls)).Sublist (spans ls) := by
  fun_induction resolve d looked ls <;> grind [spans]

/-- **The lexemes of a text lie in order.** -/
theorem laid_lexemes (d : Dialect) (source : List Char) :
    Laid 0 source (spans (lexemes d source)) :=
  (laid_rawLexemes d source).sublist (spans_resolve_sublist d false _)

/-! ### The end of the text -/

/-- The end of the text is the last lexeme and no other. -/
def EndsOnce : List Lexeme → Prop
  | [] => False
  | l :: ls => if l.kind = .eof then ls = [] else EndsOnce ls

theorem endsOnce_rawLexemesFrom (d : Dialect) (count offset : Nat) (cs : List Char) :
    EndsOnce (rawLexemesFrom d count offset cs) := by
  induction count generalizing offset cs with
  | zero => simp [rawLexemesFrom, EndsOnce, endLexeme]
  | succ count ih =>
    simp only [rawLexemesFrom]
    split
    · next h => simp only [EndsOnce, if_pos h]
    · next h =>
      simp only [EndsOnce, if_neg h]
      exact ih _ _

theorem aheadKind_ne_eof (k : Keyword) (next : Option Keyword) : aheadKind k next ≠ .eof := by
  unfold aheadKind
  split <;> simp

theorem decodedKind_ne_eof {d : Dialect} {start : Nat} {escape : Char} {k : TokenKind}
    (h : k ≠ .eof) : (decodedKind d start escape k).1 ≠ .eof := by
  unfold decodedKind
  split
  · simp [decodedString]
  · simp [decodedName]
  · exact h

/-- Resolving leaves the end of the text where it is. -/
theorem EndsOnce.resolve {d : Dialect} {looked : Bool} {ls : List Lexeme} (h : EndsOnce ls) :
    EndsOnce (resolve d looked ls) := by
  fun_induction SqlSyntax.resolve d looked ls <;>
    grind [EndsOnce, resolve_nil, TokenKind.keyword?, isEscaped, aheadKind_ne_eof, decodedKind_ne_eof]

theorem endsOnce_rawLexemes (d : Dialect) (source : List Char) : EndsOnce (rawLexemes d source) :=
  endsOnce_rawLexemesFrom d _ 0 source

/-- The end of the text stands behind all other lexemes. -/
theorem EndsOnce.exists_append {ls : List Lexeme} (h : EndsOnce ls) :
    ∃ before fin, ls = before ++ [fin] ∧ fin.kind = .eof ∧ ∀ l ∈ before, l.kind ≠ .eof := by
  induction ls with
  | nil => exact h.elim
  | cons l ls ih =>
    rw [EndsOnce] at h
    split at h
    · next hl => exact ⟨[], l, by rw [h, List.nil_append], hl, by simp⟩
    · next hl =>
      obtain ⟨before, fin, rfl, hfin, hbefore⟩ := ih h
      refine ⟨l :: before, fin, rfl, hfin, fun m hm => ?_⟩
      rcases List.mem_cons.mp hm with rfl | hm
      · exact hl
      · exact hbefore m hm

/-- No lexeme in front of another is the end of the text. -/
theorem EndsOnce.ne_eof {before rest : List Lexeme} {l : Lexeme} (h : EndsOnce (before ++ l :: rest)) :
    ∀ m ∈ before, m.kind ≠ .eof := by
  induction before with
  | nil => exact nofun
  | cons m before ih =>
    rw [List.cons_append, EndsOnce] at h
    split at h
    · exact absurd h (List.append_ne_nil_of_right_ne_nil _ (List.cons_ne_nil l rest))
    · next hm => exact List.forall_mem_cons.mpr ⟨hm, ih h⟩

/-- A stream that has an end to hand out hands out its lexemes and no more. -/
theorem TokenStream.tokenize_of_endsOnce {s : TokenStream} (h : EndsOnce s.pending) :
    s.tokenize = (s.pending.map Lexeme.token,
      s.diagnostics ++ s.pending.flatMap (Lexeme.diagnostics s.lines)) := by
  obtain ⟨before, fin, hs, -, -⟩ := h.exists_append
  have hne : s.pending.isEmpty = false := by simp [hs]
  simp only [tokenize, hne, Bool.false_eq_true, if_false]

theorem endsOnce_lexemes (d : Dialect) (source : List Char) : EndsOnce (lexemes d source) :=
  (endsOnce_rawLexemesFrom d _ 0 source).resolve

end SqlSyntax
