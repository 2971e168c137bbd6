import SqlSyntax.Lexeme.Stream
import SqlSyntax.Proofs.Lexeme.Skipped

/-!
# The tokens of a text tile it

Between the raw tokens of a text there is nothing but gaps, and each token but the end
takes some of the text.  So the end is reached after at most as many tokens as there
are characters, and it is handed out ever after.

## Main definitions

* `Token.LiesBehind` — a token takes a text behind a gap.
* `Tiled` — lexemes tile a text.
* `Lexeme.IsReadFrom` — a lexeme is what a rule reads at the start of a text.
* `TokenStream.skip`, `TokenStream.nth` — the tokens of a stream by number.

## Main results

* `tiled_rawLexemesFrom` — the raw lexemes of a text tile it.
* `rawLexeme_cases` — each is the end of the text or what a rule reads.
* `rawTokens_tile` — **the tokens that are handed out tile the text.**
-/

namespace SqlSyntax

/-! ### Tiles -/

/-- Behind byte `place` of a text the token `t` takes the characters `text`, with a gap
before them and `after` behind them. -/
structure Token.LiesBehind (t : Token) (place : Nat) (gap text after : List Char) : Prop where
  skipped : Skipped (text ++ after) gap
  span : t.span = ⟨place + byteLength gap, place + byteLength gap + byteLength text⟩

/-- The lexemes tile a text that starts at byte `place`: each lies behind a gap, and only
the last is the end of the text.  Something that has no end may take the place of the
last gap. -/
inductive Tiled : Nat → List Char → List Lexeme → Prop
  | last {place : Nat} {cs : List Char} {l : Lexeme} (hkind : l.kind = .eof)
    (hspan : l.token.span = ⟨place + byteLength cs, place + byteLength cs⟩)
    (hgap : Skipped [] cs ∨ ∃ n ∈ l.notes, n.problem.isUnclosed = true) : Tiled place cs [l]
  | cons {place : Nat} {gap text after : List Char} {l : Lexeme} {ls : List Lexeme}
    (hkind : l.kind ≠ .eof) (hne : text ≠ []) (hl : l.token.LiesBehind place gap text after)
    (h : Tiled (place + byteLength gap + byteLength text) after ls) :
    Tiled place (gap ++ (text ++ after)) (l :: ls)

/-- The end of a text stands behind a gap or something that has no end. -/
theorem firstLexeme_last (d : Dialect) {place : Nat} {cs : List Char}
    (h : (firstLexeme d place cs).1.kind = .eof) :
    Tiled place cs [(firstLexeme d place cs).1] := by
  by_cases hclosed : ∀ n ∈ (firstLexeme d place cs).1.notes, n.problem.isUnclosed = false
  · obtain ⟨hgap, hfirst⟩ := firstLexeme_eof d h hclosed
    obtain ⟨-, hskipped⟩ := skipped_of_gap hgap
    rw [List.drop_length, List.take_length] at hskipped
    rw [hfirst]
    exact .last rfl rfl (.inl hskipped)
  · have hspan : (firstLexeme d place cs).1.token.span
        = ⟨place + byteLength cs, place + byteLength cs⟩ := by
      rcases firstLexeme_cases d place cs with ⟨notes, heq⟩ | ⟨n, c, rest, -, -, hkind, heq⟩
      · rw [heq]
        rfl
      · rw [heq] at h
        exact absurd h hkind
    obtain ⟨n, hn⟩ := Classical.not_forall.mp hclosed
    obtain ⟨hmem, hunclosed⟩ := Classical.not_imp.mp hn
    exact .last h hspan (.inr ⟨n, hmem, Bool.not_eq_false _ ▸ hunclosed⟩)

/-- A token that is not the end of the text stands behind a gap. -/
theorem firstLexeme_behind (d : Dialect) {place : Nat} {cs : List Char}
    (h : (firstLexeme d place cs).1.kind ≠ .eof) :
    ∃ gap text after, cs = gap ++ (text ++ after) ∧ text ≠ [] ∧
      (firstLexeme d place cs).1.token.LiesBehind place gap text after ∧
      (firstLexeme d place cs).2 = (gap ++ text).length := by
  rcases firstLexeme_cases d place cs with ⟨notes, heq⟩ | ⟨n, c, rest, hgap, hdrop, -, heq⟩
  · rw [heq] at h
    exact absurd rfl h
  · obtain ⟨hn, hskipped⟩ := skipped_of_gap hgap
    obtain ⟨k, hk, hstop, hcomment⟩ := gapStops_gapFrom hgap
    rw [Nat.zero_add] at hstop
    subst hstop
    rw [hdrop] at hcomment
    have hfits := fits_readToken d (place + byteLength (cs.take n)) hcomment
    rw [heq]
    generalize readToken d (place + byteLength (cs.take n)) c rest = r at hfits ⊢
    have hle : r.taken ≤ (cs.drop n).length := hdrop ▸ hfits.le
    refine ⟨cs.take n, (cs.drop n).take r.taken, (cs.drop n).drop r.taken, ?_, ?_, ⟨?_, rfl⟩, ?_⟩
    · rw [List.take_append_drop, List.take_append_drop]
    · have hpos := hfits.pos
      rw [← List.length_pos_iff, List.length_take]
      omega
    · rw [List.take_append_drop]
      exact hskipped
    · rw [List.length_append, List.length_take_of_le hn, List.length_take_of_le hle]

/-- **The raw lexemes of a text tile it.** -/
theorem tiled_rawLexemesFrom (d : Dialect) (place : Nat) (cs : List Char) :
    Tiled place cs (rawLexemesFrom d (cs.length + 1) place cs) := by
  induction hlen : cs.length using Nat.strongRecOn generalizing cs place with
  | ind len ih =>
    subst hlen
    rw [rawLexemesFrom_unfold]
    split
    · next h => exact firstLexeme_last d h
    · next h =>
      obtain ⟨gap, text, after, hcs, hne, hl, htaken⟩ := firstLexeme_behind d h
      have hcut : cs = (gap ++ text) ++ after := hcs.trans (List.append_assoc gap text after).symm
      have hdrop : cs.drop (firstLexeme d place cs).2 = after := by
        rw [htaken, hcut]
        exact List.drop_left
      have htake : cs.take (firstLexeme d place cs).2 = gap ++ text := by
        rw [htaken, hcut]
        exact List.take_left
      have hshorter : after.length < cs.length := by
        have := List.length_pos_iff.mpr hne
        rw [hcs, List.length_append, List.length_append]
        omega
      have htiled := Tiled.cons h hne hl (ih _ hshorter _ after rfl)
      rw [← hcs] at htiled
      rw [hdrop, htake, byteLength_append, ← Nat.add_assoc]
      exact htiled

/-! ### Where lexemes are read -/

/-- The lexeme is what a rule makes of the text `rest`, which starts at byte `start` and not with
a comment. -/
def Lexeme.IsReadFrom (d : Dialect) (start : Nat) (rest : List Char) (l : Lexeme) : Prop :=
  ∃ c cs, rest = c :: cs ∧ startsComment rest = false ∧
    let r := readToken d start c cs
    r.kind ≠ .eof ∧
      l = ⟨⟨r.kind, ⟨start, start + byteLength (rest.take r.taken)⟩⟩, r.notes⟩

/-- **Every lexeme is the end of the text or what a rule reads somewhere in it.** -/
theorem rawLexeme_cases {d : Dialect} {count place : Nat} {cs : List Char} {l : Lexeme}
    (h : l ∈ rawLexemesFrom d count place cs) :
    (l.kind = .eof ∧ l.token.span.start = place + byteLength cs) ∨
      ∃ before rest, cs = before ++ rest ∧ l.IsReadFrom d (place + byteLength before) rest := by
  induction count generalizing place cs with
  | zero =>
    rw [List.mem_singleton.mp h]
    exact .inl ⟨rfl, rfl⟩
  | succ count ih =>
    have hfirst : ((firstLexeme d place cs).1.kind = .eof ∧
        (firstLexeme d place cs).1.token.span.start = place + byteLength cs) ∨
        ∃ before rest, cs = before ++ rest ∧
          (firstLexeme d place cs).1.IsReadFrom d (place + byteLength before) rest := by
      rcases firstLexeme_cases d place cs with ⟨notes, heq⟩ | ⟨n, c, rest, hgap, hdrop, hkind, heq⟩
      · rw [heq]
        exact .inl ⟨rfl, rfl⟩
      · -- no comment starts behind a gap
        obtain ⟨k, -, hk, hcomment⟩ := gapStops_gapFrom hgap
        rw [Nat.zero_add] at hk
        rw [← hk] at hcomment
        rw [heq]
        exact .inr ⟨cs.take n, cs.drop n, (List.take_append_drop n cs).symm, c, rest, hdrop,
          hcomment, hkind, rfl⟩
    rw [rawLexemesFrom] at h
    dsimp only at h
    split at h
    · rwa [List.mem_singleton.mp h]
    rcases List.mem_cons.mp h with rfl | h
    · exact hfirst
    · -- the other lexemes are those of the rest
      have hbytes : byteLength cs = byteLength (cs.take (firstLexeme d place cs).2)
          + byteLength (cs.drop (firstLexeme d place cs).2) := by
        rw [← byteLength_append, List.take_append_drop]
      rcases ih h with ⟨hkind, hstart⟩ | ⟨before, rest, hdrop, hread⟩
      · exact .inl ⟨hkind, by rw [hstart, hbytes, Nat.add_assoc]⟩
      · refine .inr ⟨cs.take (firstLexeme d place cs).2 ++ before, rest, ?_, ?_⟩
        · rw [List.append_assoc, ← hdrop, List.take_append_drop]
        · rwa [byteLength_append, ← Nat.add_assoc]

/-! ### Tiles by number -/

/-- Where the last of some lexemes ends; `place` if there are none. -/
def stopOf (place : Nat) : List Lexeme → Nat
  | [] => place
  | l :: ls => stopOf l.token.span.stop ls

theorem stopOf_append_singleton (place : Nat) (ls : List Lexeme) (l : Lexeme) :
    stopOf place (ls ++ [l]) = l.token.span.stop := by
  induction ls generalizing place with
  | nil => rfl
  | cons m ls ih => exact ih m.token.span.stop

namespace Tiled

variable {place : Nat} {cs : List Char} {ls : List Lexeme}

/-- There are at most as many tokens before the end as there are characters. -/
theorem length_le (h : Tiled place cs ls) : ls.length ≤ cs.length + 1 := by
  induction h with
  | last _ _ _ => exact Nat.succ_le_succ (Nat.zero_le _)
  | cons _ hne _ _ ih =>
    have hpos := List.length_pos_iff.mpr hne
    simp only [List.length_cons, List.length_append]
    omega

theorem ne_nil (h : Tiled place cs ls) : ls ≠ [] := by
  cases h <;> exact List.cons_ne_nil _ _

/-- The tokens before the end take some of the text behind gaps. -/
theorem token (h : Tiled place cs ls) {i : Nat} (hi : i + 1 < ls.length) :
    ∃ l before gap text after, ls[i]? = some l ∧ l.kind ≠ .eof ∧
      cs = before ++ (gap ++ (text ++ after)) ∧ place + byteLength before = stopOf place (ls.take i) ∧
      text ≠ [] ∧ l.token.LiesBehind (place + byteLength before) gap text after := by
  induction h generalizing i with
  | last _ _ _ =>
    rw [List.length_singleton] at hi
    omega
  | @cons place gap text after l ls hkind hne hl _ ih =>
    cases i with
    | zero => exact ⟨l, [], gap, text, after, rfl, hkind, rfl, rfl, hne, hl⟩
    | succ i =>
      obtain ⟨l', before, gap', text', after', hl', hkind', rfl, hstop, hne', hbehind⟩ :=
        ih (Nat.lt_of_succ_lt_succ hi)
      have hplace : place + byteLength (gap ++ (text ++ before))
          = place + byteLength gap + byteLength text + byteLength before := by
        simp only [byteLength_append, Nat.add_assoc]
      refine ⟨l', gap ++ (text ++ before), gap', text', after', hl', hkind', ?_, ?_, hne', ?_⟩
      · simp only [List.append_assoc]
      · rw [hplace, List.take_succ_cons, stopOf, hl.span]
        exact hstop
      · rw [hplace]
        exact hbehind

/-- The end of the text stands behind a gap, or something before it has no end. -/
theorem fin (h : Tiled place cs ls) :
    ∃ before gap, cs = before ++ gap ∧ place + byteLength before = stopOf place ls.dropLast ∧
      (Skipped [] gap ∨ ∃ l ∈ ls, ∃ n ∈ l.notes, n.problem.isUnclosed = true) := by
  induction h with
  | @last place cs l _ _ hgap =>
    exact ⟨[], cs, rfl, rfl, hgap.imp id fun hn => ⟨l, List.mem_singleton_self l, hn⟩⟩
  | @cons place gap text after l ls _ _ hl hls ih =>
    obtain ⟨before, gap', rfl, hstop, hgap⟩ := ih
    refine ⟨gap ++ (text ++ before), gap', by simp only [List.append_assoc], ?_, ?_⟩
    · rw [List.dropLast_cons_of_ne_nil hls.ne_nil, stopOf, hl.span]
      simpa only [byteLength_append, Nat.add_assoc] using hstop
    · exact hgap.imp id fun ⟨l', hl', hn⟩ => ⟨l', List.mem_cons_of_mem l hl', hn⟩

/-- The last lexeme is the end of the text. -/
theorem getLast? (h : Tiled place cs ls) :
    ∃ l, ls.getLast? = some l ∧
      l.token = ⟨.eof, ⟨place + byteLength cs, place + byteLength cs⟩⟩ := by
  induction h with
  | @last place cs l hkind hspan _ =>
    refine ⟨l, rfl, ?_⟩
    rw [← hspan, ← hkind]
  | @cons place gap text after l ls _ _ _ hls ih =>
    obtain ⟨l', hl', htoken⟩ := ih
    refine ⟨l', ?_, ?_⟩
    · rw [List.getLast?_cons, hl']
      rfl
    · rw [htoken]
      simp only [byteLength_append, Nat.add_assoc]

end Tiled

/-! ### Tokens by number -/

namespace TokenStream

/-- The stream behind its next `n` tokens. -/
def skip (s : TokenStream) : Nat → TokenStream
  | 0 => s
  | n + 1 => (s.skip n).next.2

/-- The token behind `n` others. -/
def nth (s : TokenStream) (n : Nat) : Token :=
  (s.skip n).next.1

/-- Behind `n` tokens the lexemes from the `n`-th on are to come, and the notes on the
others have been recorded. -/
theorem skip_eq (s : TokenStream) (n : Nat) :
    s.skip n = { s with
      pending := s.pending.drop n
      diagnostics := s.diagnostics ++ (s.pending.take n).flatMap (Lexeme.diagnostics s.lines) } := by
  induction n with
  | zero => simp [skip]
  | succ n ih =>
    rw [skip, ih, next]
    dsimp only
    cases hdrop : s.pending.drop n with
    | nil =>
      have hlen := List.drop_eq_nil_iff.mp hdrop
      rw [List.drop_of_length_le (Nat.le_succ_of_le hlen), List.take_of_length_le hlen,
        List.take_of_length_le (Nat.le_succ_of_le hlen)]
    | cons l rest =>
      have htail : s.pending.drop (n + 1) = rest := by
        rw [← List.tail_drop, hdrop, List.tail_cons]
      have htake : s.pending.take (n + 1) = s.pending.take n ++ [l] := by
        rw [List.take_add, hdrop]
        rfl
      simp only [htail, htake, List.flatMap_append, List.flatMap_singleton, List.append_assoc]

theorem nth_of_getElem? {s : TokenStream} {n : Nat} {l : Lexeme} (h : s.pending[n]? = some l) :
    s.nth n = l.token := by
  rw [nth, skip_eq, next]
  rw [← List.head?_drop] at h
  obtain ⟨rest, hrest⟩ := List.head?_eq_some_iff.mp h
  simp only [hrest]

/-- Behind all lexemes the end of the text is handed out. -/
theorem nth_of_length_le {s : TokenStream} {n : Nat} (h : s.pending.length ≤ n) :
    s.nth n = s.endToken := by
  rw [nth, skip_eq, next, List.drop_of_length_le h]
  rfl

/-- Where the last of the first `n` tokens ends. -/
def reached (s : TokenStream) : Nat → Nat
  | 0 => 0
  | n + 1 => (s.nth n).span.stop

theorem reached_eq (s : TokenStream) {n : Nat} (h : n ≤ s.pending.length) :
    s.reached n = stopOf 0 (s.pending.take n) := by
  cases n with
  | zero => rfl
  | succ n =>
    have hl : s.pending[n]? = some s.pending[n] := List.getElem?_eq_getElem h
    rw [reached, nth_of_getElem? hl, List.take_add_one, hl]
    exact (stopOf_append_singleton 0 _ _).symm

end TokenStream

theorem byteLength_pos {cs : List Char} (h : cs ≠ []) : 0 < byteLength cs := by
  cases cs with
  | nil => exact absurd rfl h
  | cons c cs => exact Nat.lt_of_lt_of_le c.utf8Size_pos (Nat.le_add_right _ _)

/-- **The tokens that are handed out tile the text.**  Each token before the end takes
some of the text behind a gap, which starts where the token before it ended; there are
at most as many as characters.  The end comes behind a gap too, unless something is left
unterminated.  From then on it is handed out again and again and nothing is recorded. -/
theorem rawTokens_tile (d : Dialect) (source : List Char) :
    let s := TokenStream.ofRaw d source
    ∃ count ≤ source.length,
      (∀ i < count, (s.nth i).kind ≠ .eof ∧ (s.nth i).span.start < (s.nth i).span.stop ∧
        ∃ before gap text after, source = before ++ (gap ++ (text ++ after)) ∧
          byteLength before = s.reached i ∧
          (s.nth i).LiesBehind (byteLength before) gap text after) ∧
      (∃ before gap, source = before ++ gap ∧ byteLength before = s.reached count ∧
        (Skipped [] gap ∨ ∃ g ∈ (s.skip (count + 1)).diagnostics, g.isUnterminated = true)) ∧
      ∀ i, count ≤ i →
        s.nth i = ⟨.eof, ⟨byteLength source, byteLength source⟩⟩ ∧
        (s.skip (i + 1)).diagnostics = (s.skip (count + 1)).diagnostics := by
  have htiled : Tiled 0 source (rawLexemes d source) := tiled_rawLexemesFrom d 0 source
  intro s
  have hpending : s.pending = rawLexemes d source := rfl
  rw [← hpending] at htiled
  obtain ⟨l, hlast, htoken⟩ := htiled.getLast?
  obtain ⟨init, hinit⟩ := List.getLast?_eq_some_iff.mp hlast
  rw [Nat.zero_add] at htoken
  have hlen : s.pending.length = init.length + 1 := by
    rw [hinit, List.length_append, List.length_singleton]
  refine ⟨init.length, by have := htiled.length_le; omega, fun i hi => ?_, ?_, fun i hi => ?_⟩
  · obtain ⟨l, before, gap, text, after, hl, hkind, hsource, hstop, hne, hbehind⟩ :=
      htiled.token (i := i) (by omega)
    rw [Nat.zero_add] at hstop hbehind
    rw [TokenStream.nth_of_getElem? hl]
    refine ⟨hkind, ?_, before, gap, text, after, hsource, ?_, hbehind⟩
    · rw [hbehind.span]
      exact Nat.lt_add_of_pos_right (byteLength_pos hne)
    · rw [hstop, TokenStream.reached_eq s (by omega)]
  · obtain ⟨before, gap, hsource, hstop, hgap⟩ := htiled.fin
    refine ⟨before, gap, hsource, ?_, hgap.imp id fun ⟨l, hl, n, hn, hunclosed⟩ => ?_⟩
    · rw [TokenStream.reached_eq s (by omega), ← Nat.zero_add (byteLength before), hstop,
        List.dropLast_eq_take, hlen, Nat.add_sub_cancel]
    · refine ⟨n.diagnostic s.lines, ?_, isUnterminated_of_isUnclosed hunclosed s.lines⟩
      rw [TokenStream.skip_eq, ← hlen, List.take_length]
      exact List.mem_append_right _ (List.mem_flatMap.mpr ⟨l, hl, List.mem_map_of_mem hn⟩)
  · refine ⟨?_, ?_⟩
    · rcases Nat.eq_or_lt_of_le hi with rfl | hi
      · have hl : s.pending[init.length]? = some l := by simp [hinit]
        rw [TokenStream.nth_of_getElem? hl, htoken]
      · rw [TokenStream.nth_of_length_le (by omega)]
        simp [TokenStream.endToken, endLexeme, s, TokenStream.ofRaw]
    · rw [TokenStream.skip_eq, TokenStream.skip_eq, List.take_of_length_le (by omega),
        List.take_of_length_le (by omega)]

end SqlSyntax
