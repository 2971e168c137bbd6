import SqlSyntax.Proofs.Lexeme.Append

/-!
# What a gap consists of

A gap is a text of blanks, line comments and block comments.  A line comment runs to
the end of its line, which is the end of the text only if nothing follows; a block
comment ends where all comments that were opened in it are closed.

## Main definitions

* `CommentRest` — the rest of a block comment, its end included.
* `Skipped after` — the texts that are a gap before `after`.

## Main results

* `skipped_of_gap` — **the reader of gaps skips nothing else.**
-/

namespace SqlSyntax

/-- The rest of a block comment in which `depth` further comments are open: up to the
mark that closes the last of them.  Marks do not share characters. -/
inductive CommentRest : Nat → List Char → Prop
  /-- The mark that closes the comment. -/
  | last : CommentRest 0 ['*', '/']
  /-- A mark that closes a comment inside. -/
  | closing {depth : Nat} {cs : List Char} (h : CommentRest depth cs) :
    CommentRest (depth + 1) ('*' :: '/' :: cs)
  /-- A mark that opens a further comment. -/
  | opening {depth : Nat} {cs : List Char} (h : CommentRest (depth + 1) cs) :
    CommentRest depth ('/' :: '*' :: cs)
  /-- A character that starts no mark. -/
  | char {depth : Nat} {c : Char} {cs : List Char} (hopen : ¬ ['/', '*'] <+: c :: cs)
    (hclose : ¬ ['*', '/'] <+: c :: cs) (h : CommentRest depth cs) : CommentRest depth (c :: cs)

/-- The texts that are a gap before `after`: blanks, line comments and block
comments. -/
inductive Skipped (after : List Char) : List Char → Prop
  | nil : Skipped after []
  /-- A blank. -/
  | blank {c : Char} {cs : List Char} (hc : isBlank c = true) (h : Skipped after cs) :
    Skipped after (c :: cs)
  /-- A comment up to the end of the line. -/
  | line {body cs : List Char} (hbody : '\n' ∉ body)
    (hend : cs.head? = some '\n' ∨ cs = [] ∧ after = []) (h : Skipped after cs) :
    Skipped after ('-' :: '-' :: (body ++ cs))
  /-- A block comment. -/
  | block {body cs : List Char} (hbody : CommentRest 0 body) (h : Skipped after cs) :
    Skipped after ('/' :: '*' :: (body ++ cs))

/-- What a reader in a state skips before `after`. -/
def GapState.Skips (after : List Char) : GapState → List Char → Prop
  | between, cs => Skipped after cs
  | line, cs => ∃ body rest, cs = body ++ rest ∧ '\n' ∉ body ∧
      (rest.head? = some '\n' ∨ rest = [] ∧ after = []) ∧ Skipped after rest
  | block depth _, cs => ∃ body rest, cs = body ++ rest ∧ CommentRest depth body ∧
      Skipped after rest

/-- A mark at the start of a comment's rest stands at the start of the text too. -/
theorem eq_of_mark {c x y : Char} {body : List Char} (hmark : [x, y] <+: c :: body)
    (rest : List Char) : ∃ cs, c = x ∧ body ++ rest = y :: cs := by
  obtain ⟨t, ht⟩ := hmark
  obtain ⟨rfl, hbody⟩ := List.cons.inj ht
  exact ⟨t ++ rest, rfl, by rw [← hbody]; rfl⟩

/-- What a reader skips from any state on. -/
theorem skips_of_gapFrom {st : GapState} {n m : Nat} {cs : List Char}
    (h : gapFrom st n cs = .closed m) :
    ∃ skipped after, cs = skipped ++ after ∧ m = n + skipped.length ∧ st.Skips after skipped := by
  fun_induction gapFrom st n cs with
  | case1 => cases h
  | case2 n =>
    cases h
    exact ⟨[], [], rfl, rfl, .nil⟩
  | case3 n =>
    cases h
    exact ⟨[], [], rfl, rfl, [], [], rfl, List.not_mem_nil, .inr ⟨rfl, rfl⟩, .nil⟩
  | case4 n cs ih =>
    obtain ⟨skipped, after, rfl, rfl, body, rest, rfl, hbody, hend, hrest⟩ := ih h
    refine ⟨'-' :: '-' :: (body ++ rest), after, rfl, ?_, .line hbody hend hrest⟩
    simp only [List.length_cons]
    omega
  | case5 n cs ih =>
    obtain ⟨skipped, after, rfl, rfl, body, rest, rfl, hbody, hrest⟩ := ih h
    refine ⟨'/' :: '*' :: (body ++ rest), after, rfl, ?_, .block hbody hrest⟩
    simp only [List.length_cons]
    omega
  | case6 n c cs _ _ hblank ih =>
    obtain ⟨skipped, after, rfl, rfl, hskipped⟩ := ih h
    refine ⟨c :: skipped, after, rfl, ?_, .blank hblank hskipped⟩
    rw [List.length_cons]
    omega
  | case7 n c cs _ _ _ =>
    cases h
    exact ⟨[], c :: cs, rfl, rfl, .nil⟩
  | case8 n c cs ih =>
    obtain ⟨skipped, after, rfl, rfl, hskips⟩ := ih h
    refine ⟨c :: skipped, after, rfl, by rw [List.length_cons]; omega, ?_⟩
    split at hskips
    · -- the line ends here, and its end is a blank
      next hc =>
      subst hc
      exact ⟨[], '\n' :: skipped, rfl, List.not_mem_nil, .inl rfl, .blank rfl hskips⟩
    · next hc =>
      obtain ⟨body, rest, rfl, hbody, hend, hrest⟩ := hskips
      refine ⟨c :: body, rest, rfl, ?_, hend, hrest⟩
      exact fun hmem => (List.mem_cons.mp hmem).elim (fun heq => hc heq.symm) hbody
  | case9 depth start n cs ih =>
    obtain ⟨skipped, after, rfl, rfl, body, rest, rfl, hbody, hrest⟩ := ih h
    refine ⟨'/' :: '*' :: (body ++ rest), after, rfl, ?_, '/' :: '*' :: body, rest, rfl,
      .opening hbody, hrest⟩
    simp only [List.length_cons]
    omega
  | case10 start n cs ih =>
    obtain ⟨skipped, after, rfl, rfl, hskipped⟩ := ih h
    refine ⟨'*' :: '/' :: skipped, after, rfl, ?_, ['*', '/'], skipped, rfl, .last, hskipped⟩
    simp only [List.length_cons]
    omega
  | case11 depth start n cs ih =>
    obtain ⟨skipped, after, rfl, rfl, body, rest, rfl, hbody, hrest⟩ := ih h
    refine ⟨'*' :: '/' :: (body ++ rest), after, rfl, ?_, '*' :: '/' :: body, rest, rfl,
      .closing hbody, hrest⟩
    simp only [List.length_cons]
    omega
  | case12 depth start n c cs hopen hlast hclose ih =>
    obtain ⟨skipped, after, rfl, rfl, body, rest, rfl, hbody, hrest⟩ := ih h
    refine ⟨c :: (body ++ rest), after, rfl, ?_, c :: body, rest, rfl, ?_, hrest⟩
    · rw [List.length_cons]
      omega
    · -- the character starts no mark, since the reader saw none
      refine .char (fun hmark => ?_) (fun hmark => ?_) hbody
      · obtain ⟨t, hc, ht⟩ := eq_of_mark hmark (rest ++ after)
        exact hopen t hc (List.append_assoc body rest after ▸ ht)
      · obtain ⟨t, hc, ht⟩ := eq_of_mark hmark (rest ++ after)
        have htext : body ++ rest ++ after = '/' :: t := List.append_assoc body rest after ▸ ht
        cases depth with
        | zero => exact hlast t rfl hc htext
        | succ depth => exact hclose depth t rfl hc htext

/-- **The reader of gaps skips nothing but blanks and comments.** -/
theorem skipped_of_gap {n : Nat} {cs : List Char} (h : gap cs = .closed n) :
    n ≤ cs.length ∧ Skipped (cs.drop n) (cs.take n) := by
  obtain ⟨skipped, after, rfl, rfl, hskipped⟩ := skips_of_gapFrom h
  rw [Nat.zero_add, List.take_left, List.drop_left]
  exact ⟨List.length_append ▸ Nat.le_add_right _ _, hskipped⟩

end SqlSyntax
