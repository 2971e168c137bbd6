import SqlSyntax.Proofs.Lexeme.Append
import SqlSyntax.Proofs.Lexeme.Choice

/-!
# Texts that spell tokens

A text spells tokens if they are read from it without notes.  It is put together from
blanks and from pieces that are read as one token, where what follows a piece does not
belong to its token.

## Main definitions

* `Begins d p t k` — in front of `t` the text `p` is read as the token `k`.
* `IsToken d p k` — at the end of a text `p` is read as the token `k`.
* `Spells d cs ks` — the text `cs` is read as the tokens `ks`.

## Main results

* `IsToken.begins` — a token ends in front of a break.
* `Begins.spells`, `Spells.blank` — **how texts that spell tokens are put together.**
-/

namespace SqlSyntax

variable {d : Dialect} {p t : List Char} {k : TokenKind} {ks : List TokenKind}

/-! ### One token -/

/-- Whether a token may stand inside a statement as it is read: it does not end the
statement, and it is no literal whose Unicode escapes are still to be resolved. -/
def TokenKind.isInner (k : TokenKind) : Bool :=
  !k.endsStatement && !isEscaped k

theorem TokenKind.ne_eof_of_isInner (h : k.isInner = true) : k ≠ .eof := by
  rintro rfl
  cases h

/-- Only a dash or a slash starts a comment. -/
theorem startsComment_of_ne {c : Char} (hdash : c ≠ '-') (hslash : c ≠ '/') (cs : List Char) :
    startsComment (c :: cs) = false := by
  unfold startsComment
  split
  · next heq => exact absurd (List.cons.inj heq).1 hslash
  · next heq => exact absurd (List.cons.inj heq).1 hdash
  · rfl

/-- In front of `t`, the text `p` is read as the token `k`. -/
structure Begins (d : Dialect) (p t : List Char) (k : TokenKind) : Prop where
  inner : k.isInner = true
  read : ∃ c cs, p = c :: cs ∧ isBlank c = false ∧ startsComment (c :: (cs ++ t)) = false ∧
    ∀ start, readToken d start c (cs ++ t) = ⟨k, p.length, []⟩

/-- At the end of a text, `p` is read as the token `k`. -/
def IsToken (d : Dialect) (p : List Char) (k : TokenKind) : Prop :=
  Begins d p [] k

theorem IsToken.of_read {c : Char} {cs : List Char} (hk : k.isInner = true) (hblank : isBlank c = false)
    (hcomment : startsComment (c :: cs) = false)
    (hread : ∀ start, readToken d start c cs = ⟨k, cs.length + 1, []⟩) : IsToken d (c :: cs) k := by
  refine ⟨hk, c, cs, rfl, hblank, ?_, fun start => ?_⟩
  · rwa [List.append_nil]
  · rw [List.append_nil]
    exact hread start

/-- Nothing follows that could belong to a token. -/
def PartsOff (t : List Char) : Prop :=
  ∀ x ∈ t.head?, Breaks x

theorem partsOff_nil : PartsOff [] :=
  nofun

theorem partsOff_cons {x : Char} (hx : Breaks x) (t : List Char) : PartsOff (x :: t) := by
  intro y hy
  cases hy
  exact hx

/-- Whether a token starts with a colon, as no part of an expression does. -/
def TokenKind.startsColon : TokenKind → Bool
  | .colon | .typecast | .colonEquals => true
  | _ => false

theorem startsColon_readToken (d : Dialect) (start : Nat) (cs : List Char) :
    (readToken d start ':' cs).kind.startsColon = true := by
  have hsymbol : ¬ isOperatorChar ':' = true := by decide
  rw [readToken_bare (by decide), if_neg, if_neg fun h => absurd h.1 (by decide), if_neg hsymbol]
  · repeat' split
    all_goals rfl
  · rintro (h | h)
    · cases h
    · exact absurd h.1 (by decide)

/-- A token ends in front of a break. -/
theorem IsToken.begins (h : IsToken d p k) (hcolon : t.head? = some ':' → k.startsColon = false)
    (ht : PartsOff t) : Begins d p t k := by
  cases t with
  | nil => exact h
  | cons x t =>
    have hx : Breaks x := ht x rfl
    obtain ⟨hk, c, cs, rfl, hblank, hcomment, hread⟩ := h
    rw [List.append_nil] at hcomment
    simp only [List.append_nil] at hread
    refine ⟨hk, c, cs, rfl, hblank, ?_, fun start => ?_⟩
    · rw [startsComment_append hx, hcomment]
    · have hkind : (readToken d start c cs).kind ≠ .eof := by
        rw [hread]
        exact TokenKind.ne_eof_of_isInner hk
      have hc : x = ':' → c ≠ ':' := by
        rintro rfl rfl
        have hstarts := startsColon_readToken d start cs
        rw [hread, hcolon rfl] at hstarts
        cases hstarts
      rw [readToken_append hx d hc hkind, hread]

/-! ### Texts -/

/-- The text `cs` is read as the tokens `ks`, without notes. -/
structure Spells (d : Dialect) (cs : List Char) (ks : List TokenKind) : Prop where
  read : ∀ offset, (rawLexemesFrom d (cs.length + 1) offset cs).map (fun l => (l.kind, l.notes))
    = (ks ++ [TokenKind.eof]).map (·, [])
  inner : ∀ k ∈ ks, k.isInner = true

theorem spells_nil (d : Dialect) : Spells d [] [] :=
  ⟨fun _ => rfl, nofun⟩

theorem gap_cons {c : Char} {cs : List Char} (hblank : isBlank c = false)
    (hcomment : startsComment (c :: cs) = false) : gap (c :: cs) = .closed 0 := by
  rw [gap, gapFrom, if_neg (by rw [hblank]; exact Bool.false_ne_true)]
  · rintro _ rfl rfl
    cases hcomment
  · rintro _ rfl rfl
    cases hcomment

/-- What a rule reads at the start of a text, whatever is noted on it. -/
theorem firstLexeme_of_readToken {offset : Nat} {c : Char} {cs : List Char} {notes : List Note}
    (hk : k ≠ .eof) (hblank : isBlank c = false) (hcomment : startsComment (c :: (cs ++ t)) = false)
    (hread : readToken d offset c (cs ++ t) = ⟨k, (c :: cs).length, notes⟩) :
    firstLexeme d offset (c :: cs ++ t)
      = (⟨⟨k, ⟨offset, offset + byteLength (c :: cs)⟩⟩, notes⟩, (c :: cs).length) := by
  have htake : (c :: (cs ++ t)).take (c :: cs).length = c :: cs := List.take_left
  unfold firstLexeme
  rw [List.cons_append, gap_cons hblank hcomment]
  simp only [List.drop_zero, List.take_zero, byteLength_nil, Nat.add_zero, hread, if_neg hk,
    Nat.zero_add, htake]

/-- What is read at the start of a text, and what is read behind it. -/
theorem rawLexemes_of_readToken {c : Char} {cs : List Char} {notes : List Note} (hk : k ≠ .eof)
    (hblank : isBlank c = false) (hcomment : startsComment (c :: (cs ++ t)) = false)
    (hread : readToken d 0 c (cs ++ t) = ⟨k, (c :: cs).length, notes⟩) :
    rawLexemes d (c :: cs ++ t) = ⟨⟨k, ⟨0, byteLength (c :: cs)⟩⟩, notes⟩
      :: (rawLexemes d t).map (Lexeme.shift (byteLength (c :: cs))) := by
  have hunfold := rawLexemesFrom_unfold d 0 (c :: cs ++ t)
  dsimp only at hunfold
  rw [rawLexemes, hunfold, firstLexeme_of_readToken hk hblank hcomment hread, if_neg hk,
    List.drop_left, List.take_left, rawLexemesFrom_shift]
  simp only [Nat.zero_add, rawLexemes]

/-- The token takes exactly the text that it is spelled by. -/
theorem Begins.firstLexeme_eq (h : Begins d p t k) (offset : Nat) :
    firstLexeme d offset (p ++ t)
      = (⟨⟨k, ⟨offset, offset + byteLength p⟩⟩, []⟩, p.length) := by
  obtain ⟨hk, c, cs, rfl, hblank, hcomment, hread⟩ := h
  exact firstLexeme_of_readToken (TokenKind.ne_eof_of_isInner hk) hblank hcomment (hread offset)

/-- A token in front of a text that spells tokens. -/
theorem Begins.spells (h : Begins d p t k) (ht : Spells d t ks) : Spells d (p ++ t) (k :: ks) := by
  refine ⟨fun offset => ?_, List.forall_mem_cons.mpr ⟨h.inner, ht.inner⟩⟩
  have hfirst := h.firstLexeme_eq offset
  have hunfold := rawLexemesFrom_unfold d offset (p ++ t)
  dsimp only at hunfold
  rw [hunfold, hfirst, if_neg (TokenKind.ne_eof_of_isInner h.inner),
    List.drop_left, List.map_cons, ht.read]
  rfl

theorem gap_blank {x : Char} (hx : isBlank x = true) (t : List Char) :
    gap ([x] ++ t) = (gap t).shift 1 := by
  refine gap_append (p := [x]) ?_
  rw [gap, List.singleton_append, gapFrom, if_pos hx]
  · rfl
  · rintro _ rfl
    cases hx
  · rintro _ rfl
    cases hx

/-- A blank in front of a text that spells tokens. -/
theorem Spells.blank {x : Char} (hx : isBlank x = true) (h : Spells d t ks) :
    Spells d (x :: t) ks := by
  refine ⟨fun offset => ?_, h.inner⟩
  have hskip := rawLexemesFrom_skip d (p := [x]) (gap_blank hx t) offset
  rw [List.singleton_append, byteLength_cons, byteLength_nil, Nat.add_zero] at hskip
  rw [hskip, h.read]

end SqlSyntax
