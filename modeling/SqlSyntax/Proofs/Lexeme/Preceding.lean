import SqlSyntax.Proofs.Lexeme.Resolving
import SqlSyntax.Proofs.Lexeme.Spells

/-!
# Texts in front of others

The last token of a text may end where the text does, whatever follows.  Such a text is read as
the same tokens in front of any other, and the other as if nothing stood before it.

## Main definitions

* `Precedes d p ks` — the text `p` is read as the tokens `ks` in front of any other.
* `Lexeme.gist` — the kind of a lexeme and its problems.

## Main results

* `Precedes.begins`, `Precedes.token`, `Precedes.blank` — how such texts are put together.
-/

namespace SqlSyntax

variable {d : Dialect} {p w : List Char} {k : TokenKind} {ks : List TokenKind} {n : Nat}

/-! ### What a lexeme says -/

/-- The kind of a lexeme and its problems, wherever it stands. -/
def Lexeme.gist (l : Lexeme) : TokenKind × List LexicalProblem :=
  (l.kind, l.notes.map Note.problem)

theorem map_gist_shift (n : Nat) (ls : List Lexeme) :
    (ls.map (Lexeme.shift n)).map Lexeme.gist = ls.map Lexeme.gist := by
  rw [List.map_map]
  refine List.map_congr_left fun l _ => ?_
  simp [Lexeme.gist, Lexeme.shift, Note.shift, Function.comp_def]

theorem map_gist_alike {ls ls' : List Lexeme} (h : List.Forall₂ Lexeme.Alike ls ls') :
    ls.map Lexeme.gist = ls'.map Lexeme.gist := by
  induction h with
  | nil => rfl
  | cons hl _ ih =>
    rw [List.map_cons, List.map_cons, ih]
    congr 1
    exact Prod.ext (congrArg Token.kind hl.1) hl.2

/-! ### Texts -/

/-- In front of any text, `p` is read as the tokens `ks`, without notes. -/
structure Precedes (d : Dialect) (p : List Char) (ks : List TokenKind) : Prop where
  read : ∀ t, ∃ ls, rawLexemes d (p ++ t) = ls ++ (rawLexemes d t).map (Lexeme.shift (byteLength p)) ∧
    ls.map Lexeme.kind = ks ∧ ∀ l ∈ ls, l.notes = []
  inner : ∀ k ∈ ks, k.isInner = true

theorem precedes_nil (d : Dialect) : Precedes d [] [] := by
  refine ⟨fun t => ⟨[], ?_, rfl, nofun⟩, nofun⟩
  have hshift : Lexeme.shift 0 = id := by
    funext l
    have hnote : Note.shift 0 = id := rfl
    simp [Lexeme.shift, hnote]
  rw [byteLength_nil, hshift, List.map_id]
  rfl

/-- What is read first, and what is read behind it. -/
theorem Begins.rawLexemes_eq {t : List Char} (h : Begins d w t k) :
    rawLexemes d (w ++ t) = ⟨⟨k, ⟨0, byteLength w⟩⟩, []⟩
      :: (rawLexemes d t).map (Lexeme.shift (byteLength w)) := by
  obtain ⟨hk, c, cs, rfl, hblank, hcomment, hread⟩ := h
  exact rawLexemes_of_readToken (TokenKind.ne_eof_of_isInner hk) hblank hcomment (hread 0)

theorem Precedes.begins (h : Precedes d p ks) (hw : ∀ t, Begins d w (p ++ t) k) :
    Precedes d (w ++ p) (k :: ks) := by
  refine ⟨fun t => ?_, List.forall_mem_cons.mpr ⟨(hw []).inner, h.inner⟩⟩
  -- the lexemes of `p` move behind the new one
  obtain ⟨ls, hread, hkinds, hnotes⟩ := h.read t
  refine ⟨⟨⟨k, ⟨0, byteLength w⟩⟩, []⟩ :: ls.map (Lexeme.shift (byteLength w)), ?_, ?_, ?_⟩
  · rw [List.append_assoc, (hw t).rawLexemes_eq, hread, List.map_append, List.map_map,
      byteLength_append, List.cons_append]
    congr 2
    refine List.map_congr_left fun l _ => ?_
    rw [Function.comp_apply, Lexeme.shift_shift, Nat.add_comm]
  · rw [List.map_cons, List.map_map, ← hkinds]
    rfl
  · refine List.forall_mem_cons.mpr ⟨rfl, fun l hl => ?_⟩
    obtain ⟨m, hm, rfl⟩ := List.mem_map.mp hl
    rw [Lexeme.shift, hnotes m hm, List.map_nil]

/-- A token in front of a break that makes no other token of a colon. -/
theorem Precedes.token {x : Char} {cs : List Char} (h : Precedes d (x :: cs) ks) (hw : IsToken d w k)
    (hx : Breaks x) (hcolon : x ≠ ':') : Precedes d (w ++ x :: cs) (k :: ks) :=
  h.begins fun t => hw.begins (fun heq => absurd (Option.some.inj heq) hcolon)
    (partsOff_cons hx (cs ++ t))

theorem rawLexemes_blank {x : Char} (hx : isBlank x = true) (t : List Char) :
    rawLexemes d (x :: t) = (rawLexemes d t).map (Lexeme.shift x.utf8Size) := by
  have hskip := rawLexemes_skip d (p := [x]) (gap_blank hx t)
  rwa [List.singleton_append, byteLength_cons, byteLength_nil, Nat.add_zero] at hskip

/-- A blank in front of a text. -/
theorem Precedes.blank {x : Char} (h : Precedes d p ks) (hx : isBlank x = true) :
    Precedes d (x :: p) ks := by
  refine ⟨fun t => ?_, h.inner⟩
  obtain ⟨ls, hread, hkinds, hnotes⟩ := h.read t
  refine ⟨ls.map (Lexeme.shift x.utf8Size), ?_, ?_, ?_⟩
  · rw [List.cons_append, rawLexemes_blank hx, hread, List.map_append, List.map_map,
      byteLength_cons]
    congr 2
    funext l
    rw [Function.comp_apply, Lexeme.shift_shift, Nat.add_comm]
  · rw [List.map_map, ← hkinds]
    rfl
  · intro l hl
    obtain ⟨m, hm, rfl⟩ := List.mem_map.mp hl
    rw [Lexeme.shift, hnotes m hm, List.map_nil]

end SqlSyntax
