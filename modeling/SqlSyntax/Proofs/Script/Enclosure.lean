import SqlSyntax.Proofs.Lexeme.Preceding
import SqlSyntax.Proofs.Script.Readback
import SqlSyntax.Proofs.Script.Single

/-!
# Texts in parentheses

A text in parentheses has the tokens that it has alone, with those of its surroundings around
them: the opening parenthesis parts it off from what stands in front, and a line break and the
closing one from what follows.

## Main definitions

* `Enclosure` — what stands around a text in parentheses, as text and as tokens.

## Main results

* `Precedes.gist_lexemes`, `gist_lexemes_closing` — the lexemes of a text in parentheses.
* `Enclosure.parse_text` — **a text in parentheses is the statement that the tokens make.**
-/

namespace SqlSyntax

open Grammar

variable {d : Dialect} {source p q : List Char} {ks : List TokenKind} {n : Node}

/-! ### Lexemes -/

theorem inert_of_symbol {l : Lexeme} (hkind : l.kind = .leftParen ∨ l.kind = .rightParen)
    (hnotes : l.notes = []) : l.Inert := by
  rcases hkind with hkind | hkind <;> refine ⟨?_, ?_, ?_, hnotes⟩ <;> rw [hkind] <;>
    first | rfl | exact fun _ => TokenKind.noConfusion

/-- The lexemes of a text behind an opening parenthesis are those that it has alone. -/
theorem Precedes.gist_lexemes (h : Precedes d p (ks ++ [.leftParen])) (t : List Char) :
    (lexemes d (p ++ t)).map Lexeme.gist
      = (settle (ks ++ [.leftParen])).map (·, []) ++ (lexemes d t).map Lexeme.gist := by
  obtain ⟨ls, hread, hkinds, hnotes⟩ := h.read t
  obtain ⟨init, last, rfl, -, hlast⟩ := List.map_eq_append_iff.mp hkinds
  obtain ⟨e, rfl, hkind⟩ := List.map_eq_singleton_iff.mp hlast
  have he : e.Inert :=
    inert_of_symbol (.inl hkind) (hnotes e (List.mem_append_right _ (List.mem_singleton_self e)))
  have hescaped : ∀ l ∈ init ++ [e], isEscaped l.kind = false := by
    intro l hl
    have hinner := h.inner l.kind (hkinds ▸ List.mem_map_of_mem hl)
    rw [TokenKind.isInner, Bool.and_eq_true, Bool.not_eq_true', Bool.not_eq_true'] at hinner
    exact hinner.2
  -- nothing in front of the parenthesis looks beyond it, so `t` is resolved on its own
  obtain ⟨hsettled, hquiet⟩ := resolve_of_isInner (d := d) false hnotes hescaped
  obtain ⟨init₁, init₂, h₁, h₂, halike⟩ := resolve_append (d := d) he he
    ((rawLexemes d t).map (Lexeme.shift (byteLength p))) [] false init
  have hgist : (init₂ ++ [e]).map Lexeme.gist = (settle (ks ++ [.leftParen])).map (·, []) := by
    rw [h₂] at hsettled hquiet
    rw [← hkinds, ← hsettled, List.map_map]
    refine List.map_congr_left fun l hl => ?_
    rw [Lexeme.gist, hquiet l hl]
    rfl
  rw [lexemes, hread, List.append_assoc, List.singleton_append, h₁, resolve_shift, ← hgist,
    List.map_append, map_gist_alike halike, List.map_cons, map_gist_shift, List.map_append,
    List.append_assoc]
  rfl

/-- The lexemes of a text in front of a closing parenthesis are those that it has alone. -/
theorem gist_lexemes_closing (h : Closed (rawLexemes d q)) (t : List Char) :
    ∃ gs, (lexemes d q).map Lexeme.gist = gs ++ [(.eof, [])] ∧
      (lexemes d (q ++ '\n' :: ')' :: t)).map Lexeme.gist
        = gs ++ (.rightParen, []) :: (lexemes d t).map Lexeme.gist := by
  obtain ⟨init, -, hq, hwhole⟩ := rawLexemes_append d q (')' :: t) h
  have hbegins : Begins d [')'] t .rightParen := begins_symbol (by decide)
  have hparen := hbegins.rawLexemes_eq
  rw [List.singleton_append] at hparen
  rw [hparen, List.map_cons] at hwhole
  -- the end of `q` alone and the parenthesis both stop what is resolved in `q`
  generalize he' : Lexeme.shift (byteLength q + 1) ⟨⟨.rightParen, ⟨0, byteLength [')']⟩⟩, []⟩ = e'
    at hwhole
  have hinert : e'.Inert := inert_of_symbol (.inr (he' ▸ rfl)) (he' ▸ rfl)
  obtain ⟨init₁, init₂, h₁, h₂, halike⟩ := resolve_append (d := d) (inert_endLexeme 0 q) hinert []
    (((rawLexemes d t).map (Lexeme.shift (byteLength [')']))).map (Lexeme.shift (byteLength q + 1)))
    false init
  refine ⟨init₁.map Lexeme.gist, ?_, ?_⟩
  · rw [lexemes, hq, h₁, List.map_append]
    rfl
  · have hgist : e'.gist = (.rightParen, []) := he' ▸ rfl
    rw [lexemes, hwhole, h₂, resolve_shift, resolve_shift, List.map_append, map_gist_alike halike,
      List.map_cons, hgist, map_gist_shift, map_gist_shift]
    rfl

/-- A text whose lexemes have no notes on errors leaves nothing unclosed. -/
theorem closed_of_isQuiet (h : ∀ l ∈ lexemes d q, l.IsQuiet) : Closed (rawLexemes d q) := by
  intro l hl n hn
  have hmem := (notes_sublist_resolve d false (rawLexemes d q)).subset
    (List.mem_flatMap.mpr ⟨l, hl, hn⟩)
  obtain ⟨m, hm, hnote⟩ := List.mem_flatMap.mp hmem
  cases hunclosed : n.problem.isUnclosed with
  | false => rfl
  | true =>
    have herror := (message_of_isUnclosed hunclosed).1
    rw [h m hm n hnote] at herror
    cases herror

/-- What a lexeme says tells whether it has notes on errors. -/
theorem isQuiet_iff_gist (l : Lexeme) :
    l.IsQuiet ↔ ∀ problem ∈ l.gist.2, problem.severity = .warning := by
  rw [Lexeme.gist, List.forall_mem_map]
  rfl

/-! ### Surroundings -/

/-- A text is one passage if it says so in its lexemes. -/
theorem exists_isPassage_of_gist {gs : List (TokenKind × List LexicalProblem)}
    (h : (lexemes d source).map Lexeme.gist = gs ++ [(.eof, [])])
    (hgs : ∀ g ∈ gs, g.1.endsStatement = false) :
    ∃ run stop, IsPassage d source run stop ∧ run.map Lexeme.gist = gs := by
  obtain ⟨run, last, hlexemes, hrun, hlast⟩ := List.map_eq_append_iff.mp h
  obtain ⟨stop, rfl, hstop⟩ := List.map_eq_singleton_iff.mp hlast
  refine ⟨run, stop, ⟨hlexemes, congrArg Prod.fst hstop, fun l hl => ?_⟩, hrun⟩
  exact hgs l.gist (hrun ▸ List.mem_map_of_mem hl)

/-- What stands around a text in parentheses, as text and as tokens. -/
structure Enclosure where
  /-- The text in front, with the opening parenthesis. -/
  before : String
  /-- The text behind the closing parenthesis. -/
  behind : String
  /-- The tokens in front of the opening parenthesis. -/
  leading : List TokenKind
  /-- The tokens behind the closing parenthesis. -/
  trailing : List TokenKind
  precedes : Precedes .postgres before.toList (leading ++ [.leftParen])
  settled : settle (leading ++ [.leftParen]) = leading ++ [.leftParen]
  gist_behind : (lexemes .postgres behind.toList).map Lexeme.gist
    = (trailing ++ [TokenKind.eof]).map (·, [])
  inner : ∀ k ∈ trailing, k.endsStatement = false

namespace Enclosure

/-- The text `q` in parentheses.  A line break ends the comment that `q` may end with. -/
def text (e : Enclosure) (q : List Char) : List Char :=
  e.before.toList ++ (q ++ '\n' :: ')' :: e.behind.toList)

/-- The tokens of a text in parentheses, if `ts` are those that it has alone. -/
def tokens (e : Enclosure) (ts : List TokenKind) : List TokenKind :=
  e.leading ++ .leftParen :: (ts ++ .rightParen :: e.trailing)

variable (e : Enclosure)

theorem gist_text (h : Closed (rawLexemes .postgres q)) :
    ∃ gs, (lexemes .postgres q).map Lexeme.gist = gs ++ [(.eof, [])] ∧
      (lexemes .postgres (e.text q)).map Lexeme.gist
        = (e.leading ++ [TokenKind.leftParen]).map (·, [])
          ++ (gs ++ (TokenKind.rightParen :: e.trailing).map (·, [])) ++ [(.eof, [])] := by
  obtain ⟨gs, hq, hwhole⟩ := gist_lexemes_closing h e.behind.toList
  refine ⟨gs, hq, ?_⟩
  rw [text, e.precedes.gist_lexemes, hwhole, e.settled, e.gist_behind]
  simp only [List.map_append, List.map_cons, List.map_nil, List.append_assoc, List.cons_append]

/-- No token around a text ends a statement. -/
theorem forall_endsStatement :
    (∀ k ∈ e.leading ++ [.leftParen], k.endsStatement = false) ∧
      ∀ k ∈ .rightParen :: e.trailing, k.endsStatement = false := by
  refine ⟨fun k hk => ?_, List.forall_mem_cons.mpr ⟨rfl, e.inner⟩⟩
  have hinner := e.precedes.inner k hk
  rw [TokenKind.isInner, Bool.and_eq_true, Bool.not_eq_true', Bool.not_eq_true'] at hinner
  exact hinner.1

/-- A text in parentheses is one passage if it is one alone. -/
theorem exists_isPassage_text {run : List Lexeme} {stop : Lexeme}
    (h : IsPassage .postgres q run stop) (hquiet : ∀ l ∈ lexemes .postgres q, l.IsQuiet) :
    ∃ run' stop', IsPassage .postgres (e.text q) run' stop' ∧
      run'.map Lexeme.kind = e.tokens (run.map Lexeme.kind) ∧
      ∀ l ∈ lexemes .postgres (e.text q), l.IsQuiet := by
  obtain ⟨gs, hq, htext⟩ := e.gist_text (closed_of_isQuiet hquiet)
  rw [h.lexemes_eq, List.map_append] at hq
  obtain ⟨rfl, -⟩ := List.append_inj' hq rfl
  obtain ⟨hleading, htrailing⟩ := e.forall_endsStatement
  -- the lexemes around the text end no statement and have no notes
  have hgists : ∀ g ∈ (e.leading ++ [TokenKind.leftParen]).map (·, [])
        ++ (run.map Lexeme.gist ++ (TokenKind.rightParen :: e.trailing).map (·, [])),
      g.1.endsStatement = false ∧ ∀ problem ∈ g.2, problem.severity = .warning := by
    rw [List.forall_mem_append, List.forall_mem_append, List.forall_mem_map, List.forall_mem_map,
      List.forall_mem_map]
    refine ⟨fun k hk => ⟨hleading k hk, List.forall_mem_nil _⟩, fun l hl => ⟨h.inner l hl, ?_⟩,
      fun k hk => ⟨htrailing k hk, List.forall_mem_nil _⟩⟩
    exact (isQuiet_iff_gist l).mp (hquiet l (by rw [h.lexemes_eq]; exact List.mem_append_left _ hl))
  obtain ⟨run', stop', hpassage, hrun⟩ := exists_isPassage_of_gist htext fun g hg => (hgists g hg).1
  refine ⟨run', stop', hpassage, ?_, fun l hl => (isQuiet_iff_gist l).mpr ?_⟩
  · have hkinds := congrArg (List.map Prod.fst) hrun
    simpa [Lexeme.gist, Function.comp_def, tokens] using hkinds
  · have hmem : l.gist ∈ (lexemes .postgres (e.text q)).map Lexeme.gist := List.mem_map_of_mem hl
    rw [htext, List.mem_append, List.mem_singleton] at hmem
    rcases hmem with hmem | hmem
    · exact (hgists _ hmem).2
    · rw [hmem]
      exact List.forall_mem_nil _

/-- **A text in parentheses is the statement that its tokens make with those around them**,
unless it nests too deeply. -/
theorem parse_text {run : List Lexeme} {stop : Lexeme} (h : IsPassage .postgres q run stop)
    (hquiet : ∀ l ∈ lexemes .postgres q, l.IsQuiet)
    (hfinds : wholeStatement.Finds (e.tokens (run.map Lexeme.kind)) n []) :
    (parse .postgres (e.text q)).IsStatement n ∨ (parse .postgres (e.text q)).ExceedsDepth := by
  obtain ⟨run', stop', htext, hkinds, hquiet⟩ := e.exists_isPassage_text h hquiet
  rw [← hkinds] at hfinds
  refine htext.parse_of_finds ?_ hquiet hfinds
  rintro rfl
  exact absurd hkinds.symm (List.append_ne_nil_of_right_ne_nil _ (List.cons_ne_nil _ _))

end Enclosure

end SqlSyntax
