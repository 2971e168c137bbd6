import Mathlib.Data.List.Forall2
import SqlSyntax.Proofs.Lexeme.Append

/-!
# The lexemes of a text in two parts

Resolving looks at most two lexemes ahead, and neither the end of the text nor a
semicolon changes what it looks from.  So the lexemes of a text in two parts with
a semicolon between them are those of the parts.

## Main definitions

* `EscapeClause`, `escapeClause` — what a literal with Unicode escapes learns from
  the lexemes behind it.
* `Lexeme.Alike` — the same token, with the same problems.

## Main results

* `resolve_keyword`, `resolve_escaped`, `resolve_plain` — the three steps of the pass.
* `notes_sublist_resolve` — resolving keeps all notes, in their order.
* `resolve_shift` — a text further on is resolved in the same way.
* `lexemes_append` — **the resolved lexemes of a text in two parts.**
-/

namespace SqlSyntax

variable {d : Dialect} {l : Lexeme} {ls : List Lexeme} {looked : Bool} {k : Nat}

/-! ### The steps -/

/-- What a literal with Unicode escapes learns from the lexemes behind it. -/
structure EscapeClause where
  /-- The escape character. -/
  escape : Char
  /-- The notes that the literal takes over. -/
  notes : List Note
  /-- Whether the next lexeme to be resolved was looked at. -/
  looked : Bool
  /-- The number of lexemes that are used up. -/
  used : Nat

/-- The `UESCAPE` clause that lexemes begin with, if they do. -/
def escapeClause : List Lexeme → EscapeClause
  | [] => ⟨'\\', [], false, 0⟩
  | [u] => ⟨'\\', u.notes, true, 0⟩
  | u :: operand :: _ =>
    if u.kind.keyword? = some .UESCAPE then
      let notes := u.notes ++ operand.notes
      let start := operand.token.span.start
      match operand.kind with
      | .string s =>
        match Escape.escapeChar s.toList with
        | some e => ⟨e, notes, false, 2⟩
        | none => ⟨'\\', notes ++ [⟨.badEscapeChar, start⟩], false, 2⟩
      | _ => ⟨'\\', notes ++ [⟨.escapeCharMissing, start⟩], true, 1⟩
    else ⟨'\\', u.notes, true, 0⟩

/-- A lexeme's own notes, unless it was looked at before. -/
def Lexeme.newNotes (looked : Bool) (l : Lexeme) : List Note :=
  if looked then [] else l.notes

/-- A literal with its escapes resolved. -/
def Lexeme.decoded (d : Dialect) (escape : Char) (notes : List Note) (l : Lexeme) : Lexeme :=
  let result := decodedKind d l.token.span.start escape l.kind
  ⟨⟨result.1, l.token.span⟩, notes ++ result.2⟩

theorem resolve_keyword {key : Keyword} (hl : l.kind.keyword? = some key)
    (hkey : key.needsLookahead = true) :
    resolve d looked (l :: ls)
      = ⟨⟨aheadKind key (ls.head?.bind (·.kind.keyword?)), l.token.span⟩,
          l.newNotes looked ++ ls.head?.elim [] Lexeme.notes⟩ :: resolve d true ls := by
  rw [resolve.eq_def]
  simp only [hl, hkey, if_true]
  rfl

theorem resolve_escaped (hl : isEscaped l.kind = true) :
    resolve d looked (l :: ls)
      = l.decoded d (escapeClause ls).escape (l.newNotes looked ++ (escapeClause ls).notes)
        :: resolve d (escapeClause ls).looked (ls.drop (escapeClause ls).used) := by
  have hnone : l.kind.keyword? = none := by
    revert hl
    cases l.kind <;> simp [isEscaped, TokenKind.keyword?]
  fun_cases escapeClause ls with
  | case1 =>
    rw [resolve.eq_def]
    simp only [hnone, hl, if_true]
    rfl
  | case2 u =>
    rw [resolve.eq_def]
    simp only [hnone, hl, if_true]
    rfl
  | case3 u operand rest hu notes s hs e he =>
    rw [resolve.eq_def]
    simp only [hnone, hl, hu, hs, he, if_true]
    rfl
  | case4 u operand rest hu notes start s hs he =>
    rw [resolve.eq_def]
    simp only [hnone, hl, hu, hs, he, if_true]
    rfl
  | case5 u operand rest hu notes start hs =>
    rw [resolve.eq_def]
    simp only [hnone, hl, hu, if_true]
    cases hkind : operand.kind with
    | string s => exact (hs s hkind).elim
    | _ => rfl
  | case6 u operand rest hu =>
    rw [resolve.eq_def]
    simp only [hnone, hl, hu, if_true, if_false]
    rfl

theorem resolve_plain (hkey : ∀ key, l.kind.keyword? = some key → key.needsLookahead = false)
    (hl : isEscaped l.kind = false) :
    resolve d looked (l :: ls) = ⟨l.token, l.newNotes looked⟩ :: resolve d false ls := by
  rw [resolve.eq_def]
  cases h : l.kind.keyword? with
  | none =>
    simp only [h, hl, Bool.false_eq_true, if_false]
    rfl
  | some key =>
    simp only [h, hkey key h, Bool.false_eq_true, if_false]
    rfl

theorem keyword?_eq_some {kind : TokenKind} {k : Keyword} :
    kind.keyword? = some k ↔ kind = .keyword k := by
  cases kind <;> simp [TokenKind.keyword?]

/-- A lexeme is a keyword that looks ahead, or an escaped literal, or neither. -/
theorem lexeme_cases (l : Lexeme) :
    (∃ key, l.kind.keyword? = some key ∧ key.needsLookahead = true)
      ∨ isEscaped l.kind = true
      ∨ (∀ key, l.kind.keyword? = some key → key.needsLookahead = false)
        ∧ isEscaped l.kind = false := by
  cases hl : isEscaped l.kind with
  | true => exact .inr (.inl rfl)
  | false =>
    by_cases h : ∃ key, l.kind.keyword? = some key ∧ key.needsLookahead = true
    · exact .inl h
    · refine .inr (.inr ⟨fun key hkey => ?_, rfl⟩)
      exact Bool.eq_false_iff.2 fun hahead => h ⟨key, hkey, hahead⟩

/-- Resolving goes on behind a lexeme, at the next one or further on. -/
theorem resolve_induction {P : Bool → List Lexeme → Prop} (nil : ∀ looked, P looked [])
    (cons : ∀ looked l ls, (∀ looked n, P looked (ls.drop n)) → P looked (l :: ls)) :
    ∀ looked ls, P looked ls := by
  intro looked ls
  induction hlen : ls.length using Nat.strong_induction_on generalizing looked ls with
  | h len ih =>
  subst hlen
  cases ls with
  | nil => exact nil looked
  | cons l ls =>
    refine cons looked l ls fun looked n => ih _ ?_ looked _ rfl
    rw [List.length_drop, List.length_cons]
    omega

/-! ### Notes -/

/-- The notes on what a `UESCAPE` clause looks at are taken over, in their order. -/
theorem sublist_escapeClause (ls : List Lexeme) :
    (ls.flatMap Lexeme.notes).Sublist
      ((escapeClause ls).notes
        ++ (if (escapeClause ls).looked then (ls.drop (escapeClause ls).used).tail
            else ls.drop (escapeClause ls).used).flatMap Lexeme.notes) := by
  fun_cases escapeClause ls with
  | case1 => exact List.Sublist.refl _
  | case2 | case6 => exact List.Sublist.refl _
  | case3 u operand rest _ notes =>
    simp only [notes, List.flatMap_cons, List.append_assoc]
    exact List.Sublist.refl _
  | case4 u operand rest _ notes | case5 u operand rest _ notes =>
    -- one note more comes behind those of the clause
    simp only [notes, List.flatMap_cons, List.append_assoc]
    exact ((List.sublist_append_right _ _).append_left _).append_left _

/-- Resolving keeps all notes on lexemes that were not looked at before, in their order. -/
theorem notes_sublist_resolve (d : Dialect) (looked : Bool) (ls : List Lexeme) :
    ((if looked then ls.tail else ls).flatMap Lexeme.notes).Sublist
      ((resolve d looked ls).flatMap Lexeme.notes) := by
  induction looked, ls using resolve_induction with
  | nil looked => cases looked <;> exact List.Sublist.refl _
  | cons looked l ls ih =>
    have hsplit : (if looked then (l :: ls).tail else l :: ls).flatMap Lexeme.notes
        = l.newNotes looked ++ ls.flatMap Lexeme.notes := by
      cases looked <;> rfl
    rw [hsplit]
    obtain ⟨key, hkey, hahead⟩ | hl | ⟨hkey, hl⟩ := lexeme_cases l
    · rw [resolve_keyword hkey hahead, List.flatMap_cons, List.append_assoc]
      refine List.Sublist.append_left ?_ _
      have hrest := ih true 0
      cases ls with
      | nil => exact hrest
      | cons next ls => exact hrest.append_left _
    · rw [resolve_escaped hl, List.flatMap_cons, Lexeme.decoded]
      simp only [List.append_assoc]
      refine List.Sublist.append_left ((sublist_escapeClause ls).trans ?_) _
      exact ((ih _ _).trans (List.sublist_append_right _ _)).append_left _
    · rw [resolve_plain hkey hl, List.flatMap_cons]
      exact (ih false 0).append_left _

/-! ### Texts further on -/

theorem Lexeme.shift_shift (j k : Nat) (l : Lexeme) : (l.shift j).shift k = l.shift (j + k) := by
  simp [Lexeme.shift, Note.shift, Function.comp_def, Nat.add_assoc]

theorem decodedKind_shift (start : Nat) (escape : Char) (kind : TokenKind) :
    decodedKind d (start + k) escape kind
      = ((decodedKind d start escape kind).1,
          (decodedKind d start escape kind).2.map (Note.shift k)) := by
  cases kind with
  | escapedString body => simp only [decodedKind, decodedString, faultNotes_shift]
  | escapedName body =>
    simp only [decodedKind, decodedName, faultNotes_shift, limitName_shift, List.map_append]
    split <;> rfl
  | _ => rfl

theorem decoded_shift (escape : Char) (notes : List Note) :
    (l.shift k).decoded d escape (notes.map (Note.shift k))
      = (l.decoded d escape notes).shift k := by
  simp [Lexeme.decoded, Lexeme.shift, decodedKind_shift]

theorem newNotes_shift : (l.shift k).newNotes looked = (l.newNotes looked).map (Note.shift k) := by
  cases looked <;> rfl

/-- What a clause says further on. -/
def EscapeClause.shift (k : Nat) (c : EscapeClause) : EscapeClause :=
  { c with notes := c.notes.map (Note.shift k) }

theorem escapeClause_shift (ls : List Lexeme) :
    escapeClause (ls.map (Lexeme.shift k)) = (escapeClause ls).shift k := by
  fun_cases escapeClause ls with
  | case1 | case2 => rfl
  | case3 u operand rest hu notes s hs e he =>
    simp [escapeClause, Lexeme.shift, hu, hs, he, EscapeClause.shift, notes]
  | case4 u operand rest hu notes start s hs he =>
    simp [escapeClause, Lexeme.shift, hu, hs, he, EscapeClause.shift, notes, start, Note.shift]
  | case5 u operand rest hu notes start hs =>
    simp [escapeClause, Lexeme.shift, hu, EscapeClause.shift, notes, start, Note.shift]
  | case6 u operand rest hu => simp [escapeClause, Lexeme.shift, hu, EscapeClause.shift]

/-- A text further on is resolved in the same way. -/
theorem resolve_shift (k : Nat) (looked : Bool) (ls : List Lexeme) :
    resolve d looked (ls.map (Lexeme.shift k)) = (resolve d looked ls).map (Lexeme.shift k) := by
  induction looked, ls using resolve_induction with
  | nil looked => rfl
  | cons looked l ls ih =>
    obtain ⟨key, hkey, hahead⟩ | hl | ⟨hkey, hl⟩ := lexeme_cases l
    · rw [resolve_keyword hkey hahead, List.map_cons,
        resolve_keyword (l := l.shift k) hkey hahead, newNotes_shift, List.map_cons]
      rw [show resolve d true (ls.map (Lexeme.shift k)) = _ from ih true 0]
      cases ls <;> simp [Lexeme.shift]
    · rw [resolve_escaped hl, List.map_cons, resolve_escaped (l := l.shift k) hl,
        escapeClause_shift, newNotes_shift, List.map_cons, ← ih, ← decoded_shift, List.map_append,
        ← List.map_drop]
      rfl
    · rw [resolve_plain hkey hl, List.map_cons, resolve_plain (l := l.shift k) hkey hl,
        newNotes_shift, List.map_cons]
      rw [show resolve d false (ls.map (Lexeme.shift k)) = _ from ih false 0]
      rfl

/-! ### Texts that go on -/

/-- The same token, with the same problems; where they are may differ. -/
def Lexeme.Alike (l l' : Lexeme) : Prop :=
  l.token = l'.token ∧ l.notes.map Note.problem = l'.notes.map Note.problem

theorem Lexeme.Alike.refl (l : Lexeme) : l.Alike l :=
  ⟨rfl, rfl⟩

/-- A lexeme that no lexeme in front of it looks at: neither a keyword nor a
literal with Unicode escapes, and without notes. -/
structure Lexeme.Inert (l : Lexeme) : Prop where
  keyword : l.kind.keyword? = none
  escaped : isEscaped l.kind = false
  string : ∀ s, l.kind ≠ .string s
  notes : l.notes = []

theorem resolve_inert (hl : l.Inert) : resolve d looked (l :: ls) = l :: resolve d false ls := by
  have hnew : l.newNotes looked = l.notes := by
    rw [Lexeme.newNotes, hl.notes, ite_self]
  rw [resolve_plain (by simp [hl.keyword]) hl.escaped, hnew]

theorem escapeClause_inert {e : Lexeme} (he : e.Inert) (rest : List Lexeme) :
    escapeClause (e :: rest) = ⟨'\\', [], true, 0⟩ := by
  cases rest <;> simp [escapeClause, he.keyword, he.notes]

theorem escapeClause_cons_inert {e : Lexeme} (he : e.Inert) (u : Lexeme) (rest : List Lexeme) :
    escapeClause (u :: e :: rest)
      = if u.kind.keyword? = some .UESCAPE then
          ⟨'\\', u.notes ++ [⟨.escapeCharMissing, e.token.span.start⟩], true, 1⟩
        else ⟨'\\', u.notes, true, 0⟩ := by
  rw [escapeClause]
  split
  · dsimp only
    split
    · next s hs => exact (he.string s hs).elim
    · rw [he.notes, List.append_nil]
  · rfl

theorem escapeClause_used_le (ls : List Lexeme) : (escapeClause ls).used ≤ 2 := by
  fun_cases escapeClause ls <;> simp

/-- Clauses that say the same, up to where the problems are. -/
structure EscapeClause.Alike (c c' : EscapeClause) : Prop where
  escape : c.escape = c'.escape
  problems : c.notes.map Note.problem = c'.notes.map Note.problem
  looked : c.looked = c'.looked
  used : c.used = c'.used

/-- A clause does not reach beyond an inert lexeme, and is the same before another
one. -/
theorem escapeClause_append {e e' : Lexeme} (he : e.Inert) (he' : e'.Inert)
    (init rest rest' : List Lexeme) :
    (escapeClause (init ++ e :: rest)).Alike (escapeClause (init ++ e' :: rest'))
      ∧ (escapeClause (init ++ e' :: rest')).used ≤ init.length := by
  match init with
  | [] =>
    simp only [List.nil_append, escapeClause_inert he, escapeClause_inert he']
    exact ⟨⟨rfl, rfl, rfl, rfl⟩, le_rfl⟩
  | [u] =>
    simp only [List.singleton_append, escapeClause_cons_inert he, escapeClause_cons_inert he']
    split
    · exact ⟨⟨rfl, by simp, rfl, rfl⟩, le_rfl⟩
    · exact ⟨⟨rfl, rfl, rfl, rfl⟩, Nat.zero_le 1⟩
  | u :: operand :: init =>
    refine ⟨⟨rfl, rfl, rfl, rfl⟩, (escapeClause_used_le _).trans ?_⟩
    rw [List.length_cons, List.length_cons]
    omega

theorem decoded_alike {escape : Char} {notes notes' : List Note}
    (h : notes.map Note.problem = notes'.map Note.problem) :
    (l.decoded d escape notes).Alike (l.decoded d escape notes') := by
  refine ⟨rfl, ?_⟩
  simp only [Lexeme.decoded, List.map_append, h]

/-- Two texts that go on differently behind an inert lexeme are resolved alike
up to there, and from there on as if nothing stood before. -/
theorem resolve_append {e e' : Lexeme} (he : e.Inert) (he' : e'.Inert) (rest rest' : List Lexeme)
    (looked : Bool) (init : List Lexeme) :
    ∃ init₁ init₂, resolve d looked (init ++ e :: rest) = init₁ ++ e :: resolve d false rest
      ∧ resolve d looked (init ++ e' :: rest') = init₂ ++ e' :: resolve d false rest'
      ∧ List.Forall₂ Lexeme.Alike init₁ init₂ := by
  induction looked, init using resolve_induction with
  | nil looked => exact ⟨[], [], resolve_inert he, resolve_inert he', .nil⟩
  | cons looked l init ih =>
    obtain ⟨key, hkey, hahead⟩ | hl | ⟨hkey, hl⟩ := lexeme_cases l
    · obtain ⟨init₁, init₂, h₁, h₂, halike⟩ := ih true 0
      rw [List.drop_zero] at h₁ h₂
      rw [List.cons_append, List.cons_append, resolve_keyword hkey hahead,
        resolve_keyword hkey hahead, h₁, h₂]
      refine ⟨_ :: init₁, _ :: init₂, rfl, rfl, .cons ?_ halike⟩
      cases init <;> simp [Lexeme.Alike, he.keyword, he'.keyword, he.notes, he'.notes]
    · obtain ⟨hclause, hused⟩ := escapeClause_append he he' init rest rest'
      obtain ⟨init₁, init₂, h₁, h₂, halike⟩ :=
        ih (escapeClause (init ++ e' :: rest')).looked (escapeClause (init ++ e' :: rest')).used
      rw [List.cons_append, List.cons_append, resolve_escaped hl, resolve_escaped hl,
        hclause.escape, hclause.looked, hclause.used, List.drop_append_of_le_length hused,
        List.drop_append_of_le_length hused, h₁, h₂]
      refine ⟨_ :: init₁, _ :: init₂, rfl, rfl, .cons (decoded_alike ?_) halike⟩
      rw [List.map_append, List.map_append, hclause.problems]
    · obtain ⟨init₁, init₂, h₁, h₂, halike⟩ := ih false 0
      rw [List.drop_zero] at h₁ h₂
      rw [List.cons_append, List.cons_append, resolve_plain hkey hl, resolve_plain hkey hl, h₁, h₂]
      exact ⟨_ :: init₁, _ :: init₂, rfl, rfl, .cons (.refl _) halike⟩

/-! ### A semicolon between the parts -/

/-- A semicolon that stands at a byte. -/
def semicolonAt (offset : Nat) : Lexeme :=
  ⟨⟨.semicolon, ⟨offset, offset + 1⟩⟩, []⟩

theorem inert_semicolonAt (offset : Nat) : (semicolonAt offset).Inert :=
  ⟨rfl, rfl, fun _ => TokenKind.noConfusion, rfl⟩

theorem inert_endLexeme (offset : Nat) (cs : List Char) : (endLexeme offset cs []).Inert :=
  ⟨rfl, rfl, fun _ => TokenKind.noConfusion, rfl⟩

theorem readToken_semicolon (start : Nat) (t : List Char) :
    readToken d start ';' t = ⟨.semicolon, 1, []⟩ := by
  rfl

theorem firstLexeme_semicolon (offset : Nat) (t : List Char) :
    firstLexeme d offset (';' :: t) = (semicolonAt offset, 1) := by
  have hblank : isBlank ';' = false := by decide
  have hgap : gap (';' :: t) = .closed 0 := by simp [gap, gapFrom, hblank]
  have hbytes : byteLength [';'] = 1 := by decide
  simp [firstLexeme, hgap, readToken_semicolon, semicolonAt, hbytes, byteLength_nil]

theorem rawLexemes_semicolon (d : Dialect) (t : List Char) :
    rawLexemes d (';' :: t) = semicolonAt 0 :: (rawLexemes d t).map (Lexeme.shift 1) := by
  have hbytes : byteLength [';'] = 1 := by decide
  rw [rawLexemes, rawLexemesFrom_unfold, firstLexeme_semicolon]
  simp only [semicolonAt, reduceCtorEq, if_false, List.drop_succ_cons, List.drop_zero,
    List.take_succ_cons, List.take_zero, hbytes]
  rw [rawLexemesFrom_shift, rawLexemes]

/-- The lexemes of a text of two parts with a semicolon between them. -/
theorem lexemes_append (s₁ s₂ : List Char) (h : Closed (rawLexemes d s₁)) :
    ∃ init₁ init₂, lexemes d s₁ = init₁ ++ [endLexeme 0 s₁ []]
      ∧ lexemes d (s₁ ++ '\n' :: ';' :: s₂)
        = init₂ ++ semicolonAt (byteLength s₁ + 1)
          :: (lexemes d s₂).map (Lexeme.shift (byteLength s₁ + 2))
      ∧ List.Forall₂ Lexeme.Alike init₁ init₂ := by
  obtain ⟨init, -, h₁, h₂⟩ := rawLexemes_append d s₁ (';' :: s₂) h
  obtain ⟨init₁, init₂, hinit₁, hinit₂, halike⟩ :=
    resolve_append (d := d) (inert_endLexeme 0 s₁) (inert_semicolonAt (byteLength s₁ + 1)) []
      ((rawLexemes d s₂).map (Lexeme.shift (byteLength s₁ + 2))) false init
  refine ⟨init₁, init₂, ?_, ?_, halike⟩
  · rw [lexemes, h₁, hinit₁, resolve]
  · rw [resolve_shift] at hinit₂
    have hmove : (rawLexemes d (';' :: s₂)).map (Lexeme.shift (byteLength s₁ + 1))
        = semicolonAt (byteLength s₁ + 1)
          :: (rawLexemes d s₂).map (Lexeme.shift (byteLength s₁ + 2)) := by
      rw [rawLexemes_semicolon, List.map_cons, List.map_map]
      congr 1
      · simp only [Lexeme.shift, semicolonAt, List.map_nil, Nat.zero_add, Nat.add_comm 1]
      · refine List.map_congr_left fun l _ => ?_
        rw [Function.comp_apply, Lexeme.shift_shift]
        congr 1
        omega
    rw [lexemes, lexemes, ← hinit₂, h₂, hmove]

end SqlSyntax
