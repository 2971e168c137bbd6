import SqlSyntax.Proofs.Rendering.Numbers
import SqlSyntax.Proofs.Rendering.Quotes
import SqlSyntax.Rendering.Node

/-!
# Written pieces are read back

Between two pieces stands a border, which is a gap, a parenthesis, a bracket or a comma, so
that each is read for itself.  Without a border stand only the parts of a dotted name, the
steps into a value, the bounds of a slice and a sign with its operand.

## Main definitions

* `Piece.isBorder` — the pieces that end a token.
* `Written ps` — the pieces `ps` are read back as their tokens.
* `Trails ps` — they are, and behind other pieces too.
* `Closes ps`, `BeforeDot ps` — they are, whatever follows, or in front of a dot too.
* `StartsWith P ps` — the first character is as `P` says, such as `Opens`.

## Main results

* `Written.append` — pieces and what trails behind them.
* `written_words`, `written_commas`, `Written.clause`, … — the usual sequences of pieces.
* `written_literal`, `written_dotted`, `written_sign` — what has no border inside.
-/

namespace SqlSyntax

variable {p : Piece} {ps qs : List Piece}

/-! ### Sequences of pieces -/

/-- The characters of a sequence of pieces. -/
def charsOf (ps : List Piece) : List Char :=
  ps.flatMap fun p => p.text.toList

theorem toList_join (ps : List Piece) : (Piece.join ps).toList = charsOf ps := by
  induction ps with
  | nil => rfl
  | cons p ps ih =>
    rw [Piece.join, List.map_cons, String.join_cons, String.toList_append, ← Piece.join, ih]
    rfl

@[simp] theorem charsOf_nil : charsOf [] = [] := rfl

@[simp] theorem charsOf_cons (p : Piece) (ps : List Piece) :
    charsOf (p :: ps) = p.text.toList ++ charsOf ps := rfl

@[simp] theorem charsOf_append (ps qs : List Piece) :
    charsOf (ps ++ qs) = charsOf ps ++ charsOf qs :=
  List.flatMap_append

/-- The pieces are read back as their tokens in front of what belongs to no token. -/
def Written (ps : List Piece) : Prop :=
  ∀ t ks, PartsOff t → Spells .postgres t ks →
    Spells .postgres (charsOf ps ++ t) (kindsOf ps ++ ks)

/-- A gap, a parenthesis, a bracket or a comma. -/
def Piece.isBorder : Piece → Bool
  | gap | mark .leftParen | mark .rightParen | mark .leftBracket | mark .rightBracket
  | mark .comma => true
  | _ => false

/-- The pieces are read back behind others, where they start with a border. -/
structure Trails (ps : List Piece) : Prop where
  written : Written ps
  border : ∀ p ∈ ps.head?, p.isBorder = true

theorem written_nil : Written [] :=
  fun _ _ _ h => h

theorem trails_nil : Trails [] :=
  ⟨written_nil, nofun⟩

/-- A border is a single character that ends a token. -/
theorem Piece.text_of_isBorder (hp : p.isBorder = true) : ∃ x, p.text.toList = [x] ∧ Breaks x := by
  unfold isBorder at hp
  split at hp
  · exact ⟨' ', rfl, by decide⟩
  · exact ⟨'(', rfl, by decide⟩
  · exact ⟨')', rfl, by decide⟩
  · exact ⟨'[', rfl, by decide⟩
  · exact ⟨']', rfl, by decide⟩
  · exact ⟨',', rfl, by decide⟩
  · cases hp

/-- A border is read back whatever follows. -/
theorem spells_border (hp : p.isBorder = true) {t : List Char} {ks : List TokenKind}
    (h : Spells .postgres t ks) : Spells .postgres (p.text.toList ++ t) (p.kinds ++ ks) := by
  unfold Piece.isBorder at hp
  split at hp
  · exact h.blank rfl
  · exact (begins_symbol (c := '(') (by decide)).spells h
  · exact (begins_symbol (c := ')') (by decide)).spells h
  · exact (begins_symbol (c := '[') (by decide)).spells h
  · exact (begins_symbol (c := ']') (by decide)).spells h
  · exact (begins_symbol (c := ',') (by decide)).spells h
  · cases hp

theorem Trails.partsOff (h : Trails ps) {t : List Char} (ht : PartsOff t) :
    PartsOff (charsOf ps ++ t) := by
  cases ps with
  | nil => exact ht
  | cons p ps =>
    obtain ⟨x, htext, hx⟩ := Piece.text_of_isBorder (h.border p rfl)
    rw [charsOf_cons, htext]
    exact partsOff_cons hx _

/-- Pieces and what trails behind them are read back. -/
theorem Written.append (hps : Written ps) (hqs : Trails qs) : Written (ps ++ qs) := by
  intro t ks ht hspells
  rw [charsOf_append, kindsOf_append, List.append_assoc, List.append_assoc]
  exact hps _ _ (hqs.partsOff ht) (hqs.written t ks ht hspells)

theorem Trails.append (hps : Trails ps) (hqs : Trails qs) : Trails (ps ++ qs) := by
  refine ⟨hps.written.append hqs, ?_⟩
  cases ps with
  | nil => exact hqs.border
  | cons p ps => exact hps.border

/-- Pieces are read back behind a border. -/
theorem Written.trails (h : Written ps) (hp : p.isBorder = true) : Trails (p :: ps) := by
  refine ⟨fun t ks ht hspells => ?_, fun q hq => ?_⟩
  · rw [charsOf_cons, kindsOf_cons, List.append_assoc, List.append_assoc]
    exact spells_border hp (h t ks ht hspells)
  · cases hq
    exact hp

theorem Written.gap (h : Written ps) : Trails (.gap :: ps) :=
  h.trails rfl

/-- A piece that is a token is read back. -/
theorem written_token {k : TokenKind} (hkinds : p.kinds = [k]) (hcolon : k.startsColon = false)
    (h : IsToken .postgres p.text.toList k) : Written [p] := by
  intro t ks ht hspells
  rw [charsOf_cons, kindsOf_cons, charsOf_nil, kindsOf_nil, List.append_nil, List.append_nil,
    hkinds]
  exact (h.begins (fun _ => hcolon) ht).spells hspells

/-! ### Words -/

theorem written_word (w : Keyword) : Written [.word w] :=
  written_token rfl rfl (isToken_keyword w).1

theorem written_typeWord (w : Keyword) : Written [.typeWord w] :=
  written_token rfl rfl (isToken_keyword w).2

/-- Items between which a border stands. -/
theorem written_separated {separator : List Piece}
    (hseparator : ∀ {ps}, Written ps → Trails (separator ++ ps)) {items : List (List Piece)}
    (h : ∀ item ∈ items, Written item) : Written (separated separator items) := by
  cases items with
  | nil => exact written_nil
  | cons item items =>
    rw [List.forall_mem_cons] at h
    rw [separated_cons]
    refine h.1.append ?_
    have hmore := h.2
    clear h
    induction items with
    | nil => exact trails_nil
    | cons next items ih =>
      rw [List.forall_mem_cons] at hmore
      rw [List.flatMap_cons]
      exact (hseparator hmore.1).append (ih hmore.2)

theorem written_spaced {items : List (List Piece)} (h : ∀ item ∈ items, Written item) :
    Written (spaced items) :=
  written_separated (fun h => h.gap) h

theorem written_commas {items : List (List Piece)} (h : ∀ item ∈ items, Written item) :
    Written (commas items) :=
  written_separated (fun h => h.gap.written.trails rfl) h

theorem written_words (ws : List Keyword) : Written (words ws) := by
  refine written_spaced fun item hitem => ?_
  obtain ⟨w, -, rfl⟩ := List.mem_map.mp hitem
  exact written_word w

theorem written_typeWords (ws : List Keyword) : Written (typeWords ws) := by
  refine written_spaced fun item hitem => ?_
  obtain ⟨w, -, rfl⟩ := List.mem_map.mp hitem
  exact written_typeWord w

/-- A word and what trails behind it. -/
theorem Trails.word (h : Trails ps) (w : Keyword) : Written (.word w :: ps) :=
  (written_word w).append h

theorem Trails.typeWord (h : Trails ps) (w : Keyword) : Written (.typeWord w :: ps) :=
  (written_typeWord w).append h

theorem Written.wordsIf (h : Written ps) (b : Bool) (ws : List Keyword) :
    Written (wordsIf b ws ++ ps) := by
  cases b with
  | false => exact h
  | true =>
    rw [SqlSyntax.wordsIf, if_pos rfl, List.append_assoc]
    exact (written_words ws).append h.gap

/-! ### Parentheses and clauses -/

theorem Written.parens (h : Written ps) : Trails (parens ps) :=
  (h.append (written_nil.trails rfl)).trails rfl

theorem Written.brackets (h : Written ps) : Trails (brackets ps) :=
  (h.append (written_nil.trails rfl)).trails rfl

theorem trails_suffixWords (ws : List Keyword) : Trails (suffixWords ws) := by
  unfold suffixWords
  split
  · exact trails_nil
  · exact (written_words ws).gap

theorem Written.clause (h : Written ps) (ws : List Keyword) : Trails (clause ws ps) :=
  (trails_suffixWords ws).append h.gap

theorem trails_optionalClause (ws : List Keyword) {content : Option (List Piece)}
    (h : ∀ ps ∈ content, Written ps) : Trails (optionalClause ws content) := by
  cases content with
  | none => exact trails_nil
  | some ps => exact (h ps rfl).clause ws

theorem trails_listClause (ws : List Keyword) {items : List (List Piece)}
    (h : ∀ item ∈ items, Written item) : Trails (listClause ws items) := by
  unfold listClause
  split
  · exact trails_nil
  · exact (written_commas h).clause ws

/-! ### What may follow -/

/-- The pieces are read back whatever follows them. -/
def Closes (ps : List Piece) : Prop :=
  ∀ t ks, Spells .postgres t ks → Spells .postgres (charsOf ps ++ t) (kindsOf ps ++ ks)

/-- The pieces are read back in front of a dot too. -/
def BeforeDot (ps : List Piece) : Prop :=
  ∀ t ks, (∀ x ∈ t.head?, Breaks x ∨ x = '.') → Spells .postgres t ks →
    Spells .postgres (charsOf ps ++ t) (kindsOf ps ++ ks)

theorem Closes.beforeDot (h : Closes ps) : BeforeDot ps :=
  fun t ks _ => h t ks

theorem BeforeDot.append (hps : BeforeDot ps) (hqs : BeforeDot qs)
    (hhead : ∀ x ∈ (charsOf qs).head?, Breaks x ∨ x = '.') : BeforeDot (ps ++ qs) := by
  intro t ks ht hspells
  rw [charsOf_append, kindsOf_append, List.append_assoc, List.append_assoc]
  refine hps _ _ (fun x hx => ?_) (hqs t ks ht hspells)
  cases hchars : charsOf qs with
  | nil =>
    rw [hchars] at hx
    exact ht x hx
  | cons c cs =>
    rw [hchars] at hx hhead
    exact hhead x hx

theorem BeforeDot.written (h : BeforeDot ps) : Written ps :=
  fun t ks ht => h t ks fun x hx => .inl (ht x hx)

theorem Closes.cons (h : Closes ps) (hp : p.isBorder = true) : Closes (p :: ps) := by
  intro t ks hspells
  rw [charsOf_cons, kindsOf_cons, List.append_assoc, List.append_assoc]
  exact spells_border hp (h t ks hspells)

/-- Pieces are read back in front of a border, whatever follows that. -/
theorem Written.closes (h : Written ps) (hp : p.isBorder = true) : Closes (ps ++ [p]) := by
  intro t ks hspells
  obtain ⟨x, htext, hx⟩ := Piece.text_of_isBorder hp
  have hborder : Spells .postgres (charsOf [p] ++ t) (kindsOf [p] ++ ks) := by
    rw [charsOf_cons, charsOf_nil, kindsOf_cons, kindsOf_nil, List.append_nil, List.append_nil]
    exact spells_border hp hspells
  rw [charsOf_append, kindsOf_append, List.append_assoc, List.append_assoc]
  refine h _ _ ?_ hborder
  rw [charsOf_cons, htext]
  exact partsOff_cons hx _

theorem Written.closes_parens (h : Written ps) : Closes (SqlSyntax.parens ps) :=
  (h.closes (p := .mark .rightParen) rfl).cons (p := .mark .leftParen) rfl

theorem Written.closes_brackets (h : Written ps) : Closes (SqlSyntax.brackets ps) :=
  (h.closes (p := .mark .rightBracket) rfl).cons (p := .mark .leftBracket) rfl

/-- The bounds of a slice in brackets, where what follows the colon makes no other token of it. -/
theorem Written.closes_slice (hps : Written ps) (hqs : Written qs)
    (hcolon : ∀ c ∈ (charsOf qs).head?, c ≠ ':' ∧ c ≠ '=') :
    Closes (SqlSyntax.brackets (ps ++ [.mark .colon] ++ qs)) := by
  have hbrackets : SqlSyntax.brackets (ps ++ [.mark .colon] ++ qs)
      = .mark .leftBracket :: (ps ++ .mark .colon :: (qs ++ [.mark .rightBracket])) := by
    simp [SqlSyntax.brackets]
  have hhead (t : List Char) : ∀ x ∈ (charsOf (qs ++ [.mark .rightBracket]) ++ t).head?,
      x ≠ ':' ∧ x ≠ '=' := by
    rw [charsOf_append]
    intro x hx
    cases hchars : charsOf qs with
    | nil =>
      rw [hchars] at hx
      cases hx
      decide
    | cons c cs =>
      rw [hchars] at hx
      cases hx
      exact hcolon x (by rw [hchars]; rfl)
  have hcontent : Closes (ps ++ .mark .colon :: (qs ++ [.mark .rightBracket])) := by
    intro t ks hspells
    have hbehind := (begins_colon (hhead t)).spells (hqs.closes rfl t ks hspells)
    rw [charsOf_append, kindsOf_append, List.append_assoc, List.append_assoc]
    exact hps _ _ (partsOff_cons (x := ':') (by decide) _) hbehind
  rw [hbrackets]
  exact hcontent.cons rfl

/-! ### Names -/

theorem begins_name_of_isName {s : String} (h : IsName s) {t : List Char}
    (ht : ∀ x ∈ t.head?, Breaks x ∨ x = '.') : Begins .postgres (quoteName s).toList t (nameKind s) := by
  have hleaves : LeavesWord t := by
    intro x hx
    rcases ht x hx with hbreak | rfl
    · exact partsOff_cons hbreak [] |>.leavesWord x rfl
    · exact ⟨rfl, by decide, by decide⟩
  have hquote : t.head? ≠ some '"' := by
    intro heq
    rcases ht '"' heq with hbreak | hdot
    · exact absurd hbreak (by decide)
    · exact absurd hdot (by decide)
  exact begins_name h.1 h.2 (fun _ => hleaves.leavesName) fun _ => hquote

theorem beforeDot_name {s : String} (h : IsName s) : BeforeDot [.name s] := by
  intro t ks ht hspells
  have hname := (begins_name_of_isName h ht).spells hspells
  rwa [charsOf_cons, kindsOf_cons, charsOf_nil, kindsOf_nil, List.append_nil, List.append_nil]

theorem written_name {s : String} (h : IsName s) : Written [.name s] :=
  (beforeDot_name h).written

/-- The first character of the pieces is as `P` says. -/
def StartsWith (P : Char → Prop) (ps : List Piece) : Prop :=
  ∃ c cs, charsOf ps = c :: cs ∧ P c

theorem StartsWith.append {P : Char → Prop} (h : StartsWith P ps) (qs : List Piece) :
    StartsWith P (ps ++ qs) := by
  obtain ⟨c, cs, heq, hc⟩ := h
  refine ⟨c, cs ++ charsOf qs, ?_, hc⟩
  rw [charsOf_append, heq, List.cons_append]

theorem StartsWith.head {P : Char → Prop} (h : StartsWith P ps) (t : List Char) :
    ∀ x ∈ (charsOf ps ++ t).head?, P x := by
  obtain ⟨c, cs, heq, hc⟩ := h
  intro x hx
  rw [heq, List.cons_append] at hx
  cases hx
  exact hc

theorem startsWith_cons {P : Char → Prop} {c : Char} {cs : List Char} (htext : p.text.toList = c :: cs)
    (hc : P c) (ps : List Piece) : StartsWith P (p :: ps) :=
  ⟨c, cs ++ charsOf ps, by rw [charsOf_cons, htext, List.cons_append], hc⟩

/-- A character goes on with neither an operator nor a colon in front of it. -/
def Opens (c : Char) : Prop :=
  isOperatorChar c = false ∧ c ≠ ':'

instance : DecidablePred Opens :=
  fun c => inferInstanceAs (Decidable (isOperatorChar c = false ∧ c ≠ ':'))

/-- A written name starts with a letter, an underscore or a quote. -/
theorem startsWith_name (s : String) (ps : List Piece) :
    StartsWith (fun c => (c.isDigit = false ∧ c ≠ '.') ∧ Opens c) (.name s :: ps) := by
  obtain ⟨c, cs, htext, hc⟩ : ∃ c cs, (quoteName s).toList = c :: cs ∧
      (c.isDigit = false ∧ c ≠ '.') ∧ Opens c := by
    rw [quoteName, String.toList_ofList, Quoted.nameChars]
    by_cases hbare : Quoted.isBareName s.toList = true
    · rw [if_pos hbare]
      cases hs : s.toList with
      | nil =>
        rw [hs] at hbare
        cases hbare
      | cons c cs =>
        rw [hs] at hbare
        have hstart : Quoted.isBareStart c = true := by
          simp only [Quoted.isBareName, Bool.and_eq_true] at hbare
          exact hbare.1.1
        exact ⟨c, cs, rfl, forall_ascii (P := fun c => Quoted.isBareStart c = true →
          (c.isDigit = false ∧ c ≠ '.') ∧ Opens c) (by decide)
          (toNat_lt_of_isBareChar (isBareChar_of_isBareStart hstart)) hstart⟩
    · rw [if_neg hbare]
      exact ⟨'"', _, rfl, by decide⟩
  exact startsWith_cons (p := .name s) htext hc ps

theorem StartsWith.mono {P Q : Char → Prop} (h : StartsWith P ps) (hPQ : ∀ c, P c → Q c) :
    StartsWith Q ps := by
  obtain ⟨c, cs, heq, hc⟩ := h
  exact ⟨c, cs, heq, hPQ c hc⟩

/-- A name in front of a dot. -/
theorem written_name_cons {s : String} (h : IsName s) (hps : Written ps)
    (hdot : ∀ p ∈ ps.head?, p = .mark .dot) : Written (.name s :: ps) := by
  intro t ks ht hspells
  rw [charsOf_cons, kindsOf_cons, List.append_assoc, List.append_assoc]
  refine (begins_name_of_isName h fun x hx => ?_).spells (hps t ks ht hspells)
  cases ps with
  | nil => exact .inl (ht x hx)
  | cons p ps =>
    obtain rfl := hdot p rfl
    have htext : (Piece.mark .dot).text.toList = ['.'] := by decide
    rw [charsOf_cons, htext] at hx
    exact .inr (Option.some.inj hx).symm

/-- A dot in front of neither a digit nor another dot. -/
theorem written_dot (hps : Written ps)
    (hstart : StartsWith (fun c => c.isDigit = false ∧ c ≠ '.') ps) : Written (.mark .dot :: ps) := by
  intro t ks ht hspells
  rw [charsOf_cons, kindsOf_cons, List.append_assoc, List.append_assoc]
  exact (begins_dot (hstart.head t)).spells (hps t ks ht hspells)

theorem beforeDot_star : BeforeDot [.mark .star] := by
  intro t ks ht hspells
  refine (begins_operatorChar (c := '*') rfl fun x hx => ?_).spells hspells
  rcases ht x hx with hbreak | rfl
  · exact hbreak.not_operatorChar
  · rfl

theorem written_star : Written [.mark .star] :=
  beforeDot_star.written

/-- A dot in front of a name or a star is read back, and what follows may be a dot. -/
theorem BeforeDot.dot (h : BeforeDot ps)
    (hstart : StartsWith (fun c => c.isDigit = false ∧ c ≠ '.') ps) : BeforeDot (.mark .dot :: ps) := by
  intro t ks ht hspells
  rw [charsOf_cons, kindsOf_cons, List.append_assoc, List.append_assoc]
  exact (begins_dot (hstart.head t)).spells (h t ks ht hspells)

/-- The names behind the first of a dotted name, and a star behind them. -/
theorem written_dots {names : List String} (h : ∀ s ∈ names, IsName s) {star : List Piece}
    (hstar : star = [] ∨ star = [.mark .dot, .mark .star]) :
    Written (dotPieces names star) ∧ ∀ p ∈ (dotPieces names star).head?, p = .mark .dot := by
  induction names with
  | nil =>
    rcases hstar with rfl | rfl
    · exact ⟨written_nil, nofun⟩
    · refine ⟨written_dot written_star ⟨'*', [], rfl, by decide⟩, fun p hp => ?_⟩
      cases hp
      rfl
  | cons s names ih =>
    rw [List.forall_mem_cons] at h
    obtain ⟨hwritten, hdot⟩ := ih h.2
    refine ⟨written_dot (written_name_cons h.1 hwritten hdot) ?_, fun p hp => ?_⟩
    · exact (startsWith_name s _).mono fun c hc => hc.1
    · cases hp
      rfl

/-- A dotted name is read back. -/
theorem written_dotted {names : List String} (h : ∀ s ∈ names, IsName s) :
    Written (dotted names) := by
  cases names with
  | nil => exact written_nil
  | cons s names =>
    rw [List.forall_mem_cons] at h
    obtain ⟨hwritten, hdot⟩ := written_dots h.2 (.inl rfl)
    rw [dotted_cons]
    exact written_name_cons h.1 hwritten hdot

/-! ### Signs and literals -/

/-- A sign in front of what starts with no operator. -/
theorem written_sign {op : String} (hop : Level.isSignOperator op = true) (hps : Written ps)
    (hstart : StartsWith Opens ps) : Written (.operator op :: ps) := by
  intro t ks ht hspells
  rw [charsOf_cons, kindsOf_cons, List.append_assoc, List.append_assoc]
  have hhead : ∀ x ∈ (charsOf ps ++ t).head?, isOperatorChar x = false :=
    fun x hx => (hstart.head t x hx).1
  have hsign : op = "-" ∨ op = "+" := by
    rwa [Level.isSignOperator, Bool.or_eq_true, beq_iff_eq, beq_iff_eq] at hop
  rcases hsign with rfl | rfl
  · exact (begins_operatorChar (c := '-') rfl hhead).spells (hps t ks ht hspells)
  · exact (begins_operatorChar (c := '+') rfl hhead).spells (hps t ks ht hspells)

theorem startsColon_operatorKind (op : String) : (operatorKind op).startsColon = false := by
  unfold operatorKind
  split <;> rfl

theorem written_operator {op : String} (h : IsOperator op) : Written [.operator op] :=
  written_token rfl (startsColon_operatorKind op) (isToken_operator h)

/-- A number with a minus sign is read back as both. -/
theorem written_negative {v : Literal} {cs : List Char} {k : TokenKind}
    (htext : v.text.toList = '-' :: cs) (hkinds : literalKinds v = [.minus, k])
    (hcolon : k.startsColon = false) (hnumber : IsToken .postgres cs k)
    (hhead : ∀ x ∈ cs.head?, Opens x) (hne : cs ≠ []) : Written [.literal v] := by
  intro t ks ht hspells
  have hrest : Spells .postgres (cs ++ t) (k :: ks) :=
    (hnumber.begins (fun _ => hcolon) ht).spells hspells
  have hhead : ∀ x ∈ (cs ++ t).head?, isOperatorChar x = false := by
    cases cs with
    | nil => exact absurd rfl hne
    | cons c cs => exact fun x hx => (hhead x hx).1
  have hboth := (begins_operatorChar (d := .postgres) (c := '-') rfl hhead).spells hrest
  have hchars : charsOf [.literal v] = '-' :: cs := by
    rw [charsOf_cons, charsOf_nil, List.append_nil]
    exact htext
  have hkinds : kindsOf [.literal v] = [.minus, k] := by
    rw [kindsOf_cons, kindsOf_nil, List.append_nil]
    exact hkinds
  rw [hchars, hkinds]
  exact hboth

theorem opens_of_isDigit {c : Char} (h : c.isDigit = true) : Opens c :=
  of_isDigit (P := Opens) (by decide) h

theorem IsFloat.head {cs : List Char} (h : IsFloat cs) : cs ≠ [] ∧ ∀ x ∈ cs.head?, Opens x := by
  cases cs with
  | nil => rcases h.1 with hhead | ⟨hhead, -⟩ <;> cases hhead
  | cons c cs =>
    refine ⟨List.cons_ne_nil c cs, fun x hx => ?_⟩
    cases hx
    rcases h.1 with hc | ⟨hc, -⟩
    · exact opens_of_isDigit hc
    · cases hc
      decide

/-- The text of a negative integer. -/
theorem toList_toString_neg (m : Nat) (hm : 0 < m) :
    (toString (-(m : Int))).toList = '-' :: Nat.toDigits 10 m := by
  rw [Int.toString_eq_repr, Int.repr_eq_if, if_neg (by omega), Int.neg_neg, Int.toNat_natCast,
    String.toList_append, Nat.toList_repr]
  rfl

theorem startsColon_integerKind (n : Int) : (integerKind n).startsColon = false := by
  unfold integerKind
  split <;> rfl

theorem isToken_integerKind {d : Dialect} {n : Int} (hn : 0 ≤ n) (hrange : Int4.inRange (-n) = true) :
    IsToken d (toString n).toList (integerKind n) := by
  unfold integerKind
  by_cases hin : Int4.inRange n = true
  · rw [if_pos hin]
    exact isToken_integer ⟨hn, hin⟩
  · -- only the opposite of the least integer is out of range
    have hleast : n = 2147483648 := by
      rw [Int4.inRange_iff] at hin hrange
      omega
    subst hleast
    have hfloat : IsFloat "2147483648".toList := ⟨.inl rfl, by decide, .inr (by decide)⟩
    rw [if_neg hin]
    exact isToken_float hfloat

/-- The text of a bit string in binary digits. -/
theorem toList_text_binary (cs : List Char) :
    (Literal.bits (String.ofList ('b' :: cs))).text.toList = 'B' :: '\'' :: (cs ++ ['\'']) := by
  rw [Literal.text, Literal.bitsText, String.toList_ofList]
  simp only [String.toList_append, String.toList_ofList, String.reduceToList, List.cons_append,
    List.nil_append]

/-- The text of a bit string in hexadecimal digits. -/
theorem toList_text_hex (cs : List Char) :
    (Literal.bits (String.ofList ('x' :: cs))).text.toList = 'X' :: '\'' :: (cs ++ ['\'']) := by
  rw [Literal.text, Literal.bitsText, String.toList_ofList]
  simp only [String.toList_append, String.toList_ofList, String.reduceToList, List.cons_append,
    List.nil_append]

/-- A literal is read back. -/
theorem written_literal {v : Literal} (h : v.IsRead) : Written [.literal v] := by
  cases h with
  | string s => exact written_token rfl rfl (isToken_quoteString s)
  | @integer n hrange =>
    by_cases hneg : n < 0
    · obtain ⟨m, rfl⟩ : ∃ m : Nat, n = -(m : Int) := ⟨n.natAbs, by omega⟩
      have hm : 0 < m := by omega
      have hkinds : literalKinds (.integer (-(m : Int))) = [.minus, integerKind m] := by
        rw [literalKinds, if_pos hneg, Int.neg_neg]
      have hnumber : IsToken .postgres _ _ := isToken_integerKind (Int.natCast_nonneg m) hrange
      rw [toList_toString_nat] at hnumber
      refine written_negative (toList_toString_neg m hm) hkinds (startsColon_integerKind m) hnumber
        (fun x hx => ?_) Nat.toDigits_ne_nil
      have hdigit := isDigit_toDigits m x (List.mem_of_mem_head? hx)
      exact opens_of_isDigit hdigit
    · have hkinds : literalKinds (.integer n) = [.integer n] := by
        rw [literalKinds, if_neg hneg, integerKind, if_pos hrange]
      exact written_token hkinds rfl (isToken_integer ⟨by omega, hrange⟩)
  | @float cs hcs =>
    have hkinds : literalKinds (.float (String.ofList cs)) = [.float (String.ofList cs)] := by
      rw [literalKinds, String.toList_ofList]
      split
      · exact absurd rfl hcs.ne_minus
      · rfl
    refine written_token hkinds rfl ?_
    show IsToken _ (String.ofList cs).toList _
    rw [String.toList_ofList]
    exact isToken_float hcs
  | @negative cs hcs _ =>
    have hkinds : literalKinds (.float (String.ofList ('-' :: cs)))
        = [.minus, .float (String.ofList cs)] := by
      rw [literalKinds, String.toList_ofList]
      rfl
    exact written_negative String.toList_ofList hkinds rfl (isToken_float hcs) hcs.head.2 hcs.head.1
  | boolean b =>
    cases b with
    | true => exact written_token rfl rfl (isToken_keyword .TRUE).1
    | false => exact written_token rfl rfl (isToken_keyword .FALSE).1
  | @binary cs hcs =>
    have hkinds : literalKinds (.bits (String.ofList ('b' :: cs))) = [.binary (String.ofList cs)] := by
      rw [literalKinds, bitsKind, String.toList_ofList]
      rfl
    refine written_token hkinds rfl ?_
    show IsToken _ (Literal.bits _).text.toList _
    rw [toList_text_binary]
    exact isToken_binary hcs
  | @hex cs hcs =>
    have hkinds : literalKinds (.bits (String.ofList ('x' :: cs))) = [.hex (String.ofList cs)] := by
      rw [literalKinds, bitsKind, String.toList_ofList]
      rfl
    refine written_token hkinds rfl ?_
    show IsToken _ (Literal.bits _).text.toList _
    rw [toList_text_hex]
    exact isToken_hex hcs
  | null => exact written_token rfl rfl (isToken_keyword .NULL).1

/-- A literal starts with no operator, unless it has a minus sign. -/
theorem startsWith_literal {v : Literal} (h : v.IsRead) (ps : List Piece) :
    StartsWith (fun c => Opens c ∨ v.isNegative = true ∧ c = '-') (.literal v :: ps) := by
  obtain ⟨c, cs, htext, hc⟩ : ∃ c cs, v.text.toList = c :: cs ∧
      (Opens c ∨ v.isNegative = true ∧ c = '-') := by
    cases h with
    | string s =>
      rw [Literal.text, quoteString, String.toList_ofList]
      unfold Quoted.stringChars
      split
      · exact ⟨'E', _, rfl, .inl (by decide)⟩
      · exact ⟨'\'', _, rfl, .inl (by decide)⟩
    | @integer n _ =>
      by_cases hneg : n < 0
      · obtain ⟨m, rfl⟩ : ∃ m : Nat, n = -(m : Int) := ⟨n.natAbs, by omega⟩
        exact ⟨'-', _, toList_toString_neg m (by omega), .inr ⟨decide_eq_true hneg, rfl⟩⟩
      · obtain ⟨m, rfl⟩ : ∃ m : Nat, n = m := ⟨n.toNat, by omega⟩
        obtain ⟨c, cs, hdigits⟩ := List.exists_cons_of_ne_nil (Nat.toDigits_ne_nil (b := 10) (n := m))
        refine ⟨c, cs, (toList_toString_nat m).trans hdigits, .inl (opens_of_isDigit ?_)⟩
        exact isDigit_toDigits m c (hdigits ▸ List.mem_cons_self)
    | @float cs hcs =>
      obtain ⟨c, cs, rfl⟩ := List.exists_cons_of_ne_nil hcs.head.1
      exact ⟨c, cs, String.toList_ofList, .inl (hcs.head.2 c rfl)⟩
    | @negative cs _ _ =>
      refine ⟨'-', cs, String.toList_ofList, .inr ⟨?_, rfl⟩⟩
      rw [Literal.isNegative, String.toList_ofList]
      rfl
    | boolean b => cases b <;> exact ⟨_, _, rfl, .inl (by decide)⟩
    | binary _ => exact ⟨'B', _, toList_text_binary _, .inl (by decide)⟩
    | hex _ => exact ⟨'X', _, toList_text_hex _, .inl (by decide)⟩
    | null => exact ⟨'N', _, rfl, .inl (by decide)⟩
  exact startsWith_cons (p := .literal v) htext hc ps

/-- A keyword starts with a letter. -/
theorem startsWith_word (w : Keyword) (ps : List Piece) :
    StartsWith Opens (.word w :: ps) := by
  obtain ⟨hstart, -, -⟩ := w.spelling_isWord
  cases hspelling : w.spelling.toList with
  | nil =>
    rw [hspelling] at hstart
    cases hstart
  | cons c cs =>
    rw [hspelling] at hstart
    have htext : (Piece.word w).text.toList = c.toUpper :: cs.map Char.toUpper := by
      rw [Piece.text, w.toList_text, hspelling, List.map_cons]
    refine startsWith_cons htext ?_ ps
    exact forall_ascii (P := fun c => Quoted.isBareStart c = true → Opens c.toUpper) (by decide)
      (toNat_lt_of_isBareChar (isBareChar_of_isBareStart hstart)) hstart

theorem toList_text_param (n : Int) :
    (Piece.mark (.param n)).text.toList = '$' :: (toString n).toList := by
  show ("$" ++ toString n).toList = _
  rw [String.toList_append]
  rfl

theorem beforeDot_param {n : Int} (h : IsNatural n) : BeforeDot [.mark (.param n)] := by
  intro t ks ht hspells
  have hparam := (begins_param h fun x hx => ?_).spells hspells
  · rwa [charsOf_cons, kindsOf_cons, charsOf_nil, kindsOf_nil, List.append_nil, List.append_nil,
      toList_text_param]
  · rcases ht x hx with hbreak | rfl
    · exact hbreak.not_namePart
    · rfl

theorem written_integer {n : Int} (h : IsNatural n) : Written [.mark (.integer n)] :=
  written_token rfl rfl (isToken_integer h)

end SqlSyntax
