import SqlSyntax.Proofs.Expression.Lead
import SqlSyntax.Proofs.Expression.Plain

/-!
# Reading types back

A type is written with the words of the system where it has some, and with its
dotted name otherwise; its modifiers are expressions.  Types are read back where a
closing parenthesis follows, as it does in a cast.

## Main results

* `reads_optionalModifiers`, `reads_dimensions` — what stands behind the name of a type.
* `reads_plainType` — a type without its dimensions is read back.
* `reads_typeName` — **a type is read back.**
-/

namespace SqlSyntax

open Grammar

variable {depth : Nat} {rest : List TokenKind} {modifiers : List Node} {names : List String}

/-! ### Tokens -/

/-- The tokens of the modifiers of a type. -/
def modifierKinds (modifiers : List Node) : List TokenKind :=
  if modifiers.isEmpty then []
  else .leftParen :: (commaKinds (modifiers.map Node.kinds) ++ [.rightParen])

theorem kindsOf_modifierPieces (modifiers : List Node) :
    kindsOf (modifierPieces (nodesPieces modifiers)) = modifierKinds modifiers := by
  unfold modifierPieces modifierKinds
  cases modifiers with
  | nil => rfl
  | cons n modifiers =>
    rw [← kindsOf_commas_nodesPieces]
    simp [nodesPieces]

/-- The tokens of a dimension. -/
def boundKinds (b : Int) : List TokenKind :=
  .leftBracket :: ((if b < 0 then [] else [.integer b]) ++ [.rightBracket])

theorem kindsOf_boundPieces (bounds : List Int) :
    kindsOf (boundPieces bounds) = bounds.flatMap boundKinds := by
  induction bounds with
  | nil => rfl
  | cons b bounds ih =>
    rw [boundPieces, List.flatMap_cons, kindsOf_append, ← boundPieces, ih, List.flatMap_cons]
    congr 1
    split <;> simp [boundKinds, *]

namespace Grammar

open SqlSyntax.Parser (bind_eq Steps)

/-! ### Modifiers and dimensions -/

theorem reads_optionalModifiers (h : ∀ n ∈ modifiers, n.Leads)
    (hparen : firstOf (settle rest) ≠ .leftParen) :
    optionalModifiers.Reads depth (settle (modifierKinds modifiers ++ rest)) modifiers
      (settle rest) := by
  unfold modifierKinds
  cases modifiers with
  | nil => simp [optionalModifiers, hparen]
  | cons n modifiers =>
    have hread : Parser.Reads depth _ _ _ _ := reads_expressions (List.cons_ne_nil n modifiers) h
      (follows_rightParen rest) (by simp [TokenKind.before])
    simp only [List.isEmpty_cons, Bool.false_eq_true, if_false, List.cons_append, List.append_assoc,
      List.nil_append]
    rw [settle_cons, before_eq rfl]
    simp only [optionalModifiers, bind_eq, reads_isAt_bind, firstOf_cons, decide_true, if_true]
    exact reads_parenthesized hread

/-- The dimensions of a type are read one after the other. -/
theorem reads_dimensions {bounds : List Int} (hbounds : ∀ b ∈ bounds, b = -1 ∨ 0 ≤ b)
    (harray : firstOf (settle rest) ≠ .keyword .ARRAY)
    (hbracket : firstOf (settle rest) ≠ .leftBracket) :
    dimensions.Reads depth (settle (bounds.flatMap boundKinds ++ rest)) bounds (settle rest) := by
  have hsteps : ∀ found : List Int, Steps (Rule.Reads depth) moreDimensions found.reverse
      (settle (bounds.flatMap boundKinds ++ rest)) (found ++ bounds).reverse (settle rest) := by
    intro found
    induction bounds generalizing found with
    | nil =>
      rw [List.append_nil]
      exact .last (by simp [moreDimensions, hbracket])
    | cons b bounds ih =>
      have ih := ih (fun b hb => hbounds b (List.mem_cons_of_mem _ hb)) (found ++ [b])
      rw [List.append_assoc, List.singleton_append, List.reverse_append] at ih
      refine .more (t := b :: found.reverse) ?_ ?_ ih
      · rw [List.flatMap_cons, List.append_assoc]
        rcases hbounds b List.mem_cons_self with rfl | hb
        · simp [boundKinds, moreDimensions, dimension, TokenKind.before]
        · have hneg : ¬ b < 0 := by omega
          simp [boundKinds, moreDimensions, dimension, TokenKind.before, hneg, integer]
      · simp only [length_settle, List.flatMap_cons, List.length_append, boundKinds, List.length_cons]
        omega
  have hfirst : firstOf (settle (bounds.flatMap boundKinds ++ rest)) ≠ .keyword .ARRAY := by
    cases bounds with
    | nil => exact harray
    | cons b bounds => simp [boundKinds, TokenKind.before]
  simp only [dimensions, bind_eq, reads_acceptWord_bind, hfirst, if_false, Bool.false_eq_true]
  refine Parser.readsWith_bind (hsteps []).reads ?_
  simp

/-! ### Types with a name -/

/-- What stands behind a type without its dimensions: a dimension, or the end of the
cast. -/
def EndsType (ts : List TokenKind) : Prop :=
  ∃ ts', ts = .rightParen :: ts' ∨ ts = .leftBracket :: ts'

theorem EndsType.firstOf_settle (h : EndsType rest) :
    firstOf (settle rest) = .rightParen ∨ firstOf (settle rest) = .leftBracket := by
  obtain ⟨ts, rfl | rfl⟩ := h <;> simp [TokenKind.before]

theorem EndsType.ne (h : EndsType rest) {k : TokenKind} (hparen : k ≠ .rightParen)
    (hbracket : k ≠ .leftBracket) : firstOf (settle rest) ≠ k := by
  rcases h.firstOf_settle with h | h <;> rw [h]
  · exact hparen.symm
  · exact hbracket.symm

theorem EndsType.isNeutral (h : EndsType rest) : (firstOf rest).isNeutral = true := by
  obtain ⟨ts, rfl | rfl⟩ := h <;> rfl

/-- What stands behind the name of a type: its modifiers, or what stands behind them. -/
theorem firstOf_modifierKinds (modifiers : List Node) (h : EndsType rest) :
    EndsType (modifierKinds modifiers ++ rest)
      ∨ ∃ ts, modifierKinds modifiers ++ rest = .leftParen :: ts := by
  unfold modifierKinds
  split
  · exact .inl h
  · exact .inr ⟨_, rfl⟩

theorem typeOfWord_eq {w : Keyword} (h : w.category = .unreserved) (hdouble : w ≠ .DOUBLE) :
    typeOfWord w = namedType := by
  unfold typeOfWord
  split
  · next hword =>
    unfold wordType? at hword
    split at hword <;> first | exact absurd h (by decide) | cases hword
  all_goals first | rfl | exact absurd h (by decide) | exact absurd rfl hdouble

theorem reads_namedType (hne : names ≠ []) (h : ∀ n ∈ modifiers, n.Leads) (hends : EndsType rest) :
    namedType.Reads depth (settle (dottedKinds names ++ (modifierKinds modifiers ++ rest)))
      { names := names, modifiers := modifiers } (settle rest) := by
  have hmodifiers : Parser.Reads depth _ _ _ _ :=
    reads_optionalModifiers h (hends.ne (k := .leftParen) nofun nofun)
  have hnext := firstOf_modifierKinds modifiers hends
  generalize modifierKinds modifiers ++ rest = ts at hmodifiers hnext ⊢
  have hneutral : (firstOf ts).isNeutral = true := by
    rcases hnext with hends | ⟨ts, rfl⟩
    · exact hends.isNeutral
    · rfl
  have hdot : firstOf (settle ts) ≠ .dot := by
    rcases hnext with hends | ⟨ts, rfl⟩
    · exact hends.ne (by simp) (by simp)
    · simp [TokenKind.before]
  cases names with
  | nil => exact absurd rfl hne
  | cons s names =>
    refine Parser.readsWith_bind (reads_callName (isNeutral_labels names hneutral)) ?_
    refine Parser.readsWith_bind (reads_labelsAfter [s] names hneutral hdot) ?_
    exact Parser.readsWith_bind hmodifiers ⟨rfl, rfl⟩

/-- A type that has no words of its own is read back from its dotted name. -/
theorem reads_plainType_named (hne : names ≠ []) (h : ∀ n ∈ modifiers, n.Leads)
    (hends : EndsType rest) :
    plainType.Reads depth (settle (dottedKinds names ++ (modifierKinds modifiers ++ rest)))
      { names := names, modifiers := modifiers } (settle rest) := by
  have hread : Parser.Reads depth _ _ _ _ := reads_namedType hne h hends
  have hnext := firstOf_modifierKinds modifiers hends
  generalize modifierKinds modifiers ++ rest = ts at hread hnext ⊢
  cases names with
  | nil => exact absurd rfl hne
  | cons s names =>
    have hsecond : firstOf (settle (names.flatMap (fun s => [.dot, nameKind s]) ++ ts))
        ≠ .keyword .PRECISION := by
      cases names with
      | nil =>
        rcases hnext with hends | ⟨ts, rfl⟩
        · exact hends.ne (by simp) (by simp)
        · simp [TokenKind.before]
      | cons s names => simp [TokenKind.before]
    have hneutral : (firstOf (names.flatMap (fun s => [.dot, nameKind s]) ++ ts)).isNeutral = true := by
      cases names with
      | nil =>
        rcases hnext with hends | ⟨ts, rfl⟩
        · exact hends.isNeutral
        · rfl
      | cons s names => rfl
    rw [dottedKinds, List.cons_append, settle_cons, before_nameKind hneutral] at hread ⊢
    simp only [plainType, bind_eq, reads_kind_bind, firstOf_cons]
    obtain hs | ⟨w, hs, hw, -⟩ := nameKind_cases s <;> rw [hs] at hread ⊢
    · exact hread
    · simp only [TokenKind.keyword?]
      by_cases hdouble : w = .DOUBLE
      · subst hdouble
        simpa [typeOfWord, wordType?, hsecond] using hread
      · rw [typeOfWord_eq hw hdouble]
        exact hread

/-! ### Intervals -/

theorem ofWord?_word (f : IntervalField) : IntervalField.ofWord? f.word = some f := by
  cases f <;> rfl

theorem mem_all_of_ofMask? {mask : Int} {r : IntervalRange}
    (h : IntervalRange.ofMask? mask = some r) : r ∈ IntervalRange.all ∧ r.mask = mask := by
  refine ⟨List.mem_of_find?_eq_some h, ?_⟩
  simpa using List.find?_some h

/-- The ranges are told apart by their ends, and seconds start none but their own. -/
theorem between?_of_mem_all : ∀ r ∈ IntervalRange.all,
    (r.more ≠ [] → IntervalRange.between? r.first r.last = some r ∧ r.first ≠ .second)
      ∧ (r.more = [] → r = ⟨r.first, []⟩) := by
  decide

/-- What stands behind the words of a range: the precision of its seconds. -/
def precisionKinds (precision : Option Int) : List TokenKind :=
  precision.elim [] fun p => [.leftParen, .integer p, .rightParen]

theorem reads_optionalPrecision {r : IntervalRange} {precision : Option Int}
    (hlast : precision.isSome → r.last = .second) (hends : EndsType rest) :
    (optionalPrecision r).Reads depth (settle (precisionKinds precision ++ rest))
      (precision.toList.map Node.integer) (settle rest) := by
  have hparen : firstOf (settle rest) ≠ .leftParen := hends.ne (by simp) (by simp)
  unfold optionalPrecision precisionKinds
  cases precision with
  | none =>
    split
    · simp [hparen]
    · exact ⟨rfl, rfl⟩
  | some p =>
    rw [if_pos (hlast rfl)]
    simp [TokenKind.before, parenthesized, integer]

theorem settle_fieldWord (f : IntervalField) (ts : List TokenKind) :
    settle (.keyword f.word :: ts) = .keyword f.word :: settle ts := by
  cases f <;> simp [IntervalField.word]

theorem settle_range (r : IntervalRange) (ts : List TokenKind) :
    ∃ ks, settle (r.words.map .keyword ++ ts) = .keyword r.first.word :: ks := by
  unfold IntervalRange.words
  split <;> exact ⟨_, settle_fieldWord _ _⟩

/-- The fields of an interval are read back. -/
theorem reads_intervalModifiers {r : IntervalRange} (hr : r ∈ IntervalRange.all)
    {precision : Option Int} (hlast : precision.isSome → r.last = .second) (hends : EndsType rest) :
    intervalModifiers.Reads depth
      (settle (r.words.map .keyword ++ (precisionKinds precision ++ rest)))
      (Node.integer r.mask :: precision.toList.map Node.integer) (settle rest) := by
  have hprecision : Parser.Reads depth _ _ _ _ := reads_optionalPrecision hlast hends
  have hto : firstOf (settle (precisionKinds precision ++ rest)) ≠ .keyword .TO := by
    unfold precisionKinds
    cases precision with
    | none => exact hends.ne (by simp) (by simp)
    | some p => simp [TokenKind.before]
  generalize precisionKinds precision ++ rest = ts at hprecision hto ⊢
  obtain ⟨hmore, hsingle⟩ := between?_of_mem_all r hr
  have hrange : (intervalRange r.first).Reads depth (settle (r.words.map .keyword ++ ts)).tail r
      (settle ts) := by
    unfold IntervalRange.words intervalRange
    by_cases hempty : r.more = []
    · have hr' := (hsingle hempty).symm
      simp only [hempty, List.isEmpty_nil, if_true, List.map_cons, List.map_nil, List.cons_append,
        List.nil_append, settle_fieldWord, List.tail_cons]
      split
      · exact ⟨hr', rfl⟩
      · simp [hto, hr']
    · obtain ⟨hbetween, hsecond⟩ := hmore hempty
      simp only [List.isEmpty_iff, hempty, if_false, hsecond, List.map_cons, List.map_nil,
        List.cons_append, List.nil_append, settle_fieldWord, List.tail_cons]
      rw [settle_cons, before_eq rfl, settle_fieldWord]
      simp [rangeEnd, TokenKind.keyword?, ofWord?_word, hbetween]
  obtain ⟨ks, hks⟩ := settle_range r ts
  rw [hks] at hrange ⊢
  simp only [intervalModifiers, bind_eq, reads_kind_bind, firstOf_cons, TokenKind.keyword?,
    Option.bind_some, ofWord?_word, reads_skip_bind, List.tail_cons]
  refine Parser.readsWith_bind hrange ?_
  exact Parser.readsWith_bind hprecision ⟨rfl, rfl⟩

theorem eq_map_integer {ns : List Node} {values : List Int} (h : ns.mapM integerOf? = some values) :
    ns = values.map Node.integer := by
  induction ns generalizing values with
  | nil =>
    cases h
    rfl
  | cons n ns ih =>
    rw [List.mapM_cons] at h
    obtain ⟨v, hv, h⟩ := Option.bind_eq_some_iff.mp h
    obtain ⟨vs, hvs, h⟩ := Option.bind_eq_some_iff.mp h
    cases h
    have hn : n = Node.integer v := by
      unfold integerOf? at hv
      split at hv
      · cases hv
        rfl
      · cases hv
    rw [hn, ih hvs, List.map_cons]

theorem kindsOf_range (r : IntervalRange) : kindsOf r.pieces = r.words.map .keyword :=
  kindsOf_typeWords r.words

/-- The modifiers of an interval as they are written: a precision, or a range of
fields. -/
theorem kindsOf_intervalPieces {values : List Int} (h : isSpokenInterval (some values) = true)
    (modifiers : List (List Piece)) (hmodifiers : values = [] → modifiers = []) :
    values = [] ∧ kindsOf (intervalPieces (some values) modifiers) = []
    ∨ (∃ p, values = [IntervalRange.fullMask, p]
      ∧ kindsOf (intervalPieces (some values) modifiers) = precisionKinds (some p))
    ∨ ∃ r ∈ IntervalRange.all, ∃ precision : Option Int, (precision.isSome → r.last = .second)
      ∧ values = r.mask :: precision.toList
      ∧ kindsOf (intervalPieces (some values) modifiers)
        = r.words.map .keyword ++ precisionKinds precision := by
  unfold isSpokenInterval at h
  split at h
  · next heq =>
    cases heq
    rw [hmodifiers rfl]
    exact .inl ⟨rfl, rfl⟩
  · next mask heq =>
    cases heq
    obtain ⟨r, hr⟩ := Option.isSome_iff_exists.mp h
    obtain ⟨hmem, hmask⟩ := mem_all_of_ofMask? hr
    refine .inr (.inr ⟨r, hmem, none, nofun, by rw [← hmask]; rfl, ?_⟩)
    have hpieces : intervalPieces (some [mask]) modifiers = .gap :: r.pieces := by
      unfold intervalPieces
      simp only [hr]
    simp [hpieces, precisionKinds, kindsOf_range]
  · next mask p heq =>
    cases heq
    by_cases hfull : mask = IntervalRange.fullMask
    · subst hfull
      exact .inr (.inl ⟨p, rfl, by simp [intervalPieces, precisionKinds]⟩)
    · have hfull : (mask == IntervalRange.fullMask) = false := by simpa using hfull
      simp only [hfull, Bool.false_or, Bool.and_eq_true, Option.any_eq_true] at h
      obtain ⟨-, r, hr, hlast⟩ := h
      obtain ⟨hmem, hmask⟩ := mem_all_of_ofMask? hr
      have hlast : r.last = .second := by simpa using hlast
      refine .inr (.inr ⟨r, hmem, some p, fun _ => hlast, by rw [← hmask]; rfl, ?_⟩)
      have hpieces : intervalPieces (some [mask, p]) modifiers
          = .gap :: r.pieces ++ parens [.mark (.integer p)] := by
        unfold intervalPieces
        simp only [hfull, hr, if_pos hlast]
      simp [hpieces, precisionKinds, kindsOf_range]
  · cases h

/-- An interval is read back. -/
theorem reads_interval (hspoken : isSpokenInterval (modifiers.mapM integerOf?) = true)
    (hends : EndsType rest) :
    plainType.Reads depth
      (settle (.keyword .INTERVAL :: (kindsOf (intervalPieces (modifiers.mapM integerOf?)
        (nodesPieces modifiers)) ++ rest)))
      { names := systemName "interval", modifiers := modifiers } (settle rest) := by
  obtain ⟨values, hvalues⟩ : ∃ values, modifiers.mapM integerOf? = some values := by
    cases h : modifiers.mapM integerOf? with
    | none =>
      rw [h] at hspoken
      cases hspoken
    | some values => exact ⟨values, rfl⟩
  rw [hvalues] at hspoken ⊢
  have hmodifiers := eq_map_integer hvalues
  have hparen : firstOf (settle rest) ≠ .leftParen := hends.ne (by simp) (by simp)
  rw [settle_cons, before_eq rfl]
  change (intervalType.Reads depth _ _ _)
  rcases kindsOf_intervalPieces hspoken (nodesPieces modifiers) (by rintro rfl; rw [hmodifiers]; rfl)
    with ⟨rfl, hkinds⟩ | ⟨p, rfl, hkinds⟩ | ⟨r, hr, precision, hlast, rfl, hkinds⟩ <;>
    rw [hkinds, hmodifiers]
  · have hword : (firstOf (settle rest)).keyword?.bind IntervalField.ofWord? = none := by
      rcases hends.firstOf_settle with h | h <;> rw [h] <;> rfl
    simp [intervalType, hparen, intervalModifiers, hword, TypeName.system, TypeName.named]
  · simp [precisionKinds, intervalType, TokenKind.before, parenthesized, integer, TypeName.system,
      TypeName.named]
  · have hread : Parser.Reads depth _ _ _ _ := reads_intervalModifiers hr hlast hends
    have hword : firstOf (settle (r.words.map .keyword ++ (precisionKinds precision ++ rest)))
        ≠ .leftParen := by
      obtain ⟨ks, hks⟩ := settle_range r (precisionKinds precision ++ rest)
      rw [hks]
      simp
    rw [List.append_assoc]
    simp only [intervalType, bind_eq, reads_isAt_bind, List.tail_cons, hword, decide_false,
      Bool.false_eq_true, if_false]
    exact Parser.readsWith_bind hread ⟨rfl, rfl⟩

/-! ### Types with words of their own -/

theorem reads_modifiedType (name : String) (h : ∀ n ∈ modifiers, n.Leads) (hends : EndsType rest) :
    (modifiedType name).Reads depth (settle (modifierKinds modifiers ++ rest))
      { names := systemName name, modifiers := modifiers } (settle rest) :=
  Parser.readsWith_bind (reads_optionalModifiers h (hends.ne (by simp) (by simp))) ⟨rfl, rfl⟩

/-- A type of strings of a fixed length. -/
theorem reads_stringType (fixed varying : String) (hne : modifiers ≠ []) (h : ∀ n ∈ modifiers, n.Leads)
    (hends : EndsType rest) :
    (stringType fixed varying).Reads depth (settle (modifierKinds modifiers ++ rest))
      { names := systemName fixed, modifiers := modifiers } (settle rest) := by
  have hread : Parser.Reads depth _ _ _ _ :=
    reads_optionalModifiers h (hends.ne (k := .leftParen) nofun nofun)
  have hvarying : firstOf (settle (modifierKinds modifiers ++ rest)) ≠ .keyword .VARYING := by
    rcases firstOf_modifierKinds modifiers hends with hends | ⟨ts, hts⟩
    · exact hends.ne (by simp) (by simp)
    · simp [hts, TokenKind.before]
  simp only [stringType, bind_eq, reads_acceptWord_bind, hvarying, if_false, Bool.false_eq_true,
    fixedLengthType]
  exact Parser.readsWith_bind hread (by simp [hne, TypeName.system, TypeName.named])

/-- A type of strings of any length. -/
theorem reads_stringType_varying (fixed varying : String) (h : ∀ n ∈ modifiers, n.Leads)
    (hends : EndsType rest) :
    (stringType fixed varying).Reads depth
      (settle (.keyword .VARYING :: (modifierKinds modifiers ++ rest)))
      { names := systemName varying, modifiers := modifiers } (settle rest) := by
  rw [settle_cons, before_eq rfl]
  simp only [stringType, bind_eq, reads_acceptWord_bind, firstOf_cons, if_true, List.tail_cons]
  exact reads_modifiedType varying h hends

/-- A type of times without a zone. -/
theorem reads_timeType (plain zoned : String) (h : ∀ n ∈ modifiers, n.Leads) (hends : EndsType rest) :
    (timeType plain zoned).Reads depth (settle (modifierKinds modifiers ++ rest))
      { names := systemName plain, modifiers := modifiers } (settle rest) := by
  refine Parser.readsWith_bind (reads_optionalModifiers h (hends.ne (by simp) (by simp))) ?_
  rcases hends.firstOf_settle with hfirst | hfirst <;>
    simp [optionalZone, hfirst, TypeName.system, TypeName.named]

/-- A type of times with a zone. -/
theorem reads_timeType_zoned (plain zoned : String) (h : ∀ n ∈ modifiers, n.Leads) :
    (timeType plain zoned).Reads depth (settle (modifierKinds modifiers
        ++ .keyword .WITH :: .keyword .TIME :: .keyword .ZONE :: rest))
      { names := systemName zoned, modifiers := modifiers } (settle rest) := by
  have hzone : settle (.keyword .WITH :: .keyword .TIME :: .keyword .ZONE :: rest)
      = .withAhead :: .keyword .TIME :: .keyword .ZONE :: settle rest := by
    simp [aheadKind, TokenKind.keyword?]
  refine Parser.readsWith_bind (reads_optionalModifiers h (by rw [hzone]; simp)) ?_
  rw [hzone]
  simp [optionalZone, TypeName.system, TypeName.named]

/-- The types of the system are read back from their words. -/
theorem reads_plainType_spelled {name : String} {before behind : List Keyword}
    (hspelling : systemSpelling modifiers.isEmpty name = some (before, behind))
    (hlength : name = "bpchar" ∨ name = "bit" → modifiers ≠ [])
    (h : ∀ n ∈ modifiers, n.Leads) (hends : EndsType rest) :
    plainType.Reads depth
      (settle (before.map .keyword ++ (modifierKinds modifiers ++ (behind.map .keyword ++ rest))))
      { names := systemName name, modifiers := modifiers } (settle rest) := by
  unfold systemSpelling at hspelling
  split at hspelling <;> cases hspelling
  -- the types that are written like that only if they have no modifiers
  iterate 6
    · obtain rfl : modifiers = [] := List.isEmpty_iff.mp ‹_›
      simp [modifierKinds, plainType, typeOfWord, wordType?, TokenKind.keyword?, TypeName.system,
        TypeName.named]
  · exact reads_modifiedType "numeric" h hends
  · exact reads_stringType "bpchar" "varchar" (hlength (.inl rfl)) h hends
  · exact reads_stringType_varying "bpchar" "varchar" h hends
  · exact reads_stringType "bit" "varbit" (hlength (.inr rfl)) h hends
  · exact reads_stringType_varying "bit" "varbit" h hends
  · exact reads_timeType "timestamp" "timestamptz" h hends
  · exact reads_timeType_zoned "timestamp" "timestamptz" h
  · exact reads_timeType "time" "timetz" h hends
  · exact reads_timeType_zoned "time" "timetz" h

/-! ### Types -/

theorem systemType?_eq_some {names : List String} {name : String} (h : systemType? names = some name) :
    names = systemName name := by
  unfold systemType? at h
  split at h
  · split at h
    · next heq =>
      cases h
      rw [beq_iff_eq] at heq
      rw [heq]
      rfl
    · cases h
  · cases h

/-- A type without its dimensions is read back. -/
theorem reads_plainType {t : TypeName} (ht : t.IsRead) (h : ∀ n ∈ t.modifiers, n.Leads)
    (hends : EndsType rest) :
    plainType.Reads depth (settle (kindsOf (typePieces t.names (t.modifiers.mapM integerOf?)
        (nodesPieces t.modifiers)) ++ rest))
      { names := t.names, modifiers := t.modifiers } (settle rest) := by
  have hspoken := ht.spoken
  unfold TypeName.isSpoken at hspoken
  unfold typePieces
  cases hsystem : systemType? t.names with
  | none =>
    simp only [kindsOf_append, kindsOf_dotted, kindsOf_modifierPieces, List.append_assoc]
    exact reads_plainType_named ht.nonempty h hends
  | some name =>
    rw [hsystem] at hspoken
    rw [systemType?_eq_some hsystem]
    by_cases hinterval : name = "interval"
    · subst hinterval
      exact reads_interval hspoken hends
    · obtain ⟨⟨before, behind⟩, hspelling, hlength⟩ : ∃ spelling,
          systemSpelling t.modifiers.isEmpty name = some spelling
            ∧ (name = "bpchar" ∨ name = "bit" → t.modifiers ≠ []) := by
        split at hspoken
        · cases ‹some name = none›
        · next heq => exact absurd (Option.some.inj heq) hinterval
        · next heq =>
          cases heq
          have hne : t.modifiers ≠ [] := by simpa using hspoken
          exact ⟨([.CHARACTER], []), by simp [systemSpelling], fun _ => hne⟩
        · next heq =>
          cases heq
          have hne : t.modifiers ≠ [] := by simpa using hspoken
          exact ⟨([.BIT], []), by simp [systemSpelling], fun _ => hne⟩
        · next hchar hbit heq =>
          cases heq
          obtain ⟨spelling, hspelling⟩ := Option.isSome_iff_exists.mp hspoken
          refine ⟨spelling, hspelling, ?_⟩
          rintro (rfl | rfl)
          · exact absurd rfl hchar
          · exact absurd rfl hbit
      have hread : Parser.Reads depth _ _ _ _ := reads_plainType_spelled hspelling hlength h hends
      split
      · next heq => exact absurd (Option.some.inj heq) hinterval
      · next heq =>
        cases heq
        rw [nodesPieces_eq, List.isEmpty_map, ← nodesPieces_eq, hspelling]
        have hbehind : kindsOf (if behind.isEmpty then [] else .gap :: typeWords behind)
            = behind.map .keyword := by
          cases behind <;> simp
        simp only [kindsOf_append, kindsOf_typeWords, kindsOf_modifierPieces, hbehind,
          List.append_assoc]
        exact hread
      · cases ‹some name = none›

/-- No type starts with the word for a set of values. -/
theorem ne_setof {ts ts' : List TokenKind} {t : TypeName} (h : plainType.Reads depth ts t ts') :
    firstOf ts ≠ .keyword .SETOF := by
  intro heq
  have hname : nameOf? Keyword.isTypeName (.keyword .SETOF) = none := by decide
  simp [plainType, heq, TokenKind.keyword?, typeOfWord, wordType?, namedType, callName, hname,
    readAs, Parser.unexpected, Parser.refuse, Parser.bind, Parser.ReadsWith] at h

/-- A type is read back. -/
theorem reads_typeName {t : TypeName} (ht : t.IsRead) (h : ∀ n ∈ t.modifiers, n.Leads) :
    typeName.Reads depth (settle (kindsOf t.pieces ++ .rightParen :: rest)) t
      (settle (.rightParen :: rest)) := by
  obtain ⟨names, modifiers, bounds, setof⟩ := t
  have hbounds : ∀ b ∈ bounds, b = -1 ∨ 0 ≤ b := fun b hb => (ht.bounds b hb).imp id And.left
  have hends : EndsType (bounds.flatMap boundKinds ++ .rightParen :: rest) := by
    cases bounds with
    | nil => exact ⟨_, .inl rfl⟩
    | cons b bounds => exact ⟨_, .inr rfl⟩
  have hplain : Parser.Reads depth _ _ _ _ := reads_plainType ht h hends
  have hdimensions : Parser.Reads depth dimensions _ _ (settle (.rightParen :: rest)) :=
    reads_dimensions hbounds (by simp [TokenKind.before]) (by simp [TokenKind.before])
  rw [TypeName.pieces, kindsOf_append, kindsOf_append, kindsOf_boundPieces, List.append_assoc,
    List.append_assoc]
  have hread : (do
      let type ← plainType
      return { type with setof := setof, bounds := ← dimensions } : Parser TypeName).Reads depth
      (settle (kindsOf (typePieces names (modifiers.mapM integerOf?) (nodesPieces modifiers))
        ++ (bounds.flatMap boundKinds ++ .rightParen :: rest))) ⟨names, modifiers, bounds, setof⟩
      (settle (.rightParen :: rest)) := by
    refine Parser.readsWith_bind hplain ?_
    exact Parser.readsWith_bind hdimensions ⟨rfl, rfl⟩
  have hsetof : firstOf (settle (kindsOf (typePieces names (modifiers.mapM integerOf?)
      (nodesPieces modifiers)) ++ (bounds.flatMap boundKinds ++ .rightParen :: rest)))
      ≠ .keyword .SETOF := by
    exact ne_setof hplain
  cases setof with
  | true =>
    simp only [typeName, bind_eq, reads_acceptWord_bind]
    simpa using hread
  | false =>
    simp only [typeName, bind_eq, reads_acceptWord_bind]
    simpa [hsetof] using hread

end Grammar

end SqlSyntax
