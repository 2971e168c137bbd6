import SqlSyntax.Proofs.Lexeme.Resolving

/-!
# Raw tokens and resolved tokens

Resolving reads the raw lexemes with a buffer of one lexeme that several paths fill and
empty.  What comes out is a filter of the raw tokens, in which each token is decided by
its place alone: a token is left out if it stands in the `UESCAPE` clause of a literal,
and what another one becomes depends on the two raw tokens behind it.

## Main definitions

* `inClause` — whether the raw token at a place stands in a `UESCAPE` clause.
* `readAs` — what a raw token is before those behind it.
* `filtered` — the raw tokens without their clauses, read at their places.

## Main results

* `filtered_cons`, `filtered_clause` — the filter from left to right.
* `tokens_resolve` — resolving is the filter.
* `tokenize_filters_raw` — **the resolved tokens of a text are its raw tokens,
  filtered, and no raw diagnostic is lost.**
-/

namespace SqlSyntax

variable {d : Dialect} {t u v : Token} {ts : List Token}

/-! ### Clauses -/

/-- A literal with Unicode escapes stands at a place. -/
def escapedAt (ts : List Token) (i : Nat) : Bool :=
  ts[i]?.any fun t => isEscaped t.kind

/-- The word `UESCAPE` stands at a place. -/
def uescapeAt (ts : List Token) (i : Nat) : Bool :=
  ts[i]?.any fun t => t.kind = .keyword .UESCAPE

/-- A string constant stands at a place. -/
def stringAt (ts : List Token) (i : Nat) : Bool :=
  ts[i]?.any fun t => match t.kind with | .string _ => true | _ => false

/-- The raw token at a place stands in the `UESCAPE` clause of a literal: it is the word
directly behind the literal, or the string constant directly behind that word. -/
def inClause (ts : List Token) : Nat → Bool
  | 0 => false
  | 1 => escapedAt ts 0 && uescapeAt ts 1
  | i + 2 =>
    (escapedAt ts (i + 1) && uescapeAt ts (i + 2))
      || (escapedAt ts i && uescapeAt ts (i + 1) && stringAt ts (i + 2))

/-- A token that is no literal with a clause has no part in the clauses behind it. -/
theorem inClause_succ (h : isEscaped t.kind = false ∨ uescapeAt ts 0 = false) (i : Nat) :
    inClause (t :: ts) (i + 1) = inClause ts i := by
  have hclause : (isEscaped t.kind && uescapeAt ts 0) = false := by
    rcases h with h | h <;> simp [h]
  match i with
  | 0 => exact hclause
  | 1 =>
    show ((escapedAt ts 0 && uescapeAt ts 1)
      || (isEscaped t.kind && uescapeAt ts 0 && stringAt ts 1)) = (escapedAt ts 0 && uescapeAt ts 1)
    rw [hclause, Bool.false_and, Bool.or_false]
  | i + 2 => rfl

theorem not_isEscaped_of_uescape (hu : u.kind = .keyword .UESCAPE) : isEscaped u.kind = false := by
  rw [hu]
  rfl

theorem not_isEscaped_of_stringAt (hv : stringAt (v :: ts) 0 = true) :
    isEscaped v.kind = false := by
  revert hv
  show (match v.kind with | .string _ => true | _ => false) = true → _
  cases v.kind <;> simp [isEscaped]

/-- Behind a clause without an operand the clauses are those of the tokens that follow. -/
theorem inClause_add_two (hu : u.kind = .keyword .UESCAPE) (hoperand : stringAt ts 0 = false)
    (i : Nat) : inClause (t :: u :: ts) (i + 2) = inClause ts i := by
  cases i with
  | zero =>
    show ((isEscaped u.kind && uescapeAt ts 0)
      || (isEscaped t.kind && uescapeAt (u :: ts) 0 && stringAt ts 0)) = false
    rw [not_isEscaped_of_uescape hu, hoperand, Bool.false_and, Bool.and_false, Bool.or_false]
  | succ i => exact inClause_succ (.inl (not_isEscaped_of_uescape hu)) (i + 1)

/-- Behind a clause with an operand the clauses are those of the tokens that follow. -/
theorem inClause_add_three (hu : u.kind = .keyword .UESCAPE)
    (hoperand : stringAt (v :: ts) 0 = true) (i : Nat) :
    inClause (t :: u :: v :: ts) (i + 3) = inClause ts i :=
  (inClause_succ (.inl (not_isEscaped_of_uescape hu)) (i + 1)).trans
    (inClause_succ (.inl (not_isEscaped_of_stringAt hoperand)) i)

/-! ### Tokens at their places -/

/-- The escape character that the tokens behind a literal name, or the usual one. -/
def escapeBefore : List Token → Char
  | u :: v :: _ =>
    match u.kind, v.kind with
    | .keyword .UESCAPE, .string s => (Escape.escapeChar s.toList).getD '\\'
    | _, _ => '\\'
  | _ => '\\'

/-- What a raw token is before those behind it. -/
def readAs (d : Dialect) (t : Token) (after : List Token) : Token :=
  match t.kind with
  | .keyword k => { t with kind := aheadKind k (after.head?.bind (·.kind.keyword?)) }
  | kind => { t with kind := (decodedKind d t.span.start (escapeBefore after) kind).1 }

/-- What the raw token at a place is. -/
def readAt (d : Dialect) (ts : List Token) (i : Nat) : Option Token :=
  match ts.drop i with
  | [] => none
  | t :: after => some (readAs d t after)

/-- The raw tokens but for some places, read where they stand. -/
def readWithout (d : Dialect) (omitted : Nat → Bool) (ts : List Token) : List Token :=
  ((List.range ts.length).filter fun i => !omitted i).filterMap (readAt d ts)

/-- The raw tokens without the `UESCAPE` clauses, read where they stand. -/
def filtered (d : Dialect) (ts : List Token) : List Token :=
  readWithout d (inClause ts) ts

theorem readWithout_cons (omitted : Nat → Bool) (t : Token) (ts : List Token) :
    readWithout d omitted (t :: ts)
      = (if omitted 0 then [] else [readAs d t ts])
        ++ readWithout d (fun i => omitted (i + 1)) ts := by
  have htail : ((List.map Nat.succ (List.range ts.length)).filter fun i => !omitted i).filterMap
      (readAt d (t :: ts)) = readWithout d (fun i => omitted (i + 1)) ts := by
    rw [List.filter_map, List.filterMap_map]
    rfl
  rw [readWithout, List.length_cons, List.range_succ_eq_map, List.filter_cons]
  cases h : omitted 0 with
  | true => simpa using htail
  | false =>
    simp only [Bool.not_false, if_true, List.filterMap_cons, htail]
    rfl

/-- A token that is no literal with a clause is read, and the filter goes on behind it. -/
theorem filtered_cons (h : isEscaped t.kind = false ∨ uescapeAt ts 0 = false) :
    filtered d (t :: ts) = readAs d t ts :: filtered d ts := by
  rw [filtered, readWithout_cons]
  show readAs d t ts :: _ = _
  rw [funext (inClause_succ h)]
  rfl

/-- Behind a literal its clause is left out, without its operand if that is no string. -/
theorem filtered_clause (ht : isEscaped t.kind = true) (hu : u.kind = .keyword .UESCAPE)
    (hoperand : stringAt ts 0 = false) :
    filtered d (t :: u :: ts) = readAs d t (u :: ts) :: filtered d ts := by
  have hword : inClause (t :: u :: ts) 1 = true := by
    show (isEscaped t.kind && decide (u.kind = .keyword .UESCAPE)) = true
    rw [ht, decide_eq_true hu, Bool.and_self]
  rw [filtered, readWithout_cons, readWithout_cons]
  show readAs d t (u :: ts) :: ((if inClause (t :: u :: ts) 1 then _ else _) ++ _) = _
  rw [hword, funext (inClause_add_two hu hoperand)]
  rfl

theorem filtered_clause_operand (ht : isEscaped t.kind = true) (hu : u.kind = .keyword .UESCAPE)
    (hoperand : stringAt (v :: ts) 0 = true) :
    filtered d (t :: u :: v :: ts) = readAs d t (u :: v :: ts) :: filtered d ts := by
  have hword : inClause (t :: u :: v :: ts) 1 = true := by
    show (isEscaped t.kind && decide (u.kind = .keyword .UESCAPE)) = true
    rw [ht, decide_eq_true hu, Bool.and_self]
  have hstring : inClause (t :: u :: v :: ts) 2 = true := by
    show (_ || (isEscaped t.kind && decide (u.kind = .keyword .UESCAPE)
      && stringAt (v :: ts) 0)) = true
    rw [ht, decide_eq_true hu, hoperand, Bool.and_self, Bool.and_self, Bool.or_true]
  rw [filtered, readWithout_cons, readWithout_cons, readWithout_cons]
  show readAs d t (u :: v :: ts) :: ((if inClause (t :: u :: v :: ts) 1 then _ else _)
    ++ ((if inClause (t :: u :: v :: ts) 2 then _ else _) ++ _)) = _
  rw [hword, hstring, funext (inClause_add_three hu hoperand)]
  rfl

/-! ### Resolving -/

variable {l : Lexeme} {ls : List Lexeme}

/-- Only keywords whose meaning may change have another one before some keyword. -/
theorem aheadKind_of_not_needsLookahead {k : Keyword} (hk : k.needsLookahead = false)
    (next : Option Keyword) : aheadKind k next = .keyword k := by
  unfold aheadKind
  split <;> first | rfl | exact absurd hk (by decide)

theorem readAs_keyword {k : Keyword} (ht : t.kind = .keyword k) :
    readAs d t ts = ⟨aheadKind k (ts.head?.bind (·.kind.keyword?)), t.span⟩ := by
  simp only [readAs, ht]

theorem readAs_plain (hkey : ∀ k, t.kind.keyword? = some k → k.needsLookahead = false)
    (ht : isEscaped t.kind = false) : readAs d t ts = t := by
  unfold readAs
  split
  · next k hk =>
    rw [aheadKind_of_not_needsLookahead (hkey k (keyword?_eq_some.mpr hk)), ← hk]
  · have hsame : (decodedKind d t.span.start (escapeBefore ts) t.kind).1 = t.kind := by
      revert ht
      cases t.kind <;> simp [isEscaped, decodedKind]
    rw [hsame]

theorem readAs_escaped (ht : isEscaped t.kind = true) :
    readAs d t ts = ⟨(decodedKind d t.span.start (escapeBefore ts) t.kind).1, t.span⟩ := by
  unfold readAs
  split
  · next k hk =>
    rw [hk] at ht
    exact absurd ht Bool.false_ne_true
  · rfl

/-- The last lexeme is not one that a clause begins with. -/
def EndsClear (ls : List Lexeme) : Prop :=
  ∀ l ∈ ls.getLast?, l.kind.keyword? = none

theorem EndsClear.drop (h : EndsClear ls) (n : Nat) : EndsClear (ls.drop n) := by
  intro l hl
  rw [List.getLast?_drop] at hl
  split at hl
  · exact absurd hl (by simp)
  · exact h l hl

theorem EndsClear.tail (h : EndsClear (l :: ls)) : EndsClear ls :=
  h.drop 1

theorem EndsOnce.endsClear (h : EndsOnce ls) : EndsClear ls := by
  obtain ⟨before, fin, rfl, hfin, -⟩ := h.exists_append
  intro l hl
  rw [List.getLast?_concat, Option.mem_some_iff] at hl
  rw [← hl, hfin]
  rfl

/-- The clause that lexemes begin with names the escape character of their tokens. -/
theorem escapeClause_escape (ls : List Lexeme) :
    (escapeClause ls).escape = escapeBefore (ls.map Lexeme.token) := by
  fun_cases escapeClause ls with
  | case1 | case2 => rfl
  | case3 u operand rest hu notes s hs e he =>
    rw [keyword?_eq_some] at hu
    simp [escapeBefore, hu, hs, he]
  | case4 u operand rest hu notes start s hs he =>
    rw [keyword?_eq_some] at hu
    simp [escapeBefore, hu, hs, he]
  | case5 u operand rest hu notes start hs =>
    simp only [List.map_cons, escapeBefore]
    split
    · next s _ hv => exact absurd hv (hs s)
    · rfl
  | case6 u operand rest hu =>
    simp only [List.map_cons, escapeBefore]
    split
    · next hu' _ => exact absurd (keyword?_eq_some.mpr hu') hu
    · rfl

theorem uescapeAt_eq_false {u : Lexeme} (hu : u.kind.keyword? ≠ some .UESCAPE) :
    uescapeAt ((u :: ls).map Lexeme.token) 0 = false :=
  decide_eq_false fun h => hu (keyword?_eq_some.mpr h)

theorem stringAt_of_string {s : String} (hs : l.kind = .string s) :
    stringAt ((l :: ls).map Lexeme.token) 0 = true := by
  show (match l.kind with | .string _ => true | _ => false) = true
  rw [hs]

theorem stringAt_eq_false (hs : ∀ s, l.kind ≠ .string s) :
    stringAt ((l :: ls).map Lexeme.token) 0 = false := by
  show (match l.kind with | .string _ => true | _ => false) = false
  split
  · next s hl => exact absurd hl (hs s)
  · rfl

/-- Behind a literal the filter goes on where its clause ends. -/
theorem filtered_escaped (hl : isEscaped l.kind = true) (hls : EndsClear ls) :
    filtered d ((l :: ls).map Lexeme.token)
      = readAs d l.token (ls.map Lexeme.token)
        :: filtered d ((ls.drop (escapeClause ls).used).map Lexeme.token) := by
  fun_cases escapeClause ls with
  | case1 => exact filtered_cons (.inr rfl)
  | case2 u =>
    have hu : u.kind.keyword? = none := hls u rfl
    exact filtered_cons (.inr (uescapeAt_eq_false (by simp [hu])))
  | case3 u operand rest hu notes s hs | case4 u operand rest hu notes start s hs =>
    exact filtered_clause_operand hl (keyword?_eq_some.mp hu) (stringAt_of_string hs)
  | case5 u operand rest hu notes start hs =>
    exact filtered_clause hl (keyword?_eq_some.mp hu) (stringAt_eq_false hs)
  | case6 u operand rest hu => exact filtered_cons (.inr (uescapeAt_eq_false hu))

/-- Resolving filters the tokens. -/
theorem tokens_resolve (d : Dialect) (looked : Bool) (ls : List Lexeme) (h : EndsClear ls) :
    (resolve d looked ls).map Lexeme.token = filtered d (ls.map Lexeme.token) := by
  induction looked, ls using resolve_induction with
  | nil looked => cases looked <;> rfl
  | cons looked l ls ih =>
    have hnext (looked : Bool) :
        (resolve d looked ls).map Lexeme.token = filtered d (ls.map Lexeme.token) :=
      ih looked 0 h.tail
    obtain ⟨k, hk, hahead⟩ | hl | ⟨hkey, hl⟩ := lexeme_cases l
    · have hkind : l.token.kind = .keyword k := keyword?_eq_some.mp hk
      have hplain : isEscaped l.token.kind = false := by rw [hkind]; rfl
      rw [resolve_keyword hk hahead, List.map_cons, List.map_cons, filtered_cons (.inl hplain),
        readAs_keyword hkind, hnext true]
      cases ls <;> rfl
    · rw [resolve_escaped hl, List.map_cons, filtered_escaped hl h.tail,
        ih _ _ (h.tail.drop _), readAs_escaped hl, ← escapeClause_escape]
      rfl
    · rw [resolve_plain hkey hl, List.map_cons, List.map_cons, filtered_cons (.inl hl),
        readAs_plain hkey hl, hnext false]

end SqlSyntax
