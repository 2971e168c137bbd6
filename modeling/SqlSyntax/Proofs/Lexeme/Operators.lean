import Mathlib.Data.List.DropRight
import SqlSyntax.Proofs.Lexeme.Locality
import SqlSyntax.Proofs.Lexeme.Tiling
import SqlSyntax.Proofs.Rendering.Literals

/-!
# Operators are the longest that they can be

Where an operator starts, the run of operator characters is cut where a comment starts, and the
operator is the longest part of what is left that an operator may be: a single character, a text
with a character that keeps signs, or a text that does not end in a sign.

## Main definitions

* `IsCut whole part` — a text up to the first comment in it.
* `IsOperatorText` — the texts that an operator may be.
* `IsLongest` — the longest part of a run that may be something.
* `TokenKind.isOperator` — the tokens that are operators.

## Main results

* `isCut_operatorRun`, `isLongest_operatorChars` — what the rule for operators takes.
* `isOperator_readToken` — a token is an operator if it starts with an operator character.
* `rawTokens_operator` — **operators are the longest that they can be.**
-/

namespace SqlSyntax

variable {d : Dialect} {start : Nat} {c : Char} {cs run op p : List Char}

/-! ### Runs up to a comment -/

/-- A comment starts here. -/
def OpensComment (cs : List Char) : Prop :=
  ['/', '*'] <+: cs ∨ ['-', '-'] <+: cs

/-- The part of a text before the first place where a comment starts, which is all of it if there
is none. -/
structure IsCut (whole part : List Char) : Prop where
  stop : ∃ rest, whole = part ++ rest ∧ (rest = [] ∨ OpensComment rest)
  first : ∀ before after, whole = before ++ after → before.length < part.length →
    ¬ OpensComment after

theorem opensComment_iff : OpensComment cs ↔ startsComment cs = true := by
  constructor
  · rintro (⟨t, rfl⟩ | ⟨t, rfl⟩) <;> rfl
  · intro h
    unfold startsComment at h
    split at h
    · exact .inl ⟨_, rfl⟩
    · exact .inr ⟨_, rfl⟩
    · cases h

/-- A comment that starts in a text starts in the run of operator characters there, and no
other does. -/
theorem opensComment_takeWhile :
    OpensComment (cs.takeWhile isOperatorChar) ↔ startsComment cs = true := by
  constructor
  · intro h
    have hwhole := List.takeWhile_prefix (l := cs) isOperatorChar
    exact opensComment_iff.mp (h.imp (·.trans hwhole) (·.trans hwhole))
  · intro h
    rcases opensComment_iff.mpr h with ⟨t, rfl⟩ | ⟨t, rfl⟩
    · exact .inl ⟨_, rfl⟩
    · exact .inr ⟨_, rfl⟩

/-- The rule for operators cuts the run of operator characters at the first comment. -/
theorem isCut_operatorRun (cs : List Char) :
    IsCut (cs.takeWhile isOperatorChar) (operatorRun cs) := by
  induction cs with
  | nil => exact ⟨⟨[], rfl, .inl rfl⟩, fun _ _ _ h => absurd h (Nat.not_lt_zero _)⟩
  | cons c cs ih =>
    by_cases hc : isOperatorChar c = true
    · by_cases hcomment : startsComment (c :: cs) = true
      · -- the run is cut at once
        have hrun : operatorRun (c :: cs) = [] := by
          rw [operatorRun, hc, hcomment]
          rfl
        rw [hrun]
        exact ⟨⟨_, rfl, .inr (opensComment_takeWhile.mpr hcomment)⟩,
          fun _ _ _ h => absurd h (Nat.not_lt_zero _)⟩
      · have hrun : operatorRun (c :: cs) = c :: operatorRun cs := by
          rw [operatorRun, hc, Bool.eq_false_iff.mpr hcomment]
          rfl
        have hwhole : (c :: cs).takeWhile isOperatorChar = c :: cs.takeWhile isOperatorChar :=
          List.takeWhile_cons_of_pos hc
        obtain ⟨rest, hrest, hstop⟩ := ih.stop
        refine ⟨⟨rest, by rw [hwhole, hrun, hrest, List.cons_append], hstop⟩, ?_⟩
        rintro (_ | ⟨b, before⟩) after hcut hlt
        · rw [List.nil_append] at hcut
          rw [← hcut, opensComment_takeWhile]
          exact hcomment
        · rw [hwhole, List.cons_append] at hcut
          rw [hrun] at hlt
          exact ih.first before after (List.cons.inj hcut).2 (Nat.lt_of_succ_lt_succ hlt)
    · have hrun : operatorRun (c :: cs) = [] := by
        rw [operatorRun, Bool.eq_false_iff.mpr hc]
        rfl
      rw [hrun, List.takeWhile_cons_of_neg hc]
      exact ⟨⟨[], rfl, .inl rfl⟩, fun _ _ _ h => absurd h (Nat.not_lt_zero _)⟩

/-! ### The longest operator -/

/-- What an operator may be: a single character, a text with a character that keeps signs, or a
text that does not end in a sign. -/
def IsOperatorText (op : List Char) : Prop :=
  op.length = 1 ∨ (∃ c ∈ op, c ∈ "~!@#^&|`?".toList) ∨ ∀ c ∈ op.getLast?, c ≠ '+' ∧ c ≠ '-'

/-- `op` is the longest beginning of a run for which `P` holds, the empty one apart. -/
structure IsLongest (P : List Char → Prop) (run op : List Char) : Prop where
  isPrefix : op <+: run
  ne_nil : op ≠ []
  holds : P op
  longest : ∀ p, p <+: run → p ≠ [] → P p → p.length ≤ op.length

theorem isSign_iff : isSign c = true ↔ c = '+' ∨ c = '-' := by
  rw [isSign, Bool.or_eq_true, beq_iff_eq, beq_iff_eq]

theorem keepsSign_iff : keepsSign c = true ↔ c ∈ "~!@#^&|`?".toList :=
  List.contains_iff_mem

/-- A beginning that does not end in a sign loses nothing when signs are dropped. -/
theorem length_le_rdropWhile (hp : p <+: run) (hlast : ∀ c ∈ p.getLast?, isSign c = false) :
    p.length ≤ (run.rdropWhile isSign).length := by
  obtain ⟨t, rfl⟩ := hp
  -- from the end on, dropping stops at `p` if not before
  have hstop : p.reverse.dropWhile isSign = p.reverse := by
    cases hrev : p.reverse with
    | nil => rfl
    | cons c cs =>
      rw [List.dropWhile_cons_of_neg]
      rw [hlast c (by rw [← List.head?_reverse, hrev]; rfl)]
      exact Bool.false_ne_true
  rw [List.rdropWhile, List.length_reverse, List.reverse_append, List.dropWhile_append, hstop]
  split
  · rw [List.length_reverse]
  · rw [List.length_append, List.length_reverse]
    exact Nat.le_add_left _ _

theorem dropSigns_ne_nil (hne : run ≠ []) : dropSigns run ≠ [] := by
  rw [dropSigns_eq]
  split
  · obtain ⟨c, cs, rfl⟩ := List.exists_cons_of_ne_nil hne
    exact List.cons_ne_nil c _
  · next hkept => exact hkept

/-- What is left when signs are dropped may be an operator. -/
theorem isOperatorText_dropSigns (hne : run ≠ []) : IsOperatorText (dropSigns run) := by
  rw [dropSigns_eq]
  split
  · obtain ⟨c, cs, rfl⟩ := List.exists_cons_of_ne_nil hne
    exact .inl rfl
  · next hkept =>
    refine .inr (.inr fun c hc => ?_)
    have hlast := List.rdropWhile_last_not isSign run hkept
    rw [List.getLast?_eq_some_getLast hkept, Option.mem_some_iff] at hc
    rw [hc, isSign_iff, not_or] at hlast
    exact hlast

theorem length_le_dropSigns (hp : p <+: run) (hlast : ∀ c ∈ p.getLast?, isSign c = false) :
    p.length ≤ (dropSigns run).length := by
  have hle := length_le_rdropWhile hp hlast
  rw [dropSigns_eq]
  split
  · next hkept =>
    rw [hkept] at hle
    exact hle.trans (Nat.zero_le _)
  · exact hle

/-- **The rule for operators takes the longest one of the run.** -/
theorem isLongest_operatorChars (hrun : operatorRun cs ≠ []) :
    IsLongest IsOperatorText (operatorRun cs) (operatorChars cs) := by
  have hchars : operatorChars cs
      = if (operatorRun cs).any keepsSign then operatorRun cs else dropSigns (operatorRun cs) := rfl
  generalize operatorRun cs = run at hrun hchars
  rw [hchars]
  by_cases hkeeps : run.any keepsSign = true
  · rw [if_pos hkeeps]
    obtain ⟨c, hc, hkeep⟩ := List.any_eq_true.mp hkeeps
    -- the whole run may be an operator
    exact ⟨List.prefix_rfl, hrun, .inr (.inl ⟨c, hc, keepsSign_iff.mp hkeep⟩),
      fun p hp _ _ => hp.length_le⟩
  · rw [if_neg hkeeps]
    have hne := dropSigns_ne_nil hrun
    refine ⟨dropSigns_isPrefix run, hne, isOperatorText_dropSigns hrun, fun p hp _ hholds => ?_⟩
    -- what may be an operator is no longer than what is kept
    rcases hholds with hone | ⟨c, hc, hkeep⟩ | hlast
    · rw [hone]
      exact List.length_pos_iff.mpr hne
    · -- the whole run would hold the character
      exact absurd (List.any_eq_true.mpr ⟨c, hp.subset hc, keepsSign_iff.mpr hkeep⟩) hkeeps
    · refine length_le_dropSigns hp fun c hc => ?_
      rw [← Bool.not_eq_true, isSign_iff, not_or]
      exact hlast c hc

/-! ### Tokens that are operators -/

/-- A token that is an operator. -/
def TokenKind.isOperator : TokenKind → Bool
  | .op _ | .plus | .minus | .star | .slash | .percent | .caret | .eq | .lt | .gt | .ltEq | .gtEq
  | .notEq | .equalsGreater => true
  | _ => false

theorem isOperator_operatorKind (op : String) : (operatorKind op).isOperator = true := by
  unfold operatorKind
  split <;> rfl

theorem isOperator_symbolKind (c : Char) : (symbolKind c).isOperator = false := by
  unfold symbolKind
  repeat' split
  all_goals rfl

/-- A rule makes no operator. -/
def Reading.IsNoOperator (r : Reading) : Prop :=
  r.kind.isOperator = false

/-- Only the rule for operators makes them. -/
theorem isNoOperator_readToken (hc : isOperatorChar c = false) :
    (readToken d start c cs).IsNoOperator := by
  have hkind := kindBy_readToken d start c cs
  rw [Reading.IsNoOperator]
  generalize (readToken d start c cs).kind = k at hkind ⊢
  cases hkind with
  | text hk => cases k <;> first | rfl | cases hk
  | integer | float => rfl
  | pair hk =>
    have hpairs : ∀ k ∈ [TokenKind.dotDot, .typecast, .colonEquals], k.isOperator = false := by
      decide
    exact hpairs k hk
  | operator op hop =>
    rw [hc] at hop
    cases hop
  | symbol => exact isOperator_symbolKind c

/-- **A token is an operator if and only if it starts with an operator character.** -/
theorem isOperator_readToken :
    (readToken d start c cs).kind.isOperator = true ↔ isOperatorChar c = true := by
  by_cases hc : isOperatorChar c = true
  · rw [readToken_operator hc]
    exact iff_of_true (isOperator_operatorKind _) hc
  · have hno : (readToken d start c cs).kind.isOperator = false :=
      isNoOperator_readToken (Bool.eq_false_iff.mpr hc)
    exact iff_of_false (Bool.eq_false_iff.mp hno) hc

/-! ### Operators of a text -/

/-- An operator is read as one again. -/
theorem tokenize_operatorChars (d : Dialect) (hne : operatorChars cs ≠ []) :
    let op := operatorChars cs
    (TokenStream.ofRaw d op).tokenize
      = (operatorKind (String.ofList op)).alone (String.ofList op) := by
  intro op
  have htoken : IsToken d (String.ofList op).toList (operatorKind (String.ofList op)) := by
    rw [String.toList_ofList]
    exact isToken_operatorChars (operatorChars_idem cs) hne
  have halone := htoken.tokenize_ofRaw
  rwa [String.toList_ofList] at halone

/-- **Operators are the longest that they can be.**  A token of a text is an operator if it starts
with an operator character.  Then take the characters of that kind from there on, up to the first
comment among them.  The operator is the longest part at their start that is a single character,
has a character that keeps signs, or does not end in a sign.  As a text of its own it is the same
token again, whatever the dialect. -/
theorem rawTokens_operator (d : Dialect) (source : List Char) :
    ∀ t ∈ (TokenStream.ofRaw d source).tokenize.1, ∃ before rest, source = before ++ rest ∧
      t.span.start = byteLength before ∧
      (t.kind.isOperator = true ↔ rest.head?.any isOperatorChar = true) ∧
      (t.kind.isOperator = true → ∃ run op, IsCut (rest.takeWhile isOperatorChar) run ∧
        IsLongest IsOperatorText run op ∧
        t = ⟨operatorKind (String.ofList op),
          ⟨byteLength before, byteLength before + byteLength op⟩⟩ ∧
        ∀ d', (TokenStream.ofRaw d' op).tokenize = t.kind.alone (String.ofList op)) := by
  intro t ht
  rw [TokenStream.tokenize_ofRaw] at ht
  obtain ⟨l, hl, rfl⟩ := List.mem_map.mp ht
  rcases rawLexeme_cases hl with
    ⟨hkind, hstart⟩ | ⟨before, rest, rfl, c, cs, rfl, hcomment, -, rfl⟩
  · -- the end of the text is no operator, and nothing follows it
    rw [Nat.zero_add] at hstart
    have hno : ¬ l.kind.isOperator = true := by
      rw [hkind]
      exact Bool.false_ne_true
    exact ⟨source, [], (List.append_nil source).symm, hstart,
      iff_of_false hno Bool.false_ne_true, fun h => absurd h hno⟩
  · rw [Nat.zero_add]
    refine ⟨before, c :: cs, rfl, rfl, isOperator_readToken, fun hoperator => ?_⟩
    have hc := isOperator_readToken.mp hoperator
    have hrun : operatorRun (c :: cs) ≠ [] := by
      rw [operatorRun, hc, hcomment]
      exact List.cons_ne_nil _ _
    have hlongest := isLongest_operatorChars hrun
    have htake : (c :: cs).take (operatorChars (c :: cs)).length = operatorChars (c :: cs) :=
      List.prefix_iff_eq_take.mp (hlongest.isPrefix.trans (operatorRun_isPrefix _)) |>.symm
    rw [readToken_operator hc]
    refine ⟨_, operatorChars (c :: cs), isCut_operatorRun _, hlongest, ?_, fun d' => ?_⟩
    · rw [readOperator, htake]
    · exact tokenize_operatorChars d' hlongest.ne_nil

/-- An operator behind which signs and a comment stand. -/
theorem rawTokens_operator_signs :
    let source := "a *<+-/*c*/1".toList
    let t : Token := ⟨.op "*<", ⟨2, 4⟩⟩
    t ∈ (TokenStream.ofRaw .postgres source).tokenize.1 ∧ t.kind.isOperator = true ∧
      ∃ before rest run, source = before ++ rest ∧ byteLength before = 2 ∧
        IsCut (rest.takeWhile isOperatorChar) run ∧ IsLongest IsOperatorText run "*<".toList ∧
        (TokenStream.ofRaw .postgres "*<".toList).tokenize = t.kind.alone "*<" := by
  intro source t
  have ht : t ∈ (TokenStream.ofRaw .postgres source).tokenize.1 := by decide +kernel
  obtain ⟨before, rest, hsource, hstart, -, hoperator⟩ := rawTokens_operator .postgres source t ht
  obtain ⟨run, op, hcut, hlongest, hop, halone⟩ := hoperator rfl
  obtain rfl : "*<".toList = op := by
    have htext := operatorKind_op (congrArg Token.kind hop).symm
    rw [htext, String.toList_ofList]
  exact ⟨ht, rfl, before, rest, run, hsource, hstart.symm, hcut, hlongest, halone .postgres⟩

end SqlSyntax
