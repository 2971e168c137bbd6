import SqlSyntax.Proofs.Grammar.PlainStatement
import SqlSyntax.Proofs.Query.Written
import SqlSyntax.Proofs.Source.Tables

/-!
# Reading statements of words and names

The statements about transactions, and those that remove or empty objects, are written with
the same words that their names may be spelled like.  What tells them apart is the place where
they stand and the token behind them: an optional word is written in front of a name that is
not reserved, and only such names are written bare.

## Main definitions

* `EndsObject` — the tokens may stand behind the name of an object.

## Main results

* `reads_transactionModes` — the characteristics of a transaction are read back.
* `reads_transaction`, `reads_drop`, `reads_truncate` — the statements are read back.
* `Utility.IsRead.reads`, `Utility.IsRead.written` — **so is each of them, from its text.**
-/

namespace SqlSyntax

open Grammar

variable {R : (r : Rule) → List TokenKind → r.Result → List TokenKind → Prop}
variable {ts rest : List TokenKind} {n : Node}

-- what is left to read shows in the statement alone, which is not to be computed at each step
attribute [local irreducible] wholeStatement

namespace Grammar

open SqlSyntax.Parser (bind_eq Steps)

/-! ### Statements -/

/-- A statement is read behind its first word, which starts neither a query nor a change. -/
theorem reads_wholeStatement {w : Keyword}
    (hw : w ∉ [.SELECT, .VALUES, .WITH, .INSERT, .UPDATE, .DELETE])
    (h : (statementOfWord w).ReadsWith R (.keyword w :: ts) n []) :
    wholeStatement.ReadsWith R (.keyword w :: ts) n [] := by
  have hne {w' : Keyword} (hmem : w' ∈ [.SELECT, .VALUES, .WITH, .INSERT, .UPDATE, .DELETE]) :
      w ≠ w' := fun heq => hw (heq ▸ hmem)
  have hchange : change?.ReadsWith R (.keyword w :: ts) none (.keyword w :: ts) := by
    simp only [change?, bind_eq, reads_kind_bind, firstOf_cons, TokenKind.keyword?]
    split
    · next heq => exact absurd (Option.some.inj heq) (hne (by decide))
    · next heq => exact absurd (Option.some.inj heq) (hne (by decide))
    · next heq => exact absurd (Option.some.inj heq) (hne (by decide))
    · exact ⟨rfl, rfl⟩
  have hother : otherStatement.ReadsWith R (.keyword w :: ts) n [] := Parser.readsWith_bind hchange h
  have hstatement : statement.ReadsWith R (.keyword w :: ts) n [] := by
    simp only [statement, bind_eq, reads_kind_bind, firstOf_cons]
    split
    · next heq => exact absurd (TokenKind.keyword.inj heq) (hne (by decide))
    · next heq => exact absurd (TokenKind.keyword.inj heq) (hne (by decide))
    · next heq => cases heq
    · next heq => exact absurd (TokenKind.keyword.inj heq) (hne (by decide))
    · exact hother
  unfold wholeStatement
  exact Parser.readsWith_bind hstatement ⟨rfl, rfl⟩

/-! ### Transactions -/

theorem reads_isolationLevel (l : IsolationLevel) :
    isolationLevel.ReadsWith R (settle (l.words.map .keyword ++ rest)) l (settle rest) := by
  cases l <;> simp [IsolationLevel.words, isolationLevel, TokenKind.spelledKeyword?]

/-- A characteristic is read back, whatever follows it. -/
theorem reads_optionalMode (m : TransactionMode) :
    optionalMode.ReadsWith R (settle (m.words.map .keyword ++ rest)) (some m) (settle rest) := by
  cases m with
  | isolation l =>
    have hlevel : (do return some (.isolation (← isolationLevel)) : Parser (Option TransactionMode)).ReadsWith
        R (settle (l.words.map .keyword ++ rest)) (some (.isolation l)) (settle rest) :=
      Parser.readsWith_bind (reads_isolationLevel l) ⟨rfl, rfl⟩
    simpa [TransactionMode.words, optionalMode, TokenKind.spelledKeyword?] using hlevel
  | notDeferrable =>
    -- the words behind `NOT` that change it are others
    simp [TransactionMode.words, optionalMode, TokenKind.spelledKeyword?, aheadKind, TokenKind.keyword?]
  | _ => simp [TransactionMode.words, optionalMode, TokenKind.spelledKeyword?]

/-- The tokens of characteristics with commas between them. -/
def modeKinds (modes : List TransactionMode) : List TokenKind :=
  commaKinds (modes.map fun m => m.words.map .keyword)

@[simp] theorem modeKinds_nil : modeKinds [] = [] := rfl

variable {found : List TransactionMode}

theorem reads_firstMode (m : TransactionMode) :
    (moreModes []).ReadsWith R (settle (m.words.map .keyword ++ rest)) (some [m]) (settle rest) := by
  have hmode : optionalMode.ReadsWith R (settle (m.words.map .keyword ++ rest)) (some m)
      (settle rest) := reads_optionalMode m
  simp only [moreModes, modeComma, bind_eq, List.isEmpty_nil, if_true, Parser.pure_eq,
    reads_done_bind]
  exact Parser.readsWith_bind hmode ⟨rfl, rfl⟩

/-- A further characteristic stands behind a comma. -/
theorem reads_nextMode (hfound : found ≠ []) (m : TransactionMode) :
    (moreModes found).ReadsWith R (settle (.comma :: (m.words.map .keyword ++ rest)))
      (some (m :: found)) (settle rest) := by
  have hmode : optionalMode.ReadsWith R (settle (m.words.map .keyword ++ rest)) (some m)
      (settle rest) := reads_optionalMode m
  have hsome : found.isEmpty = false := List.isEmpty_eq_false_iff.mpr hfound
  rw [settle_cons, before_eq rfl]
  simp only [moreModes, modeComma, bind_eq, hsome, Bool.false_eq_true, if_false, reads_accept_bind,
    firstOf_cons, if_true, List.tail_cons]
  exact Parser.readsWith_bind hmode ⟨rfl, rfl⟩

theorem steps_moreModes (modes : List TransactionMode) (hfound : found ≠ []) :
    Steps R moreModes found (settle (modes.flatMap fun m => .comma :: m.words.map .keyword))
      (modes.reverse ++ found) [] := by
  -- the loop puts each characteristic in front of those that it has found
  induction modes generalizing found with
  | nil =>
    have hsome : found.isEmpty = false := List.isEmpty_eq_false_iff.mpr hfound
    exact .last (by simp [moreModes, modeComma, hsome, optionalMode, TokenKind.spelledKeyword?])
  | cons m modes ih =>
    have ih := ih (List.cons_ne_nil m found)
    rw [List.flatMap_cons, List.cons_append, List.reverse_cons, List.append_assoc,
      List.singleton_append]
    refine .more (reads_nextMode hfound m) ?_ ih
    simp only [length_settle, List.length_cons, List.length_append]
    omega

/-- The characteristics of a transaction are read back. -/
theorem reads_transactionModes (modes : List TransactionMode) :
    transactionModes.ReadsWith R (settle (modeKinds modes)) modes [] := by
  have hsteps : Steps R moreModes [] (settle (modeKinds modes)) modes.reverse [] := by
    cases modes with
    | nil => exact .last (by simp [moreModes, modeComma, optionalMode, TokenKind.spelledKeyword?])
    | cons m modes =>
      have hmore := steps_moreModes (R := R) modes (List.cons_ne_nil m [])
      rw [modeKinds, List.map_cons, commaKinds, List.flatMap_map, List.reverse_cons]
      refine .more (reads_firstMode m) ?_ hmore
      have hwords : 0 < (m.words.map TokenKind.keyword).length := by cases m <;> exact Nat.succ_pos _
      simp only [length_settle, List.length_append]
      omega
  refine Parser.readsWith_bind hsteps.reads ⟨?_, rfl⟩
  exact List.reverse_reverse modes

theorem firstOf_modeKinds (modes : List TransactionMode) :
    firstOf (settle (modeKinds modes)) ∉ [.keyword .WORK, .keyword .TRANSACTION] := by
  cases modes with
  | nil => exact of_decide_eq_true rfl
  | cons m modes => cases m <;> simp [modeKinds, commaKinds, TransactionMode.words, aheadKind, TokenKind.keyword?]

/-- The tokens that say whether another transaction follows. -/
def chainKinds (chain : Bool) : List TokenKind :=
  if chain then [.keyword .AND, .keyword .CHAIN] else []

@[simp] theorem chainKinds_false : chainKinds false = [] := rfl

theorem firstOf_chainKinds {w : Keyword} (chain : Bool) (hw : w ≠ .AND) :
    firstOf (settle (chainKinds chain)) ≠ .keyword w := by
  intro heq
  cases chain with
  | false => cases heq
  | true => exact hw (TokenKind.keyword.inj heq).symm

theorem reads_optionalChain (chain : Bool) :
    optionalChain.ReadsWith R (settle (chainKinds chain)) chain [] := by
  cases chain <;> simp [optionalChain, chainKinds]

theorem reads_skipTransaction (hwork : firstOf ts ≠ .keyword .WORK)
    (hword : firstOf ts ≠ .keyword .TRANSACTION) : skipTransaction.ReadsWith R ts () ts := by
  simp [skipTransaction, skipWord, hwork, hword]

/-- A statement about transactions is read behind its word. -/
theorem reads_transactionStatement {w : Keyword} {t : TransactionWord} {s : Transaction}
    (hw : TransactionWord.ofWord? w = some t) (h : (transaction t).ReadsWith R ts s []) :
    wholeStatement.ReadsWith R (.keyword w :: ts) (.transaction s) [] := by
  refine reads_wholeStatement (fun hmem => ?_) ?_
  · simp only [List.mem_cons, List.not_mem_nil, or_false] at hmem
    rcases hmem with rfl | rfl | rfl | rfl | rfl | rfl <;> cases hw
  · have hread : (transactionStatement w).ReadsWith R (.keyword w :: ts) (.transaction s) [] := by
      simp only [transactionStatement, hw, bind_eq, reads_skip_bind, List.tail_cons]
      exact Parser.readsWith_bind h ⟨rfl, rfl⟩
    unfold statementOfWord
    split
    iterate 6
      · cases hw
    · exact hread

theorem kindsOf_transaction (s : Transaction) : kindsOf s.pieces = s.kind.words.map .keyword
    ++ ((if s.kind.namesSavepoint then [nameKind (s.savepoint.getD "")] else [])
      ++ (modeKinds s.modes ++ chainKinds s.chain)) := by
  have hmodes : kindsOf (if s.modes.isEmpty then []
      else .gap :: commas (s.modes.map fun m => words m.words)) = modeKinds s.modes := by
    rw [modeKinds]
    cases s.modes with
    | nil => rfl
    | cons m modes =>
      simp only [List.isEmpty_cons, Bool.false_eq_true, if_false, kindsOf_cons, kinds_gap,
        List.nil_append, kindsOf_commas, List.map_map, Function.comp_def, kindsOf_words]
  have hname : kindsOf (if s.kind.namesSavepoint then [.gap, .name (s.savepoint.getD "")] else [])
      = if s.kind.namesSavepoint then [nameKind (s.savepoint.getD "")] else [] := by
    split <;> rfl
  rw [Transaction.pieces, kindsOf_append, kindsOf_append, kindsOf_append, hmodes, hname, kindsOf_words,
    kindsOf_suffixIf, List.append_assoc, List.append_assoc]
  rfl

/-- A statement about transactions is read back. -/
theorem reads_transaction {s : Transaction} (h : s.IsRead) :
    wholeStatement.ReadsWith R (settle (kindsOf s.pieces)) (.transaction s) [] := by
  rw [kindsOf_transaction]
  cases h with
  | @opens k hk modes =>
    have hfirst := firstOf_modeKinds modes
    have hmodes := reads_transactionModes (R := R) modes
    simp only [List.mem_cons, List.not_mem_nil, or_false, not_or] at hk hfirst
    obtain ⟨hwork, hword⟩ := hfirst
    have hskip := reads_skipTransaction (R := R) hwork hword
    rcases hk with rfl | rfl
    · have hbegin : (transaction .begin).ReadsWith R (settle (modeKinds modes))
          { kind := .begin, modes := modes } [] :=
        Parser.readsWith_bind hskip (Parser.readsWith_bind hmodes ⟨rfl, rfl⟩)
      simpa [TransactionKind.words, TransactionKind.namesSavepoint] using
        reads_transactionStatement (w := .BEGIN) rfl hbegin
    · have hstart : (transaction .start).ReadsWith R (.keyword .TRANSACTION :: settle (modeKinds modes))
          { kind := .start, modes := modes } [] := by
        simp only [transaction, bind_eq, reads_expectWord_bind, firstOf_cons, List.tail_cons, true_and]
        exact Parser.readsWith_bind hmodes ⟨rfl, rfl⟩
      simpa [TransactionKind.words, TransactionKind.namesSavepoint] using
        reads_transactionStatement (w := .START) rfl hstart
  | @ends k hk chain =>
    have hchain := reads_optionalChain (R := R) chain
    have hskip : skipTransaction.ReadsWith R (settle (chainKinds chain)) () _ :=
      reads_skipTransaction (firstOf_chainKinds chain (by decide)) (firstOf_chainKinds chain (by decide))
    simp only [List.mem_cons, List.not_mem_nil, or_false] at hk
    rcases hk with rfl | rfl
    · have hcommit : (transaction .commit).ReadsWith R _ { kind := .commit, chain := chain } [] :=
        Parser.readsWith_bind hskip (Parser.readsWith_bind hchain ⟨rfl, rfl⟩)
      simpa [TransactionKind.words, TransactionKind.namesSavepoint] using
        reads_transactionStatement (w := .COMMIT) rfl hcommit
    · have hto : firstOf (settle (chainKinds chain)) ≠ .keyword .TO :=
        firstOf_chainKinds chain (by decide)
      have hrollback : (transaction .rollback).ReadsWith R (settle (chainKinds chain))
          { kind := .rollback, chain := chain } [] := by
        refine Parser.readsWith_bind hskip ?_
        simp only [bind_eq, reads_acceptWord_bind, if_neg hto, Bool.false_eq_true, if_false]
        exact Parser.readsWith_bind hchain ⟨rfl, rfl⟩
      simpa [TransactionKind.words, TransactionKind.namesSavepoint] using
        reads_transactionStatement (w := .ROLLBACK) rfl hrollback
  | @names k hk s hs =>
    have hname : name.ReadsWith R (settle [nameKind s]) s [] := reads_name rfl
    cases k with
    | savepoint =>
      have hsavepoint : (transaction .savepoint).ReadsWith R _ { kind := .savepoint, savepoint := some s }
          [] := Parser.readsWith_bind hname ⟨rfl, rfl⟩
      simpa [TransactionKind.words, TransactionKind.namesSavepoint] using
        reads_transactionStatement (w := .SAVEPOINT) rfl hsavepoint
    | release =>
      have hrelease : (transaction .release).ReadsWith R
          (.keyword .SAVEPOINT :: settle [nameKind s]) { kind := .release, savepoint := some s } [] := by
        simp only [transaction, bind_eq, reads_skipWord_bind, firstOf_cons, if_true, List.tail_cons]
        exact Parser.readsWith_bind hname ⟨rfl, rfl⟩
      simpa [TransactionKind.words, TransactionKind.namesSavepoint] using
        reads_transactionStatement (w := .RELEASE) rfl hrelease
    | rollbackTo =>
      have hrollback : (transaction .rollback).ReadsWith R
          (.keyword .TO :: .keyword .SAVEPOINT :: settle [nameKind s])
          { kind := .rollbackTo, savepoint := some s } [] := by
        refine Parser.readsWith_bind (reads_skipTransaction (by simp) (by simp)) ?_
        simp only [bind_eq, reads_acceptWord_bind, reads_skipWord_bind, firstOf_cons, if_true,
          List.tail_cons]
        exact Parser.readsWith_bind hname ⟨rfl, rfl⟩
      simpa [TransactionKind.words, TransactionKind.namesSavepoint] using
        reads_transactionStatement (w := .ROLLBACK) rfl hrollback
    | _ => cases hk

/-! ### Objects -/

/-- The tokens may stand behind the name of an object: the list of names goes on, or what stands
behind the list. -/
def EndsObject (ts : List TokenKind) : Prop :=
  firstOf ts ∈ [.comma, .eof, .keyword .CASCADE, .keyword .RESTART]

instance : DecidablePred EndsObject :=
  fun ts => inferInstanceAs (Decidable (firstOf ts ∈ [.comma, .eof, .keyword .CASCADE, .keyword .RESTART]))

theorem EndsObject.firstOf_settle (h : EndsObject ts) : firstOf (settle ts) = firstOf ts := by
  cases ts with
  | nil => rfl
  | cons k ts =>
    -- none of these tokens is told by the one behind it
    have hk : k.isSettled = true := by
      simp only [EndsObject, firstOf_cons, List.mem_cons, List.not_mem_nil, or_false] at h
      rcases h with rfl | rfl | rfl | rfl <;> rfl
    rw [settle_cons, firstOf_cons, firstOf_cons, before_eq hk]

theorem EndsObject.isNeutral (h : EndsObject ts) : (firstOf ts).isNeutral = true := by
  simp only [EndsObject, List.mem_cons, List.not_mem_nil, or_false] at h
  rcases h with h | h | h | h <;> rw [h] <;> rfl

theorem EndsObject.ne (h : EndsObject ts) {k : TokenKind}
    (hk : k ∉ [.comma, .eof, .keyword .CASCADE, .keyword .RESTART]) : firstOf (settle ts) ≠ k := by
  rw [h.firstOf_settle]
  rintro rfl
  exact hk h

/-- The tokens of what happens to dependent objects. -/
def behaviorKinds (b : DropBehavior) : List TokenKind :=
  if b == .cascade then [.keyword .CASCADE] else []

theorem reads_dropBehavior (b : DropBehavior) :
    dropBehavior.ReadsWith R (settle (behaviorKinds b)) b [] := by
  cases b <;> simp [behaviorKinds, dropBehavior]

theorem endsObject_behavior (b : DropBehavior) : EndsObject (behaviorKinds b) := by
  cases b <;> decide

/-! ### Removal -/

theorem reads_objectKind (k : ObjectKind) :
    objectKind.ReadsWith R (.keyword k.word :: ts) k ts := by
  cases k <;> exact ⟨rfl, rfl⟩

/-- The tokens of names of objects. -/
def objectKinds (objects : List (List String)) : List TokenKind :=
  commaKinds (objects.map dottedKinds)

/-- Objects are read back from their names. -/
theorem reads_objects {objects : List (List String)} (hsome : objects ≠ [])
    (hobjects : ∀ names ∈ objects, names ≠ []) (hends : EndsObject rest)
    (hcomma : firstOf rest ≠ .comma) :
    (commaList dottedName).ReadsWith R (settle (objectKinds objects ++ rest)) objects
      (settle rest) := by
  obtain ⟨names, objects, rfl⟩ := List.exists_cons_of_ne_nil hsome
  have hitem : ∀ names' ∈ names :: objects, ∀ rest, EndsObject rest →
      dottedName.ReadsWith R (settle (dottedKinds names' ++ rest)) names' (settle rest) :=
    fun names' hmem rest hrest =>
      reads_dottedName (hobjects names' hmem) hrest.isNeutral (hrest.ne (by decide))
  have hlist := reads_commaList (fun _ => .head _) names objects hitem hends
    (hends.firstOf_settle.symm ▸ hcomma)
  rwa [objectKinds, List.map_cons, commaKinds, List.flatMap_map, List.append_assoc]

/-- A name is written bare only if it is no reserved word. -/
theorem nameKind_ne_keyword {w : Keyword} (hw : w.category ≠ .unreserved) (s : String) :
    nameKind s ≠ .keyword w := by
  rcases nameKind_cases s with hs | ⟨w', hs, hw', -⟩ <;> rw [hs]
  · nofun
  · rintro ⟨⟩
    exact hw hw'

/-- The names of objects start with a name, behind which no `EXISTS` stands. -/
theorem firstOf_objects {objects : List (List String)} (hsome : objects ≠ [])
    (hobjects : ∀ names ∈ objects, names ≠ []) (hends : EndsObject rest) :
    ∃ s, firstOf (settle (objectKinds objects ++ rest)) = nameKind s ∧
      secondOf (settle (objectKinds objects ++ rest)) ≠ .keyword .EXISTS := by
  obtain ⟨names, objects, rfl⟩ := List.exists_cons_of_ne_nil hsome
  obtain ⟨s, names, rfl⟩ := List.exists_cons_of_ne_nil (hobjects names List.mem_cons_self)
  let behind := objects.flatMap (fun names => .comma :: dottedKinds names) ++ rest
  have hbehind : EndsObject behind := by
    cases objects with
    | nil => exact hends
    | cons names objects => exact .head _
  have hnext : firstOf (settle (names.flatMap (fun s => [.dot, nameKind s]) ++ behind))
      ≠ .keyword .EXISTS := by
    cases names with
    | nil => exact hbehind.ne (by decide)
    | cons s names => nofun
  have htokens : objectKinds ((s :: names) :: objects) ++ rest
      = nameKind s :: (names.flatMap (fun s => [.dot, nameKind s]) ++ behind) := by
    simp only [objectKinds, List.map_cons, commaKinds, dottedKinds, List.flatMap_map, List.cons_append,
      List.append_assoc, behind]
  refine ⟨s, ?_, ?_⟩
  · rw [htokens, settle_cons, firstOf_cons, before_nameKind (isNeutral_labels names hbehind.isNeutral)]
  · rwa [htokens, settle_cons, secondOf_cons]

theorem reads_dropConcurrently {k : ObjectKind} {concurrently : Bool}
    (hindex : concurrently = true → k = .index)
    (hts : firstOf (settle ts) ≠ .keyword .CONCURRENTLY) :
    (dropConcurrently k).ReadsWith R
      (settle ((if concurrently then [.keyword .CONCURRENTLY] else []) ++ ts)) concurrently
      (settle ts) := by
  cases concurrently with
  | true => simp [dropConcurrently, hindex rfl, acceptWord, accept]
  | false =>
    -- the word is looked for in front of indexes only
    unfold dropConcurrently
    split
    · simp [acceptWord, accept, hts]
    · exact ⟨rfl, rfl⟩

/-- The words for an object that may be missing are told from names by both of them. -/
theorem reads_ifExists (lenient : Bool) (hts : secondOf (settle ts) ≠ .keyword .EXISTS) :
    ifExists.ReadsWith R
      (settle ((if lenient then [.keyword .IF, .keyword .EXISTS] else []) ++ ts)) lenient
      (settle ts) := by
  cases lenient with
  | true => simp [ifExists, isAtWords]
  | false =>
    -- a name that is spelled `if` may stand here
    by_cases hif : firstOf (settle ts) = .keyword .IF <;> simp [ifExists, isAtWords, hif, hts]

theorem kindsOf_drop (s : Drop) : kindsOf s.pieces = .keyword .DROP :: .keyword s.kind.word
    :: ((if s.concurrently then [.keyword .CONCURRENTLY] else [])
      ++ ((if s.ifExists then [.keyword .IF, .keyword .EXISTS] else [])
        ++ (objectKinds s.objects ++ behaviorKinds s.behavior))) := by
  simp [Drop.pieces, objectKinds, behaviorKinds, Function.comp_def]

/-- A statement that removes objects is read back. -/
theorem reads_drop {s : Drop} (h : s.IsRead) :
    wholeStatement.ReadsWith R (settle (kindsOf s.pieces)) (.drop s) [] := by
  have hnames : ∀ names ∈ s.objects, names ≠ [] := fun names hmem => (h.objects names hmem).1
  have hends := endsObject_behavior s.behavior
  obtain ⟨first, hfirst, hsecond⟩ := firstOf_objects h.some hnames hends
  have hconcurrently : firstOf (settle ((if s.ifExists then [.keyword .IF, .keyword .EXISTS] else [])
      ++ (objectKinds s.objects ++ behaviorKinds s.behavior))) ≠ .keyword .CONCURRENTLY := by
    -- behind the word stands `IF` or a name, and the word is no bare name
    cases s.ifExists with
    | true => nofun
    | false =>
      show firstOf (settle (objectKinds s.objects ++ behaviorKinds s.behavior)) ≠ _
      rw [hfirst]
      exact nameKind_ne_keyword (by decide) first
  have hcomma : firstOf (behaviorKinds s.behavior) ≠ .comma := by cases s.behavior <;> nofun
  have hread : drop.ReadsWith R (.keyword s.kind.word :: settle
      ((if s.concurrently then [.keyword .CONCURRENTLY] else [])
        ++ ((if s.ifExists then [.keyword .IF, .keyword .EXISTS] else [])
          ++ (objectKinds s.objects ++ behaviorKinds s.behavior)))) s [] := by
    refine Parser.readsWith_bind (reads_objectKind s.kind) ?_
    refine Parser.readsWith_bind (reads_dropConcurrently h.concurrently hconcurrently) ?_
    refine Parser.readsWith_bind (reads_ifExists s.ifExists hsecond) ?_
    refine Parser.readsWith_bind (reads_objects h.some hnames hends hcomma) ?_
    exact Parser.readsWith_bind (reads_dropBehavior s.behavior) ⟨rfl, rfl⟩
  have hword : (TokenKind.keyword s.kind.word).isSettled = true := by cases s.kind <;> rfl
  rw [kindsOf_drop, settle_cons, before_eq rfl, settle_cons, before_eq hword]
  refine reads_wholeStatement (by decide) ?_
  exact (reads_skip_bind _).mpr (Parser.readsWith_bind hread ⟨rfl, rfl⟩)

/-! ### Emptying -/

theorem kindsOf_table {t : TableRef} (hlabel : t.label = none) :
    kindsOf t.pieces = (if t.only then [.keyword .ONLY] else []) ++ dottedKinds t.names := by
  simp [TableRef.pieces, hlabel, labelPieces, optionalClause]

/-- A table without a name of its own is read back. -/
theorem reads_changedTable {t : TableRef} (ht : t.IsRead) (hlabel : t.label = none)
    (hends : EndsObject rest) :
    changedTable.ReadsWith R (settle (kindsOf t.pieces ++ rest)) t (settle rest) := by
  have hname : tableName.ReadsWith R (settle (dottedKinds t.names ++ rest))
      { t with only := false, label := none } (settle rest) :=
    reads_tableName ht hends.isNeutral (hends.ne (by decide))
  have hstar : firstOf (settle rest) ≠ .star := hends.ne (by decide)
  rw [kindsOf_table hlabel]
  cases honly : t.only with
  | true =>
    have hsame : ({ t with only := true, label := none } : TableRef) = t := by rw [← honly, ← hlabel]
    rw [if_pos rfl, List.singleton_append, List.cons_append, settle_cons, before_eq rfl]
    simp only [changedTable, bind_eq, reads_acceptWord_bind, firstOf_cons, if_true, List.tail_cons]
    exact Parser.readsWith_bind hname ⟨hsame, rfl⟩
  | false =>
    have hsame : ({ t with only := false, label := none } : TableRef) = t := by rw [← honly, ← hlabel]
    -- a name that is spelled `only` is quoted, as the word is reserved
    obtain ⟨s, hs⟩ := exists_firstOf_dotted t.names_ne_nil hends.isNeutral
    have hword : nameKind s ≠ .keyword .ONLY := nameKind_ne_keyword (by decide) s
    rw [if_neg Bool.false_ne_true, List.nil_append]
    simp only [changedTable, bind_eq, reads_acceptWord_bind, hs, if_neg hword]
    refine Parser.readsWith_bind hname ?_
    simp [skipStar, hstar, hsame]

/-- The tokens that say whether sequences start over. -/
def restartKinds (restart : Bool) : List TokenKind :=
  if restart then [.keyword .RESTART, .keyword .IDENTITY] else []

theorem reads_restartIdentity (restart : Bool) (b : DropBehavior) :
    restartIdentity.ReadsWith R (settle (restartKinds restart ++ behaviorKinds b)) restart
      (settle (behaviorKinds b)) := by
  cases restart <;> cases b <;> simp [restartKinds, behaviorKinds, restartIdentity]

theorem kindsOf_truncate (s : Truncate) : kindsOf s.pieces = .keyword .TRUNCATE
    :: (commaKinds (s.tables.map fun t => kindsOf t.pieces)
      ++ (restartKinds s.restartIdentity ++ behaviorKinds s.behavior)) := by
  simp [Truncate.pieces, restartKinds, behaviorKinds, Function.comp_def]

/-- A table starts with its name, or with `ONLY`. -/
theorem firstOf_changedTable {t : TableRef} (hlabel : t.label = none) (hends : EndsObject rest) :
    firstOf (settle (kindsOf t.pieces ++ rest)) ≠ .keyword .TABLE := by
  rw [kindsOf_table hlabel]
  cases t.only with
  | true => nofun
  | false =>
    obtain ⟨s, hs⟩ := exists_firstOf_dotted t.names_ne_nil hends.isNeutral
    rw [if_neg Bool.false_ne_true, List.nil_append, hs]
    exact nameKind_ne_keyword (by decide) s

theorem endsObject_restart (restart : Bool) (b : DropBehavior) :
    EndsObject (restartKinds restart ++ behaviorKinds b) ∧
      firstOf (settle (restartKinds restart ++ behaviorKinds b)) ≠ .comma := by
  cases restart <;> cases b <;> exact ⟨by decide, nofun⟩

/-- A statement that empties tables is read back. -/
theorem reads_truncate {s : Truncate} (h : s.IsRead) :
    wholeStatement.ReadsWith R (settle (kindsOf s.pieces)) (.truncate s) [] := by
  obtain ⟨hends, hcomma⟩ := endsObject_restart s.restartIdentity s.behavior
  obtain ⟨t, tables, htables⟩ := List.exists_cons_of_ne_nil h.some
  have hitem : ∀ u ∈ t :: tables, ∀ rest, EndsObject rest →
      changedTable.ReadsWith R (settle (kindsOf u.pieces ++ rest)) u (settle rest) := by
    intro u hu rest hrest
    obtain ⟨hread, hlabel⟩ := h.tables u (htables ▸ hu)
    exact reads_changedTable hread hlabel hrest
  have hlist := reads_commaList (fun _ => .head _) t tables hitem hends hcomma
  have hbehind : EndsObject (tables.flatMap (fun u => .comma :: kindsOf u.pieces)
      ++ (restartKinds s.restartIdentity ++ behaviorKinds s.behavior)) := by
    cases tables with
    | nil => exact hends
    | cons u tables => exact .head _
  -- so the word `TABLE`, which is not written again, is not taken from the first table
  have hfirst := firstOf_changedTable (h.tables t (htables ▸ List.mem_cons_self)).2 hbehind
  have hread : truncate.ReadsWith R (settle (kindsOf t.pieces
      ++ (tables.flatMap (fun u => .comma :: kindsOf u.pieces)
        ++ (restartKinds s.restartIdentity ++ behaviorKinds s.behavior)))) s [] := by
    simp only [truncate, bind_eq, reads_skipWord_bind, if_neg hfirst]
    refine Parser.readsWith_bind hlist ?_
    refine Parser.readsWith_bind (reads_restartIdentity s.restartIdentity s.behavior) ?_
    refine Parser.readsWith_bind (reads_dropBehavior s.behavior) ⟨?_, rfl⟩
    rw [← htables]
  rw [kindsOf_truncate, htables, List.map_cons, commaKinds, List.flatMap_map, List.append_assoc,
    settle_cons, before_eq rfl]
  refine reads_wholeStatement (by decide) ?_
  exact (reads_skip_bind _).mpr (Parser.readsWith_bind hread ⟨rfl, rfl⟩)

end Grammar

/-! ### How they are written -/

theorem trails_suffixIf (b : Bool) (ws : List Keyword) : Trails (suffixIf b ws) := by
  cases b with
  | false => exact trails_nil
  | true => exact trails_suffixWords ws

theorem Transaction.IsRead.written {s : Transaction} (h : s.IsRead) : Written s.pieces := by
  have hname : Trails (if s.kind.namesSavepoint then [.gap, .name (s.savepoint.getD "")] else []) := by
    cases h with
    | @opens k hk modes | @ends k hk modes =>
      simp only [List.mem_cons, List.not_mem_nil, or_false] at hk
      rcases hk with rfl | rfl <;> exact trails_nil
    | @names k hk s hs =>
      rw [if_pos hk]
      exact (written_name hs).gap
  have hmodes : Trails (if s.modes.isEmpty then []
      else .gap :: commas (s.modes.map fun m => words m.words)) := by
    split
    · exact trails_nil
    · exact (written_commas (List.forall_mem_map.mpr fun m _ => written_words m.words)).gap
  rw [Transaction.pieces]
  exact (((written_words _).append hname).append hmodes).append (trails_suffixIf _ _)

theorem Drop.IsRead.written {s : Drop} (h : s.IsRead) : Written s.pieces := by
  have hobjects : Written (commas (s.objects.map dotted)) :=
    written_commas (List.forall_mem_map.mpr fun names hmem => written_dotted (h.objects names hmem).2)
  have hlist := (hobjects.wordsIf s.ifExists [.IF, .EXISTS]).wordsIf s.concurrently [.CONCURRENTLY]
  have hpieces : s.pieces = words [.DROP, s.kind.word]
      ++ .gap :: (wordsIf s.concurrently [.CONCURRENTLY]
        ++ (wordsIf s.ifExists [.IF, .EXISTS] ++ commas (s.objects.map dotted)))
      ++ suffixIf (s.behavior == .cascade) [.CASCADE] := by
    simp [Drop.pieces]
  rw [hpieces]
  exact ((written_words _).append hlist.gap).append (trails_suffixIf _ _)

theorem Truncate.IsRead.written {s : Truncate} (h : s.IsRead) : Written s.pieces := by
  have htables : Written (commas (s.tables.map TableRef.pieces)) := by
    refine written_commas (List.forall_mem_map.mpr fun t ht => ?_)
    obtain ⟨hread, hlabel⟩ := h.tables t ht
    exact hread.written (hlabel ▸ nofun)
  rw [Truncate.pieces]
  exact ((htables.gap.word .TRUNCATE).append (trails_suffixIf _ _)).append (trails_suffixIf _ _)

/-- **A statement of words and names is read back** from what it is written as. -/
theorem Utility.IsRead.reads {u : Utility} (h : u.IsRead) :
    wholeStatement.ReadsWith R (settle u.node.kinds) u.node [] := by
  cases u with
  | transaction s => exact reads_transaction h
  | drop s => exact reads_drop h
  | truncate s => exact reads_truncate h

theorem Utility.IsRead.written {u : Utility} (h : u.IsRead) : Written u.node.pieces := by
  cases u with
  | transaction s => exact Transaction.IsRead.written h
  | drop s => exact Drop.IsRead.written h
  | truncate s => exact Truncate.IsRead.written h

end SqlSyntax
