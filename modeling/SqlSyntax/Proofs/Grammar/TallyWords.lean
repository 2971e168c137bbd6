import SqlSyntax.Grammar.Enclosed
import SqlSyntax.Proofs.Grammar.Tallying

/-!
# Words, lists and names keep the account

Words and names are no parameters.  A list holds what its items hold.

## Main definitions

* `TokenKind.Plain` — a token that is no parameter.

## Main results

* `tallies_isAt_bind`, `tallies_isBefore_bind` — what a test for a token makes known.
* `quiet_readAs` — a token that is read for what it stands for.
* `tallies_commaList`, `tallies_after` — lists and optional parts.
-/

namespace SqlSyntax

/-- The token is no parameter. -/
class TokenKind.Plain (k : TokenKind) : Prop where
  params_eq : k.params = 0

instance (w : Keyword) : TokenKind.Plain (.keyword w) := ⟨rfl⟩

instance : TokenKind.Plain .comma := ⟨rfl⟩

instance : TokenKind.Plain .dot := ⟨rfl⟩

instance : TokenKind.Plain .star := ⟨rfl⟩

instance : TokenKind.Plain .colon := ⟨rfl⟩

instance : TokenKind.Plain .eq := ⟨rfl⟩

instance : TokenKind.Plain .leftParen := ⟨rfl⟩

instance : TokenKind.Plain .rightParen := ⟨rfl⟩

instance : TokenKind.Plain .leftBracket := ⟨rfl⟩

instance : TokenKind.Plain .rightBracket := ⟨rfl⟩

instance : TokenKind.Plain .nullsAhead := ⟨rfl⟩

instance : TokenKind.Plain .withAhead := ⟨rfl⟩

namespace Grammar

open SqlSyntax.Parser

variable {α β : Type} {known : Nat} {held : Multiset Int} {u : α → Multiset Int}
  {w : β → Multiset Int}

/-! ### Tests for a token -/

section Tests

variable (k : TokenKind) [hk : k.Plain] {f : Bool → Parser β} {p q : Parser β}

/-- The two outcomes of a test that reads no parameters. -/
theorem tallies_test_bind {test : Parser Bool} [test.QuietFrom known]
    (hfound : (f true).TalliesFrom 0 held w) (hmissing : (f false).TalliesFrom 0 held w) :
    (test >>= f).TalliesFrom known held w :=
  quiet_bind fun found => match found with
    | true => hfound
    | false => hmissing

/-- Behind a test for a token that is no parameter, the token may be passed over. -/
theorem tallies_isAt_bind (hfound : (f true).TalliesFrom 1 held w)
    (hmissing : (f false).TalliesFrom 0 held w) : (isAt k >>= f).TalliesFrom 0 held w := by
  refine tallies_kind_bind (fun m => ?_) fun k' hk' => ?_
  · have hne : TokenKind.param m ≠ k := by
      rintro rfl
      exact absurd hk.params_eq (Multiset.singleton_ne_zero m)
    rw [decide_eq_false hne]
    exact hmissing
  · by_cases heq : k' = k
    · rw [decide_eq_true heq]
      exact hfound
    · rw [decide_eq_false heq]
      exact hmissing.of_le (Nat.zero_le 1)

/-- The same for the token behind one that is no parameter. -/
theorem tallies_isBefore_bind (hfound : (f true).TalliesFrom 2 held w)
    (hmissing : (f false).TalliesFrom 1 held w) : (isBefore k >>= f).TalliesFrom 1 held w := by
  refine tallies_nextKind_bind (fun m => ?_) fun k' hk' => ?_
  · have hne : TokenKind.param m ≠ k := by
      rintro rfl
      exact absurd hk.params_eq (Multiset.singleton_ne_zero m)
    rw [decide_eq_false hne]
    exact hmissing
  · by_cases heq : k' = k
    · rw [decide_eq_true heq]
      exact hfound
    · rw [decide_eq_false heq]
      exact hmissing.of_le (Nat.le_succ 1)

omit hk in
instance : (isBefore k).Still := by
  unfold isBefore
  infer_instance

instance [hp : p.QuietFrom 1] [hq : q.Quiet] :
    (isAt k >>= fun found => if found = true then p else q).Quiet :=
  ⟨tallies_isAt_bind k hp.tallies hq.tallies⟩

instance [hp : p.QuietFrom 2] [hq : q.QuietFrom 1] :
    (isBefore k >>= fun found => if found = true then p else q).QuietFrom 1 :=
  ⟨tallies_isBefore_bind k hp.tallies hq.tallies⟩

instance : (isAt k).Quiet :=
  ⟨tallies_isAt_bind k (tallies_pure rfl) (tallies_pure rfl)⟩

instance : (isBefore k).QuietFrom 1 :=
  ⟨tallies_isBefore_bind k (tallies_pure rfl) (tallies_pure rfl)⟩

instance : (accept k).Quiet := by
  unfold accept
  infer_instance

instance : (expect k).Quiet := by
  unfold expect
  infer_instance

end Tests

section Words

variable (v w : Keyword) {f : Bool → Parser β} {p q : Parser β} {u : β → Multiset Int}

instance [p.QuietFrom 1] [q.Quiet] :
    (isAtWord w >>= fun found => if found = true then p else q).Quiet := by
  unfold isAtWord
  infer_instance

instance : (isAtWord w).Quiet := by
  unfold isAtWord
  infer_instance

/-- Behind a test for two keywords, both may be passed over. -/
theorem tallies_isAtWords_bind (hfound : (f true).TalliesFrom 2 held u)
    (hmissing : (f false).TalliesFrom 0 held u) :
    (isAtWords v w >>= f).TalliesFrom 0 held u := by
  unfold isAtWords
  rw [bind_assoc]
  refine tallies_isAt_bind (.keyword v) ?_ hmissing
  exact tallies_isBefore_bind (.keyword w) hfound (hmissing.of_le (Nat.zero_le 1))

instance [hp : p.QuietFrom 2] [hq : q.Quiet] :
    (isAtWords v w >>= fun found => if found = true then p else q).Quiet :=
  ⟨tallies_isAtWords_bind v w hp.tallies hq.tallies⟩

instance : (acceptWord w).Quiet := by
  unfold acceptWord
  infer_instance

instance : (skipWord w).Quiet := by
  unfold skipWord
  infer_instance

instance : (expectWord w).Quiet := by
  unfold expectWord
  infer_instance

/-- What stands behind a keyword that may be missing. -/
theorem tallies_after (hp : p.Tallies u) : (after w p).Tallies fun o => total u o.toList := by
  refine tallies_test_bind ?_ (tallies_pure rfl)
  exact hp.bind fun a => tallies_pure (by simp)

theorem tallies_listAfter {p : Parser (List α)} {u : α → Multiset Int} (hp : p.Tallies (total u)) :
    (listAfter w p).Tallies (total u) :=
  tallies_test_bind hp (tallies_pure rfl)

instance [hp : p.Quiet] : (after w p).Quiet := by
  unfold after
  infer_instance

instance {p : Parser (List α)} [p.Quiet] : (listAfter w p).Quiet := by
  unfold listAfter
  infer_instance

end Words

/-! ### Lists -/

section Lists

variable (mark : TokenKind) [mark.Plain] {item : Parser α}

theorem tallies_parenthesized (hitem : item.TalliesFrom 0 held u) :
    (parenthesized item).TalliesFrom 0 held u :=
  quiet_bind fun _ => hitem.trans fun _ => quiet_bind fun _ => tallies_pure rfl

/-- Items behind others: all that have been read are in hand. -/
theorem tallies_itemsAfter (hitem : item.Tallies u) (items : List α) :
    (itemsAfter mark item items).TalliesFrom 0 (total u items) (total u) := by
  have hstep (found : List α) : (moreItems mark item found).TalliesFrom 0 (total u found)
      fun more => total u (more.getD found) := by
    refine tallies_test_bind ?_ (tallies_pure rfl)
    exact hitem.bind fun a => tallies_pure (by simp [add_comm])
  have hall := tallies_iterate hstep items.reverse
  rw [total_reverse] at hall
  exact hall.trans fun found => tallies_pure (total_reverse u found).symm

theorem tallies_commaList (hitem : item.Tallies u) : (commaList item).Tallies (total u) := by
  refine hitem.bind fun a => ?_
  have hmore := tallies_itemsAfter .comma hitem [a]
  simpa using hmore

variable (item) [hitem : item.Quiet] (items : List α)

instance : (parenthesized item).Quiet :=
  ⟨tallies_parenthesized hitem.tallies⟩

instance : (moreItems mark item items).Quiet := by
  unfold moreItems
  infer_instance

instance : (itemsAfter mark item items).Quiet := by
  unfold itemsAfter
  infer_instance

instance : (commaList item).Quiet := by
  unfold commaList
  infer_instance

end Lists

/-! ### Names -/

instance : integer.Quiet := by
  unfold integer
  refine quiet_kind (fun m => inferInstanceAs (unexpected _).Quiet) fun k _ => ?_
  split <;> infer_instance

instance (value : Option α) (expected : Expected) : (readAs value expected).QuietFrom 1 := by
  unfold readAs
  cases value <;> infer_instance

/-- A token may be read for what it stands for if a parameter stands for nothing. -/
theorem quiet_readAs {value : TokenKind → Option α} (hvalue : ∀ m, value (.param m) = none)
    (expected : Expected) : (kind >>= fun k => readAs (value k) expected).Quiet := by
  refine quiet_kind (fun m => ?_) fun k _ => inferInstance
  rw [hvalue]
  exact inferInstanceAs (unexpected expected).Quiet

instance : name.Quiet := quiet_readAs (fun _ => rfl) _

instance : callName.Quiet := quiet_readAs (fun _ => rfl) _

instance : label.Quiet := quiet_readAs (fun _ => rfl) _

instance : columnLabel.Quiet := by
  unfold columnLabel
  refine quiet_kind (fun m => inferInstanceAs label.Quiet) fun k _ => ?_
  split <;> infer_instance

instance : dottedName.Quiet := by
  unfold dottedName
  infer_instance

instance (first : Nat) (names : List String) : (tableOfNames first names).Quiet := by
  unfold tableOfNames
  split <;> infer_instance

instance : tableName.Quiet := by
  unfold tableName
  infer_instance

instance : nameList.Quiet := by
  unfold nameList
  infer_instance

instance : optionalNameList.Quiet := by
  unfold optionalNameList
  infer_instance

instance : optionalAlias.Quiet := by
  unfold optionalAlias
  have hkind (explicit : Bool) : (kind >>= fun k =>
      if explicit || (isName k && k != .keyword .SET) then (do
        let s ← name
        return some { name := s, columns := ← optionalNameList })
      else return none : Parser (Option Alias)).Quiet :=
    quiet_kind (fun _ => inferInstance) fun _ _ => inferInstance
  infer_instance

/-! ### Rules -/

theorem tallies_operand (above : Level) : (operand above).Tallies Node.params :=
  tallies_call fun n => tallies_pure (zero_add n.params)

theorem tallies_expression : expression.Tallies Node.params :=
  tallies_operand 0

theorem tallies_expressions : expressions.Tallies (total Node.params) :=
  tallies_commaList tallies_expression

theorem tallies_query : query.Tallies Select.params :=
  tallies_call fun _ => tallies_pure (zero_add _)

theorem tallies_enclosedContent : enclosedContent.Tallies Enclosed.params :=
  tallies_call fun _ => tallies_pure (zero_add _)

theorem tallies_enclosedSourceContent : enclosedSourceContent.Tallies Enclosed.params :=
  tallies_call fun _ => tallies_pure (zero_add _)

theorem tallies_valueOrDefault : valueOrDefault.Tallies Node.params :=
  tallies_test_bind (tallies_pure Node.params_default.symm) tallies_expression

theorem tallies_optionalCondition :
    optionalCondition.Tallies fun o => total Node.params o.toList :=
  tallies_after .WHERE tallies_expression

end Grammar

end SqlSyntax
