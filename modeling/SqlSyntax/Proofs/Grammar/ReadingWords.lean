import SqlSyntax.Lexeme.Resolved
import SqlSyntax.Proofs.Grammar.Reading

/-!
# Reading words, names and lists

What the parsers that all productions share do with the tokens at hand.  Most
lemmas are about such a parser in front of others, so that the parser of a
production can be followed token by token.

## Main definitions

* `settle` — tokens with those keywords settled whose meaning depends on the next.

## Main results

* `reads_accept_bind`, `reads_expect_bind`, … — words at the start of a parser.
* `reads_commaList` — **a list is read from its items with commas between them.**
-/

namespace SqlSyntax

variable {α β : Type} {R : (r : Rule) → List TokenKind → r.Result → List TokenKind → Prop}
variable {ts ts' ts₁ : List TokenKind} {v : β}

/-! ### Settled tokens -/

/-- A token in front of another one. -/
def TokenKind.before (k next : TokenKind) : TokenKind :=
  match k with
  | .keyword w => aheadKind w next.keyword?
  | k => k

/-- The tokens with those keywords settled whose meaning depends on the next. -/
def settle : List TokenKind → List TokenKind
  | [] => []
  | k :: ks => k.before (firstOf ks) :: settle ks

@[simp] theorem settle_nil : settle [] = [] := rfl

@[simp] theorem settle_cons (k : TokenKind) (ks : List TokenKind) :
    settle (k :: ks) = k.before (firstOf ks) :: settle ks := rfl

/-- Most tokens mean the same whatever follows them. -/
def TokenKind.isSettled : TokenKind → Bool
  | .keyword w => w ∉ [.NOT, .NULLS, .WITH, .WITHOUT]
  | _ => true

@[simp] theorem before_keyword (w : Keyword) (next : TokenKind) :
    (TokenKind.keyword w).before next = aheadKind w next.keyword? := rfl

@[simp] theorem aheadKind_eq {w : Keyword} (h : w ∉ [.NOT, .NULLS, .WITH, .WITHOUT])
    (next : Option Keyword) : aheadKind w next = .keyword w := by
  unfold aheadKind
  split <;> first | rfl | exact absurd h (by decide)

theorem before_eq {k : TokenKind} (h : k.isSettled = true) (next : TokenKind) :
    k.before next = k := by
  cases k with
  | keyword w => exact aheadKind_eq (by simpa [TokenKind.isSettled] using h) _
  | _ => rfl

/-- Tokens that mean the same whatever follows them are settled. -/
theorem settle_eq {ks : List TokenKind} (h : ∀ k ∈ ks, k.isSettled = true) : settle ks = ks := by
  induction ks with
  | nil => rfl
  | cons k ks ih =>
    rw [List.forall_mem_cons] at h
    rw [settle_cons, before_eq h.1, ih h.2]

theorem length_settle (ks : List TokenKind) : (settle ks).length = ks.length := by
  induction ks with
  | nil => rfl
  | cons k ks ih => rw [settle, List.length_cons, List.length_cons, ih]

/-! ### Words -/

namespace Grammar

open SqlSyntax.Parser (kind nextKind index skip iterate bind_bind bind_eq unexpected refuse Steps)

@[simp] theorem reads_done (a a' : β) :
    (Parser.done a').ReadsWith R ts a ts' ↔ a' = a ∧ ts = ts' := Iff.rfl

@[simp] theorem reads_done_bind (a : α) (f : α → Parser β) :
    ((Parser.done a).bind f).ReadsWith R ts v ts' ↔ (f a).ReadsWith R ts v ts' := Iff.rfl

@[simp] theorem reads_bind_bind {γ : Type} (p : Parser α) (f : α → Parser γ) (g : γ → Parser β) :
    ((p.bind f).bind g).ReadsWith R ts v ts'
      ↔ (p.bind fun a => (f a).bind g).ReadsWith R ts v ts' := by
  rw [bind_bind]

@[simp] theorem reads_kind_bind (f : TokenKind → Parser β) :
    (kind.bind f).ReadsWith R ts v ts' ↔ (f (firstOf ts)).ReadsWith R ts v ts' := Iff.rfl

@[simp] theorem reads_nextKind_bind (f : TokenKind → Parser β) :
    (nextKind.bind f).ReadsWith R ts v ts' ↔ (f (secondOf ts)).ReadsWith R ts v ts' := Iff.rfl

@[simp] theorem reads_index_bind (f : Nat → Parser β) :
    (index.bind f).ReadsWith R ts v ts' ↔ ∀ n, (f n).ReadsWith R ts v ts' := Iff.rfl

@[simp] theorem reads_skip_bind (f : Unit → Parser β) :
    (skip.bind f).ReadsWith R ts v ts' ↔ (f ()).ReadsWith R ts.tail v ts' := Iff.rfl

@[simp] theorem reads_isAt_bind (k : TokenKind) (f : Bool → Parser β) :
    ((isAt k).bind f).ReadsWith R ts v ts' ↔ (f (firstOf ts = k)).ReadsWith R ts v ts' := Iff.rfl

@[simp] theorem reads_isAtWord_bind (w : Keyword) (f : Bool → Parser β) :
    ((isAtWord w).bind f).ReadsWith R ts v ts'
      ↔ (f (firstOf ts = .keyword w)).ReadsWith R ts v ts' := Iff.rfl

@[simp] theorem reads_isBefore_bind (k : TokenKind) (f : Bool → Parser β) :
    ((isBefore k).bind f).ReadsWith R ts v ts' ↔ (f (secondOf ts = k)).ReadsWith R ts v ts' :=
  Iff.rfl

@[simp] theorem reads_accept_bind (k : TokenKind) (f : Bool → Parser β) :
    ((accept k).bind f).ReadsWith R ts v ts'
      ↔ if firstOf ts = k then (f true).ReadsWith R ts.tail v ts'
        else (f false).ReadsWith R ts v ts' := by
  by_cases h : firstOf ts = k <;> simp [accept, h]

@[simp] theorem reads_acceptWord_bind (w : Keyword) (f : Bool → Parser β) :
    ((acceptWord w).bind f).ReadsWith R ts v ts'
      ↔ if firstOf ts = .keyword w then (f true).ReadsWith R ts.tail v ts'
        else (f false).ReadsWith R ts v ts' :=
  reads_accept_bind _ f

@[simp] theorem reads_skipWord_bind (w : Keyword) (f : Unit → Parser β) :
    ((skipWord w).bind f).ReadsWith R ts v ts'
      ↔ if firstOf ts = .keyword w then (f ()).ReadsWith R ts.tail v ts'
        else (f ()).ReadsWith R ts v ts' := by
  simp [skipWord]

@[simp] theorem reads_expect_bind (k : TokenKind) (f : Unit → Parser β) :
    ((expect k).bind f).ReadsWith R ts v ts'
      ↔ firstOf ts = k ∧ (f ()).ReadsWith R ts.tail v ts' := by
  by_cases h : firstOf ts = k <;>
    simp [expect, h, unexpected, refuse, Parser.bind, Parser.ReadsWith]

@[simp] theorem reads_expectWord_bind (w : Keyword) (f : Unit → Parser β) :
    ((expectWord w).bind f).ReadsWith R ts v ts'
      ↔ firstOf ts = .keyword w ∧ (f ()).ReadsWith R ts.tail v ts' :=
  reads_expect_bind _ f

@[simp] theorem reads_readAs_bind (a : α) (e : Expected) (f : α → Parser β) :
    ((readAs (some a) e).bind f).ReadsWith R ts v ts' ↔ (f a).ReadsWith R ts.tail v ts' := Iff.rfl

theorem reads_parenthesized {p : Parser α} {a : α} (hp : p.ReadsWith R ts a (.rightParen :: ts')) :
    (parenthesized p).ReadsWith R (.leftParen :: ts) a ts' := by
  simp only [parenthesized, bind_eq, reads_expect_bind, firstOf_cons, List.tail_cons, true_and]
  refine Parser.readsWith_bind hp ?_
  simp

theorem reads_after {w : Keyword} {p : Parser α} {a : α} (hp : p.ReadsWith R ts a ts') :
    (after w p).ReadsWith R (.keyword w :: ts) (some a) ts' := by
  simp only [after, bind_eq, reads_acceptWord_bind, firstOf_cons, if_true, List.tail_cons]
  exact Parser.readsWith_bind hp ⟨rfl, rfl⟩

theorem reads_after_none {w : Keyword} {p : Parser α} (h : firstOf ts ≠ .keyword w) :
    (after w p).ReadsWith R ts none ts := by
  simp [after, h]

theorem reads_listAfter {w : Keyword} {p : Parser (List α)} {as : List α}
    (hp : p.ReadsWith R ts as ts') : (listAfter w p).ReadsWith R (.keyword w :: ts) as ts' := by
  simpa [listAfter] using hp

theorem reads_listAfter_nil {w : Keyword} {p : Parser (List α)} (h : firstOf ts ≠ .keyword w) :
    (listAfter w p).ReadsWith R ts [] ts := by
  simp [listAfter, h]

/-! ### Lists -/

/-- Further items of a list are read, each after its mark. -/
theorem reads_itemsAfter {mark : TokenKind} {item : Parser α} {write : α → List TokenKind}
    {p : List TokenKind → Prop} (hmark : mark.isSettled = true)
    (hok : ∀ rest, p (mark :: rest)) (items : List α)
    (hitem : ∀ a ∈ items, ∀ rest, p rest →
      item.ReadsWith R (settle (write a ++ rest)) a (settle rest))
    (first : List α) {rest : List TokenKind} (hrest : p rest) (hend : firstOf (settle rest) ≠ mark) :
    (itemsAfter mark item first).ReadsWith R
      (settle (items.flatMap (fun a => mark :: write a) ++ rest)) (first ++ items) (settle rest) := by
  have hsteps : Steps R (moreItems mark item) first.reverse
      (settle (items.flatMap (fun a => mark :: write a) ++ rest)) (first ++ items).reverse
      (settle rest) := by
    induction items generalizing first with
    | nil =>
      rw [List.append_nil]
      exact .last (by simp [moreItems, hend])
    | cons a items ih =>
      have hnext : p (items.flatMap (fun a => mark :: write a) ++ rest) := by
        cases items with
        | nil => exact hrest
        | cons b items => exact hok _
      have hread := hitem a List.mem_cons_self _ hnext
      have ih := ih (fun b hb => hitem b (List.mem_cons_of_mem a hb)) (first ++ [a])
      rw [List.append_assoc, List.singleton_append, List.reverse_append] at ih
      refine .more (t := a :: first.reverse) ?_ ?_ ih
      · rw [List.flatMap_cons, List.append_assoc, List.cons_append, settle_cons, before_eq hmark]
        simp only [moreItems, bind_eq, reads_accept_bind, firstOf_cons, if_true, List.tail_cons]
        exact Parser.readsWith_bind hread ⟨rfl, rfl⟩
      · simp only [length_settle, List.flatMap_cons, List.length_append, List.length_cons]
        omega
  have hread := hsteps.reads
  refine Parser.readsWith_bind hread ?_
  simp

/-- A list is read from its items with commas between them. -/
theorem reads_commaList {item : Parser α} {write : α → List TokenKind}
    {p : List TokenKind → Prop} (hok : ∀ rest, p (.comma :: rest)) (a : α) (items : List α)
    (hitem : ∀ b ∈ a :: items, ∀ rest, p rest →
      item.ReadsWith R (settle (write b ++ rest)) b (settle rest))
    {rest : List TokenKind} (hrest : p rest) (hend : firstOf (settle rest) ≠ .comma) :
    (commaList item).ReadsWith R
      (settle (write a ++ (items.flatMap (fun b => .comma :: write b) ++ rest))) (a :: items)
      (settle rest) := by
  have hnext : p (items.flatMap (fun b => .comma :: write b) ++ rest) := by
    cases items with
    | nil => exact hrest
    | cons b items => exact hok _
  refine Parser.readsWith_bind (hitem a List.mem_cons_self _ hnext) ?_
  exact reads_itemsAfter rfl hok items (fun b hb => hitem b (List.mem_cons_of_mem a hb)) [a] hrest
    hend

end Grammar

end SqlSyntax
