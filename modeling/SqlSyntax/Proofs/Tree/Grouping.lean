import SqlSyntax.Tree.Building
import SqlSyntax.Tree.Level

/-!
# Grouped operations

Operations on columns group by their levels: a left operand binds at least as
tightly as its operator, a right one more tightly, and all that `AND` or `OR` joins stands in one
list.  A tree that is grouped so is determined by its columns and operators from left to
right.

## Main definitions

* `Link` — what stands between two operands: a connective or an operator.
* `Node.inorder` — the columns and links of an expression from left to right.
* `Node.Grouped` — the expressions of columns and links that are grouped by level.

## Main results

* `Link.grouped_join` — joining keeps expressions grouped.
* `Node.Grouped.eq_of_inorder` — **columns and links from left to right determine a grouped
  expression.**
-/

namespace SqlSyntax

/-! ### Links -/

/-- What stands between two operands. -/
inductive Link
  | or | and
  /-- An operator by its name. -/
  | operator (op : String)
  deriving DecidableEq, Repr

namespace Link

/-- The level of a link. -/
def level : Link → Level
  | or => Level.or
  | and => Level.and
  | operator op => Level.ofOperator op

/-- Two operands with a link between them. -/
def join : Link → Node → Node → Node
  | or => Node.joined .or
  | and => Node.joined .and
  | operator op => Node.binary op

end Link

/-- The link that a connective is; a negation is none. -/
def Junction.link? : Junction → Option Link
  | .or => some .or
  | .and => some .and
  | .not => none

/-! ### From left to right -/

/-- A column with a plain name, or a link. -/
inductive ChainItem
  | column (name : String)
  | link (l : Link)
  deriving DecidableEq, Repr

mutual

/-- The columns and links of an expression from left to right; other expressions have
none. -/
def Node.inorder : Node → List ChainItem
  | .column [.name s] => [.column s]
  | .operation .op op (some l) (some r) => l.inorder ++ .link (.operator op) :: r.inorder
  | .junction op (n :: ns) =>
    match op.link? with
    | some l => n.inorder ++ inorderAfter l ns
    | none => []
  | _ => []
termination_by structural n => n

/-- The columns and links of further operands, each behind the same link. -/
def inorderAfter (l : Link) : List Node → List ChainItem
  | [] => []
  | n :: ns => .link l :: (n.inorder ++ inorderAfter l ns)
termination_by structural ns => ns

end

theorem inorder_ofNames (s : String) : (Node.ofNames [s]).inorder = [.column s] := by
  simp [Node.ofNames, Node.inorder]

theorem inorder_binary (op : String) (n m : Node) :
    (Node.binary op n m).inorder = n.inorder ++ .link (.operator op) :: m.inorder := by
  rw [Node.binary, Node.inorder]

theorem inorder_junction {op : Junction} {l : Link} (hl : op.link? = some l) (n : Node)
    (ns : List Node) : (Node.junction op (n :: ns)).inorder = n.inorder ++ inorderAfter l ns := by
  rw [Node.inorder]
  simp [hl]

theorem inorderAfter_append (l : Link) (ns ms : List Node) :
    inorderAfter l (ns ++ ms) = inorderAfter l ns ++ inorderAfter l ms := by
  induction ns with
  | nil => simp [inorderAfter]
  | cons n ns ih => simp [inorderAfter, ih]

/-! ### Grouped expressions -/

/-- The expressions of columns and links that are grouped by level. -/
inductive Node.Grouped : Node → Prop
  | column (s : String) : Grouped (Node.ofNames [s])
  /-- Equal levels group to the left. -/
  | binary {op : String} {n m : Node} (hn : Grouped n) (hm : Grouped m)
    (left : Level.ofOperator op ≤ n.level) (right : Level.ofOperator op < m.level) :
    Grouped (Node.binary op n m)
  /-- All that a connective joins stands in one list. -/
  | junction {op : Junction} {l : Link} (hl : op.link? = some l) {n : Node} {ns : List Node}
    (several : ns ≠ []) (hns : ∀ m ∈ n :: ns, Grouped m) (higher : ∀ m ∈ n :: ns, l.level < m.level) :
    Grouped (.junction op (n :: ns))

theorem level_junction {op : Junction} {l : Link} (hl : op.link? = some l) (ns : List Node) :
    (Node.junction op ns).level = l.level := by
  cases op <;> cases hl <;> rfl

theorem level_ofNames (names : List String) : (Node.ofNames names).level = Level.primary := rfl

theorem level_binary (op : String) (n m : Node) :
    (Node.binary op n m).level = Level.ofOperator op := rfl

/-- A connective binds less tightly than any operator. -/
theorem level_lt_ofOperator {op : Junction} {l : Link} (hl : op.link? = some l) (s : String) :
    l.level < Level.ofOperator s := by
  unfold Level.ofOperator
  cases op <;> cases hl <;> (repeat' split) <;> decide

/-- A grouped expression of the level of a connective is joined by it. -/
theorem Node.Grouped.eq_junction {n : Node} (h : n.Grouped) {op : Junction} {l : Link}
    (hl : op.link? = some l) (hlevel : n.level = l.level) : ∃ ns, n = .junction op ns := by
  cases h with
  | column s =>
    rw [level_ofNames] at hlevel
    cases op <;> cases hl <;> exact absurd hlevel (by decide)
  | @binary s =>
    rw [level_binary] at hlevel
    exact absurd hlevel.symm (Nat.ne_of_lt (level_lt_ofOperator hl s))
  | @junction op' l' hl' =>
    rw [level_junction hl'] at hlevel
    cases op <;> cases hl <;> cases op' <;> cases hl' <;> first | exact ⟨_, rfl⟩ | cases hlevel

/-! ### Joining -/

/-- What comes of two operands with a link between them. -/
structure Link.Joins (l : Link) (n m joined : Node) : Prop where
  grouped : joined.Grouped
  level : joined.level = l.level
  inorder : joined.inorder = n.inorder ++ .link l :: m.inorder

/-- Operands that a connective joins: the left one may be joined by it already. -/
theorem Junction.joins {op : Junction} {l : Link} (hl : op.link? = some l) {n m : Node}
    (hn : n.Grouped) (hm : m.Grouped) (left : l.level ≤ n.level) (right : l.level < m.level) :
    l.Joins n m (Node.joined op n m) := by
  obtain heq | hlt := Nat.eq_or_lt_of_le left
  · -- the left operand has the connective at its root, and its list grows
    obtain ⟨ns, rfl⟩ := hn.eq_junction hl heq.symm
    cases hn with
    | @junction _ l' hl' first more several hns higher =>
      obtain rfl : l' = l := Option.some.inj (hl'.symm.trans hl)
      have hjoined : Node.joined op (.junction op (first :: more)) m
          = .junction op (first :: (more ++ [m])) := if_pos rfl
      rw [hjoined]
      refine ⟨.junction hl (by simp) ?_ ?_, level_junction hl _, ?_⟩
      · simpa [or_imp, forall_and, hm] using hns
      · simpa [or_imp, forall_and, right] using higher
      · simp [inorder_junction hl, inorderAfter_append, inorderAfter]
  · -- the left operand binds more tightly, and a list of two starts
    have hjoined : Node.joined op n m = .junction op [n, m] := by
      unfold Node.joined
      split
      · next op' ns =>
        rw [if_neg]
        rintro rfl
        exact absurd (level_junction hl ns) (Nat.ne_of_gt hlt)
      · rfl
    rw [hjoined]
    refine ⟨.junction hl (by simp) ?_ ?_, level_junction hl _, ?_⟩
    · simp [hn, hm]
    · simp [hlt, right]
    · simp [inorder_junction hl, inorderAfter]

/-- Joining keeps expressions grouped, with what they hold in order. -/
theorem Link.grouped_join (l : Link) {n m : Node} (hn : n.Grouped) (hm : m.Grouped)
    (left : l.level ≤ n.level) (right : l.level < m.level) : l.Joins n m (l.join n m) := by
  cases l with
  | or => exact Junction.joins (show Junction.or.link? = some .or from rfl) hn hm left right
  | and => exact Junction.joins (show Junction.and.link? = some .and from rfl) hn hm left right
  | operator op => exact ⟨.binary hn hm left right, rfl, inorder_binary op n m⟩

/-! ### Only one expression -/

theorem mem_inorderAfter {l k : Link} {ns : List Node} (h : .link l ∈ inorderAfter k ns) :
    l = k ∨ ∃ n ∈ ns, .link l ∈ n.inorder := by
  induction ns with
  | nil => cases h
  | cons n ns ih =>
    rw [inorderAfter, List.mem_cons, List.mem_append] at h
    obtain h | h | h := h
    · exact .inl (ChainItem.link.inj h)
    · exact .inr ⟨n, List.mem_cons_self, h⟩
    · exact (ih h).imp_right fun ⟨m, hm, h⟩ => ⟨m, List.mem_cons_of_mem n hm, h⟩

/-- The links of an expression bind at least as tightly as it does itself. -/
theorem Node.Grouped.level_le {n : Node} (h : n.Grouped) {l : Link} (hl : .link l ∈ n.inorder) :
    n.level ≤ l.level := by
  induction h with
  | column s => simp [inorder_ofNames] at hl
  | @binary op n m hn hm left right ihn ihm =>
    rw [inorder_binary, List.mem_append, List.mem_cons] at hl
    rw [level_binary]
    obtain hl | hl | hl := hl
    · exact Nat.le_trans left (ihn hl)
    · cases hl
      exact Nat.le_refl _
    · exact Nat.le_trans (Nat.le_of_lt right) (ihm hl)
  | @junction op k hk n ns several hns higher ih =>
    have hoperand : ∀ m ∈ n :: ns, .link l ∈ m.inorder → k.level ≤ l.level := fun m hm hl =>
      Nat.le_trans (Nat.le_of_lt (higher m hm)) (ih m hm hl)
    rw [inorder_junction hk, List.mem_append] at hl
    rw [level_junction hk]
    obtain hl | hl := hl
    · exact hoperand n List.mem_cons_self hl
    · obtain rfl | ⟨m, hm, hl⟩ := mem_inorderAfter hl
      · exact Nat.le_refl _
      · exact hoperand m (List.mem_cons_of_mem n hm) hl

/-- An expression is a column or has a link of its own level. -/
theorem Node.Grouped.root {n : Node} (h : n.Grouped) :
    (∃ s, n = Node.ofNames [s]) ∨ ∃ l, .link l ∈ n.inorder ∧ l.level = n.level := by
  cases h with
  | column s => exact .inl ⟨s, rfl⟩
  | @binary op => exact .inr ⟨.operator op, by simp [inorder_binary], rfl⟩
  | @junction _ l hl n ns several =>
    obtain ⟨m, ms, rfl⟩ := List.exists_cons_of_ne_nil several
    exact .inr ⟨l, by simp [inorder_junction hl, inorderAfter], (level_junction hl _).symm⟩

/-- Expressions with the same columns and links have the same level. -/
theorem Node.Grouped.level_eq {n m : Node} (hn : n.Grouped) (hm : m.Grouped)
    (h : n.inorder = m.inorder) : n.level = m.level := by
  obtain ⟨s, rfl⟩ | ⟨l, hl, hlevel⟩ := hn.root
  · obtain ⟨s', rfl⟩ | ⟨k, hk, -⟩ := hm.root
    · rfl
    · simp [← h, inorder_ofNames] at hk
  · obtain ⟨s', rfl⟩ | ⟨k, hk, hlevel'⟩ := hm.root
    · simp [h, inorder_ofNames] at hl
    · exact Nat.le_antisymm (hlevel' ▸ hn.level_le (h ▸ hk)) (hlevel ▸ hm.level_le (h ▸ hl))

/-- The last of the loosest items splits a list.  Items without a rank do not count. -/
theorem append_cons_inj {α : Type} (rank : α → Option Nat) {as bs as' bs' : List α} {a a' : α}
    {l l' : Nat} (ha : rank a = some l) (ha' : rank a' = some l')
    (h : as ++ a :: bs = as' ++ a' :: bs') (has : ∀ b ∈ as, ∀ k ∈ rank b, l ≤ k)
    (hbs : ∀ b ∈ bs, ∀ k ∈ rank b, l < k) (has' : ∀ b ∈ as', ∀ k ∈ rank b, l' ≤ k)
    (hbs' : ∀ b ∈ bs', ∀ k ∈ rank b, l' < k) : as = as' ∧ a = a' ∧ bs = bs' := by
  -- an item that splits at another place would bind both more tightly and less tightly
  obtain ⟨cs, rfl, hcs⟩ | ⟨cs, rfl, hcs⟩ := List.append_eq_append_iff.mp h
  · cases cs with
    | nil =>
      obtain ⟨rfl, rfl⟩ := List.cons.inj hcs
      exact ⟨by simp, rfl, rfl⟩
    | cons c cs =>
      obtain ⟨rfl, rfl⟩ := List.cons.inj hcs
      exact absurd (hbs a' (by simp) l' ha') (Nat.not_lt.mpr (has' a (by simp) l ha))
  · cases cs with
    | nil =>
      obtain ⟨rfl, rfl⟩ := List.cons.inj hcs
      exact ⟨by simp, rfl, rfl⟩
    | cons c cs =>
      obtain ⟨rfl, rfl⟩ := List.cons.inj hcs
      exact absurd (hbs' a (by simp) l ha) (Nat.not_lt.mpr (has a' (by simp) l' ha'))

/-- The level of an item that is a link. -/
def ChainItem.level? : ChainItem → Option Level
  | column _ => none
  | link l => some l.level

/-- The last of the loosest links splits a list. -/
theorem append_link_inj {as bs as' bs' : List ChainItem} {l l' : Link}
    (h : as ++ .link l :: bs = as' ++ .link l' :: bs')
    (has : ∀ k, .link k ∈ as → l.level ≤ k.level) (hbs : ∀ k, .link k ∈ bs → l.level < k.level)
    (has' : ∀ k, .link k ∈ as' → l'.level ≤ k.level)
    (hbs' : ∀ k, .link k ∈ bs' → l'.level < k.level) : as = as' ∧ l = l' ∧ bs = bs' := by
  have hlinks {P : Level → Prop} {is : List ChainItem} (hP : ∀ k, .link k ∈ is → P k.level) :
      ∀ i ∈ is, ∀ k ∈ i.level?, P k := by
    intro i hi k hk
    cases i with
    | column => cases hk
    | link j =>
      cases hk
      exact hP j hi
  have hsplit := append_cons_inj ChainItem.level? rfl rfl h (hlinks has) (hlinks hbs)
    (hlinks has') (hlinks hbs')
  exact hsplit.imp_right (And.imp_left ChainItem.link.inj)

/-- A link that occurs in no operand splits a list between its operands. -/
theorem map_inorder_eq {l : Link} {n n' : Node} {ns ns' : List Node}
    (h : n.inorder ++ inorderAfter l ns = n'.inorder ++ inorderAfter l ns')
    (hns : ∀ m ∈ n :: ns, .link l ∉ m.inorder) (hns' : ∀ m ∈ n' :: ns', .link l ∉ m.inorder) :
    (n :: ns).map Node.inorder = (n' :: ns').map Node.inorder := by
  induction ns generalizing n n' ns' with
  | nil =>
    cases ns' with
    | nil => simpa [inorderAfter] using h
    | cons m' ms' =>
      have hmem : .link l ∈ n.inorder := by
        rw [inorderAfter, List.append_nil] at h
        rw [h]
        simp [inorderAfter]
      exact absurd hmem (hns n List.mem_cons_self)
  | cons m ms ih =>
    cases ns' with
    | nil =>
      have hmem : .link l ∈ n'.inorder := by
        rw [inorderAfter, inorderAfter, List.append_nil] at h
        rw [← h]
        simp
      exact absurd hmem (hns' n' List.mem_cons_self)
    | cons m' ms' =>
      rw [inorderAfter, inorderAfter] at h
      -- the longer of the two first operands would hold the link that ends the shorter
      have hsplit : n.inorder = n'.inorder ∧
          m.inorder ++ inorderAfter l ms = m'.inorder ++ inorderAfter l ms' := by
        obtain ⟨cs, hcs, heq⟩ | ⟨cs, hcs, heq⟩ := List.append_eq_append_iff.mp h
        · cases cs with
          | nil => exact ⟨by simpa using hcs.symm, (List.cons.inj heq).2⟩
          | cons c cs =>
            obtain ⟨rfl, -⟩ := List.cons.inj heq
            exact absurd (by rw [hcs]; simp) (hns' n' List.mem_cons_self)
        · cases cs with
          | nil => exact ⟨by simpa using hcs, (List.cons.inj heq).2.symm⟩
          | cons c cs =>
            obtain ⟨rfl, -⟩ := List.cons.inj heq
            exact absurd (by rw [hcs]; simp) (hns n List.mem_cons_self)
      have hrest := ih hsplit.2 (fun k hk => hns k (List.mem_cons_of_mem n hk))
        (fun k hk => hns' k (List.mem_cons_of_mem n' hk))
      rw [List.map_cons, hsplit.1, hrest, List.map_cons (a := n')]

theorem eq_of_map_eq {α β : Type} {f : α → β} {as bs : List α} (h : as.map f = bs.map f)
    (hinj : ∀ a ∈ as, ∀ b ∈ bs, f a = f b → a = b) : as = bs := by
  induction as generalizing bs with
  | nil => exact (List.map_eq_nil_iff.mp h.symm).symm
  | cons a as ih =>
    cases bs with
    | nil => cases h
    | cons b bs =>
      obtain ⟨hhead, htail⟩ := List.cons.inj h
      rw [hinj a List.mem_cons_self b List.mem_cons_self hhead,
        ih htail fun a ha b hb => hinj a (List.mem_cons_of_mem _ ha) b (List.mem_cons_of_mem _ hb)]

/-- An operand of a connective does not hold that connective. -/
theorem link_notMem_inorder {l : Link} {n : Node} (h : n.Grouped) (hlt : l.level < n.level) :
    .link l ∉ n.inorder :=
  fun hl => absurd (h.level_le hl) (Nat.not_le.mpr hlt)

/-- **Columns and links from left to right determine a grouped expression.** -/
theorem Node.Grouped.eq_of_inorder {n m : Node} (hn : n.Grouped) (hm : m.Grouped)
    (h : n.inorder = m.inorder) : n = m := by
  induction hn generalizing m with
  | column s =>
    obtain ⟨s', rfl⟩ | ⟨k, hk, -⟩ := hm.root
    · rw [inorder_ofNames, inorder_ofNames] at h
      cases h
      rfl
    · simp [← h, inorder_ofNames] at hk
  | @binary op n n' hn hn' left right ihn ihn' =>
    have hlevel := Node.Grouped.level_eq (.binary hn hn' left right) hm h
    cases hm with
    | column s =>
      have hmem : .link (.operator op) ∈ (Node.ofNames [s]).inorder := by
        simp [← h, inorder_binary]
      simp [inorder_ofNames] at hmem
    | @binary op' m m' hm hm' left' right' =>
      rw [inorder_binary, inorder_binary] at h
      obtain ⟨hleft, hop, hright⟩ := append_link_inj h
        (fun k hk => Nat.le_trans left (hn.level_le hk))
        (fun k hk => Nat.lt_of_lt_of_le right (hn'.level_le hk))
        (fun k hk => Nat.le_trans left' (hm.level_le hk))
        (fun k hk => Nat.lt_of_lt_of_le right' (hm'.level_le hk))
      cases hop
      rw [ihn hm hleft, ihn' hm' hright]
    | junction hl =>
      rw [level_binary, level_junction hl] at hlevel
      exact absurd hlevel.symm (Nat.ne_of_lt (level_lt_ofOperator hl op))
  | @junction op l hl n ns several hns higher ih =>
    have hlevel := Node.Grouped.level_eq (.junction hl several hns higher) hm h
    obtain ⟨ms, rfl⟩ := hm.eq_junction hl (hlevel.symm.trans (level_junction hl _))
    cases hm with
    | @junction _ l' hl' m ms _ hms higher' =>
      obtain rfl : l' = l := Option.some.inj (hl'.symm.trans hl)
      rw [inorder_junction hl, inorder_junction hl] at h
      have hmap := map_inorder_eq h
        (fun k hk => link_notMem_inorder (hns k hk) (higher k hk))
        (fun k hk => link_notMem_inorder (hms k hk) (higher' k hk))
      rw [eq_of_map_eq hmap fun k hk k' hk' => ih k hk (hms k' hk')]

end SqlSyntax
