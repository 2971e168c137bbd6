import SqlSyntax.Proofs.Expression.Plain
import SqlSyntax.Proofs.Tree.Everywhere

/-!
# Simple expressions

The grammar builds an expression from parts that are plain if they are simple.  Then the
expression is plain too if it is simple: that all its nodes are simple carries over to the
parts, and what is left of each kind of node is what its constructor asks for.

## Main definitions

* `Node.PlainIf` — an expression is plain if all its nodes are simple.
* `TypeName.PlainIf` — the same for the type of a cast.

## Main results

* `plainIf_joined`, `plainIf_negate` — the operators that look at their operand.
* `plainIf_call` — the calls.
-/

namespace SqlSyntax

variable {q : Prop}

/-- The expression is plain if all its nodes are simple. -/
def Node.PlainIf (q : Prop) (n : Node) : Prop :=
  n.All (Node.IsSimple q) → n.Plain

/-- A type that can be read if its modifiers are simple, and if `q` holds in case it is not
spoken. -/
structure TypeName.PlainIf (q : Prop) (t : TypeName) : Prop where
  nonempty : t.names ≠ []
  names : ∀ s ∈ t.names, IsName s
  bounds : ∀ b ∈ t.bounds, b = -1 ∨ IsNatural b
  modifiers : ∀ n ∈ t.modifiers, n.PlainIf q
  spoken : q ∨ t.isSpoken = true

/-- A step that can be read if the subscript is simple, and the bounds are plain then. -/
def Step.PlainIf (q : Prop) : Step → Prop
  | .subscript s => (s.slice = false → s.lower = none ∧ s.upper.isSome = true) ∧
      (∀ n ∈ s.lower, n.PlainIf q) ∧ ∀ n ∈ s.upper, n.PlainIf q
  | .field name => IsName name
  | .star => True

namespace Node

variable {arg left right : Node}

/-! ### Nodes that are not simple -/

theorem plainIf_subquery (s : Subquery) : (subquery s).PlainIf q :=
  fun h => h.self.elim

/-! ### Leaves -/

theorem plainIf_const {v : Literal} (h : v.IsRead) : (const v).PlainIf q :=
  fun _ => .const h

theorem plainIf_string (s : String) : (string s).PlainIf q :=
  plainIf_const (.string s)

theorem plainIf_integer {n : Int} (h : Int4.inRange n = true) : (integer n).PlainIf q :=
  plainIf_const (.integer h)

theorem plainIf_param {n : Int} (h : IsNatural n) : (param n).PlainIf q :=
  fun _ => .param h

theorem plainIf_column {names : List String} (hne : names ≠ []) (h : ∀ s ∈ names, IsName s)
    (star : Bool) : (column (columnFields names star)).PlainIf q :=
  fun _ => .column hne h star

theorem plainIf_valueFunction {f : ValueFunction} {precision : Option Int}
    (h : ∀ p ∈ precision, f.takesPrecision = true ∧ IsNatural p) :
    (valueFunction f precision).PlainIf q :=
  fun _ => .valueFunction h

/-! ### Operations -/

theorem all_operation {kind : OperationKind} {op : String}
    (h : (operation kind op (some left) (some right)).All (IsSimple q)) :
    left.All (IsSimple q) ∧ right.All (IsSimple q) :=
  ⟨h.child (by simp [children]), h.child (by simp [children])⟩

theorem plainIf_operation {kind : OperationKind} {op : String}
    (hkind : kind = .op ∨ kind = .opAny ∨ kind = .opAll) (hop : IsOperator op)
    (hleft : left.PlainIf q) (hright : right.PlainIf q) :
    (operation kind op (some left) (some right)).PlainIf q := by
  intro h
  obtain ⟨hl, hr⟩ := all_operation h
  exact .operation hkind hop (hleft hl) (hright hr)

theorem plainIf_distinct (negated : Bool) (hleft : left.PlainIf q) (hright : right.PlainIf q) :
    (operation (if negated then .notDistinct else .distinct) "=" (some left)
      (some right)).PlainIf q := by
  intro h
  obtain ⟨hl, hr⟩ := all_operation h
  exact .distinct negated (hleft hl) (hright hr)

theorem plainIf_nullIf (hleft : left.PlainIf q) (hright : right.PlainIf q) :
    (operation .nullIf "=" (some left) (some right)).PlainIf q := by
  intro h
  obtain ⟨hl, hr⟩ := all_operation h
  exact .nullIf (hleft hl) (hright hr)

theorem plainIf_inList {items : List Node} (negated : Bool) (harg : arg.PlainIf q)
    (hne : items ≠ []) (hitems : ∀ n ∈ items, n.PlainIf q) :
    (operation .inList (if negated then "<>" else "=") (some arg)
      (some (list items))).PlainIf q := by
  intro h
  obtain ⟨hl, hr⟩ := all_operation h
  exact .inList negated (harg hl) hne fun n hn => hitems n hn (hr.child hn)

theorem plainIf_rangeTest {low high : Node} (negated anyOrder : Bool) (harg : arg.PlainIf q)
    (hlow : low.PlainIf q) (hhigh : high.PlainIf q) :
    (Grammar.rangeTest negated anyOrder arg low high).PlainIf q := by
  intro h
  have hparts : arg.All (IsSimple q) ∧ (list [low, high]).All (IsSimple q) := by
    cases negated <;> cases anyOrder <;> exact all_operation h
  obtain ⟨hl, hr⟩ := hparts
  exact .range negated anyOrder (harg hl) (hlow (hr.child (by simp [children])))
    (hhigh (hr.child (by simp [children])))

theorem plainIf_matched {m : Grammar.PatternMatch} {pattern : Node} {escape : Option Node}
    (hm : m = .like ∨ m = .ilike ∨ m = .similar) (negated : Bool) (harg : arg.PlainIf q)
    (hpattern : pattern.PlainIf q) (hescape : ∀ e ∈ escape, e.PlainIf q) :
    (operation m.kind (if negated then m.negatedOp else m.op) (some arg)
      (some (m.pattern pattern escape))).PlainIf q := by
  intro h
  obtain ⟨hl, hr⟩ := all_operation h
  have hparts : pattern.All (IsSimple q) ∧ ∀ e ∈ escape, e.All (IsSimple q) := by
    cases escape with
    | none =>
      refine ⟨?_, nofun⟩
      unfold Grammar.PatternMatch.pattern at hr
      split at hr
      · next heq => cases heq
      · split at hr
        · exact hr.child (by simp [children, Call.children, Call.system])
        · exact hr
    | some e =>
      have hargs : ∀ n ∈ [pattern, e], n.All (IsSimple q) := fun n hn =>
        hr.child (c := n) (List.mem_append_left _ (List.mem_append_left _
          (List.mem_append_left _ hn)))
      refine ⟨hargs pattern (by simp), fun e' he' => ?_⟩
      cases he'
      exact hargs e (by simp)
  exact .matched hm negated (harg hl) (hpattern hparts.1) fun e he => hescape e he (hparts.2 e he)

theorem plainIf_prefixed {op : String} (hop : IsOperator op)
    (hlevel : Level.ofSign? (operatorKind op) = some (Level.ofPrefix op)) (harg : arg.PlainIf q)
    (hsign : op = "-" → negate arg = prefixed "-" arg) : (prefixed op arg).PlainIf q :=
  fun h => .prefixed hop hlevel (harg (h.child (by simp [prefixed, children]))) hsign

theorem plainIf_negation (harg : arg.PlainIf q) : (negation arg).PlainIf q :=
  fun h => .negation (harg (h.child (by simp [negation, children])))

theorem plainIf_nullTest (negated : Bool) (harg : arg.PlainIf q) :
    (nullTest arg negated).PlainIf q :=
  fun h => .nullTest negated (harg (h.child (by simp [children])))

theorem plainIf_truthTest (truth : Truth) (negated : Bool) (harg : arg.PlainIf q) :
    (truthTest arg truth negated).PlainIf q :=
  fun h => .truthTest truth negated (harg (h.child (by simp [children])))

theorem plainIf_collate {names : List String} (harg : arg.PlainIf q) (hne : names ≠ [])
    (hnames : ∀ s ∈ names, IsName s) : (collate arg names).PlainIf q :=
  fun h => .collate (harg (h.child (by simp [children]))) hne hnames

theorem plainIf_cast {type : TypeName} (harg : arg.PlainIf q) (htype : type.PlainIf q) :
    (cast arg type).PlainIf q := by
  intro h
  have hchild : (typeName type).All (IsSimple q) := h.child (by simp [children])
  have hspoken : type.isSpoken = true := htype.spoken.elim hchild.self id
  exact .cast (harg (h.child (by simp [children])))
    ⟨htype.nonempty, htype.names, htype.bounds, hspoken⟩
    fun n hn => htype.modifiers n hn (hchild.child hn)

/-! ### Steps into a value -/

theorem plainIf_indirection {steps : List Step} (harg : arg.PlainIf q) (hne : steps ≠ [])
    (hsteps : ∀ s ∈ steps, s.PlainIf q) : (indirection arg steps).PlainIf q := by
  intro h
  have hsubscript {s : Subscript} (hs : .subscript s ∈ steps) : (subscript s).All (IsSimple q) :=
    h.child (List.mem_cons_of_mem _ (List.mem_flatMap.mpr ⟨_, hs, List.mem_cons_self⟩))
  refine .indirection (harg (h.child List.mem_cons_self)) hne h.self (fun s hs => ?_)
    fun s hs n hn => ?_
  · cases s with
    | subscript s => exact ⟨(hsteps _ hs).1, (hsubscript hs).self⟩
    | field name => exact hsteps _ hs
    | star => trivial
  · cases s with
    | subscript s =>
      have hbounds : ∀ n ∈ (Step.subscript s).bounds, n.PlainIf q :=
        Step.forall_mem_bounds.mpr (hsteps _ hs).2
      exact hbounds n hn ((hsubscript hs).child hn)
    | field | star => cases hn

/-- Constants and columns leave the colon of a slice alone. -/
theorem IsIndex.leavesColon {n : Node} (h : n.IsIndex) : n.LeavesColon := by
  refine .inl ?_
  rcases h with ⟨v, rfl⟩ | ⟨fields, rfl⟩
  · rw [level]
    split <;> decide
  · show Level.sign ≤ Level.primary
    decide

theorem IsIndex.all_isSimple {n : Node} (h : n.IsIndex) : n.All (IsSimple q) := by
  rcases h with ⟨v, rfl⟩ | ⟨fields, rfl⟩
  · exact all_iff.mpr ⟨trivial, List.forall_mem_singleton.mpr (all_iff.mpr ⟨trivial, nofun⟩)⟩
  · exact all_iff.mpr ⟨trivial, nofun⟩

/-- Steps into a simple value are simple if their bounds are constants and columns. -/
theorem all_isSimple_indirection {steps : List Step} (harg : arg.All (IsSimple q))
    (hapart : arg.StepsApart steps) (hbounds : ∀ s ∈ steps, ∀ n ∈ s.bounds, n.IsIndex) :
    (indirection arg steps).All (IsSimple q) := by
  refine all_iff.mpr ⟨hapart, List.forall_mem_cons.mpr ⟨harg, fun c hc => ?_⟩⟩
  obtain ⟨s, hs, hchild⟩ := List.mem_flatMap.mp hc
  cases s with
  | subscript s =>
    obtain rfl := List.mem_singleton.mp hchild
    refine all_iff.mpr ⟨fun _ n hn => ?_, fun n hn => (hbounds _ hs n hn).all_isSimple⟩
    exact ((Step.forall_mem_bounds.mp (hbounds _ hs)).2 n hn).leavesColon
  | field | star => cases hchild

/-! ### Junctions -/

/-- A chain of operands that is plain has a first operand that is no such chain. -/
theorem plain_junction_inv {op : Junction} {args : List Node} (hop : op ≠ .not)
    (h : (junction op args).Plain) :
    ∃ first more, args = first :: more ∧ more ≠ [] ∧ (∀ inner, first ≠ junction op inner) ∧
      first.Plain ∧ ∀ n ∈ more, n.Plain := by
  generalize heq : junction op args = n at h
  cases h with
  | junction _ hne hflat hfirst hmore =>
    cases heq
    exact ⟨_, _, rfl, hne, hflat, hfirst, hmore⟩
  | negation _ =>
    cases heq
    exact absurd rfl hop
  | range negated anyOrder _ _ _ => cases negated <;> cases anyOrder <;> cases heq
  | _ => cases heq

/-- Two operands joined: a chain on the left takes the right one as its last. -/
theorem plainIf_joined {op : Junction} (hop : op ≠ .not) (hleft : left.PlainIf q)
    (hright : right.PlainIf q) : (joined op left right).PlainIf q := by
  have hpair (hflat : ∀ inner, left ≠ junction op inner) : (junction op [left, right]).PlainIf q :=
    fun h => .junction hop (List.cons_ne_nil right []) hflat (hleft (h.child (by simp [children])))
      (List.forall_mem_singleton.mpr (hright (h.child (by simp [children]))))
  unfold joined
  split
  · next op' args =>
    by_cases hsame : op' = op
    · rw [if_pos hsame]
      subst hsame
      intro h
      have hargs : ∀ n ∈ args, n.All (IsSimple q) := fun n hn =>
        h.child (List.mem_append_left _ hn)
      obtain ⟨first, more, rfl, -, hflat, hfirst, hmore⟩ :=
        plain_junction_inv hop (hleft (all_iff.mpr ⟨trivial, hargs⟩))
      have hlast : right.Plain :=
        hright (h.child (List.mem_append_right _ List.mem_cons_self))
      exact .junction hop (by simp) hflat hfirst
        (List.forall_mem_append.mpr ⟨hmore, List.forall_mem_singleton.mpr hlast⟩)
    · rw [if_neg hsame]
      exact hpair fun inner heq => hsame (by injection heq)
  · next hother => exact hpair fun inner heq => hother op inner heq

/-! ### Lists of operands -/

theorem plainIf_array {es : List Node} (hes : ∀ n ∈ es, n.PlainIf q) : (array es).PlainIf q :=
  fun h => .array fun n hn => hes n hn (h.child hn)

theorem plainIf_row {fs : List Node} {explicit : Bool} (hfs : ∀ n ∈ fs, n.PlainIf q)
    (hmarked : explicit = false → 2 ≤ fs.length) : (row fs explicit).PlainIf q :=
  fun h => .row (fun n hn => hfs n hn (h.child hn)) hmarked

theorem plainIf_coalesce {args : List Node} (hne : args ≠ []) (hargs : ∀ n ∈ args, n.PlainIf q) :
    (coalesce args).PlainIf q :=
  fun h => .coalesce hne fun n hn => hargs n hn (h.child hn)

theorem plainIf_extremum {args : List Node} (op : Extremum) (hne : args ≠ [])
    (hargs : ∀ n ∈ args, n.PlainIf q) : (extremum op args).PlainIf q :=
  fun h => .extremum op hne fun n hn => hargs n hn (h.child hn)

theorem plainIf_caseExpr {operand : Option Node} {arms : List CaseArm} {otherwise : Option Node}
    (hoperand : ∀ n ∈ operand, n.PlainIf q) (hne : arms ≠ [])
    (harms : ∀ a ∈ arms, a.condition.PlainIf q ∧ a.result.PlainIf q)
    (hotherwise : ∀ n ∈ otherwise, n.PlainIf q) :
    (caseExpr operand arms otherwise).PlainIf q := by
  intro h
  have hparts : (∀ n ∈ operand, n.All (IsSimple q)) ∧ (∀ a ∈ arms, (caseArm a).All (IsSimple q)) ∧
      ∀ n ∈ otherwise, n.All (IsSimple q) :=
    ⟨fun n hn => h.child (List.mem_append_left _ (List.mem_append_left _ (Option.mem_toList.mpr hn))),
      fun a ha => h.child (List.mem_append_left _ (List.mem_append_right _
        (List.mem_map_of_mem ha))),
      fun n hn => h.child (List.mem_append_right _ (Option.mem_toList.mpr hn))⟩
  obtain ⟨ho, harm, he⟩ := hparts
  exact .caseExpr (fun n hn => hoperand n hn (ho n hn)) hne
    (fun a ha => (harms a ha).1 ((harm a ha).child (by simp [children])))
    (fun a ha => (harms a ha).2 ((harm a ha).child (by simp [children])))
    fun n hn => hotherwise n hn (he n hn)

/-! ### Calls -/

/-- A call of a function that is not written as it was read is not simple. -/
theorem plainIf_unspoken {f : String} (hf : f ∈ unspokenFunctions) (args : List Node) :
    (call (Call.system f args)).PlainIf q := by
  intro h
  have hspecial : (Call.system f args).isSpecial f = false := h.self.2.1 f hf
  simp [Call.isSpecial, Call.system] at hspecial

theorem plainIf_extract {source : Node} (field : String) (hsource : source.PlainIf q) :
    (call (Call.system "extract" [string field, source])).PlainIf q := by
  intro h
  have hfield : IsField field := h.self.2.2 rfl field rfl
  exact .extract hfield (hsource (h.child (by simp [children, Call.children, Call.system])))

theorem plainIf_timeZone {zone source : Node} (hzone : zone.PlainIf q)
    (hsource : source.PlainIf q) :
    (call (Call.system "timezone" [zone, source])).PlainIf q := by
  intro h
  have hargs : ∀ n ∈ [zone, source], n.All (IsSimple q) := fun n hn =>
    h.child (by simp [children, Call.children, Call.system, hn])
  exact .timeZone (hzone (hargs zone (by simp))) (hsource (hargs source (by simp)))

end Node

/-- What stands in the parentheses of a call: nothing, a star, or arguments with what may
follow them. -/
inductive Call.PlainIf (q : Prop) (function : List String) : Call → Prop
  | empty : PlainIf q function { function := function, args := [] }
  | star : PlainIf q function { function := function, args := [], star := true }
  | full {args : List (Option String × Node)} (some : args ≠ [])
    (names : ∀ a ∈ args, ∀ s ∈ a.1, IsName s) (plain : ∀ a ∈ args, a.2.PlainIf q)
    {order : List SortKey} (keys : ∀ k ∈ order, k.key.PlainIf q)
    (directions : ∀ k ∈ order, k.direction.IsRead) (distinct : Bool) :
    PlainIf q function (Call.full function args order none distinct)

theorem Node.All.argument {P : Node → Prop} {name : Option String} {arg : Node}
    (h : (Node.argument name arg).All P) : arg.All P := by
  cases name with
  | none => exact h
  | some s => exact h.child (by simp [Node.argument, Node.children])

/-- A call without a window is plain if it is simple. -/
theorem Node.plainIf_call {function : List String} {c : Call} {filter : Option Node}
    {window : Option Window} (hne : function ≠ []) (hfunction : ∀ s ∈ function, IsName s)
    (hc : c.PlainIf q function) (hfilter : ∀ n ∈ filter, n.PlainIf q) :
    (Node.call { c with filter := filter, window := window }).PlainIf q := by
  intro h
  obtain ⟨hwindow, -⟩ : window = none ∧ _ := h.self
  subst hwindow
  have hfilter : ∀ n ∈ filter, n.Plain := fun n hn =>
    hfilter n hn (h.child
      (List.mem_append_left _ (List.mem_append_right _ (Option.mem_toList.mpr hn))))
  cases hc with
  | empty => exact .call hne hfunction hfilter
  | star => exact .starCall hne hfunction hfilter
  | @full args hsome hnames hplain order hkeys hdirections distinct =>
    have hargs : ∀ a ∈ args, a.2.Plain := fun a ha => by
      have harg : (Node.argument a.1 a.2).All (Node.IsSimple q) := h.child (by
        simp only [Node.children, Call.children, Call.full, List.mem_append, List.mem_map]
        exact .inl (.inl (.inl ⟨a, ha, rfl⟩)))
      exact hplain a ha harg.argument
    have horder : ∀ k ∈ order, k.key.Plain := fun k hk => by
      have hkey : (Node.sortKey k).All (Node.IsSimple q) := h.child (by
        simp only [Node.children, Call.children, Call.full, List.mem_append, List.mem_map]
        exact .inl (.inl (.inr ⟨k, hk, rfl⟩)))
      exact hkeys k hk (hkey.child List.mem_cons_self)
    exact .fullCall hne hfunction hfilter hsome hnames hargs horder hdirections distinct

/-! ### Signs -/

theorem Int4.inRange_of_ofDecimal? {cs : List Char} {n : Int} (h : ofDecimal? cs = some n) :
    inRange n = true := by
  unfold ofDecimal? at h
  generalize splitSign cs = p at h
  cases hdigits : fixedDigits 10 p.2.length p.2 with
  | none => simp [hdigits] at h
  | some v =>
    simp only [hdigits, Option.ite_none_right_eq_some, Bool.and_eq_true, Option.some.injEq] at h
    obtain ⟨⟨-, hrange⟩, rfl⟩ := h
    exact hrange

/-- A number that changed its sign is read, unless it would have become an integer. -/
theorem Literal.IsRead.negated {v w : Literal} (h : v.IsRead) (hw : v.negated = some w)
    (hlarge : ∀ s, w = .float s → Int4.ofDecimal? s.toList = none) : w.IsRead := by
  cases h with
  | @integer n hn =>
    simp only [Literal.negated, Option.some.injEq] at hw
    subst hw
    split
    · next hleast =>
      subst hleast
      exact @Literal.IsRead.float "2147483648".toList ⟨.inl rfl, by decide, .inr (by decide)⟩
    · next hleast =>
      have hopposite : Int4.inRange (-n) = true := by
        rw [Int4.inRange_iff] at hn ⊢
        unfold Int4.least at hleast
        omega
      exact .integer hopposite
  | @float cs hcs =>
    have htext := Literal.negatedText_unsigned fun _ => hcs.ne_minus
    simp only [Literal.negated, htext, Option.some.injEq] at hw
    subst hw
    exact .negative hcs (by simpa using hlarge _ rfl)
  | @negative cs hcs _ =>
    simp only [Literal.negated, Literal.negatedText_negative, Option.some.injEq] at hw
    subst hw
    exact .float hcs
  | _ => cases hw

namespace Node

theorem plain_const_inv {v : Literal} (h : (const v).Plain) : v.IsRead := by
  generalize heq : const v = n at h
  cases h with
  | const h =>
    cases heq
    exact h
  | range negated anyOrder _ _ _ => cases negated <;> cases anyOrder <;> cases heq
  | _ => cases heq

/-- The operand of a minus sign is a number that changes its sign, or it stays. -/
theorem plainIf_negate {arg : Node} (harg : arg.PlainIf q) : (negate arg).PlainIf q := by
  have hminus (h : negate arg = prefixed "-" arg) : (prefixed "-" arg).PlainIf q :=
    plainIf_prefixed ⟨by decide, by decide, by decide⟩ (by decide) harg fun _ => h
  unfold negate
  split
  · next v =>
    have hleaf : (literal v).All (IsSimple q) := all_iff.mpr ⟨trivial, nofun⟩
    have hv : v.IsRead :=
      plain_const_inv (harg (all_iff.mpr ⟨trivial, List.forall_mem_singleton.mpr hleaf⟩))
    split
    · next s hs =>
      split
      · next n hn => exact plainIf_integer (Int4.inRange_of_ofDecimal? hn)
      · next hn =>
        refine plainIf_const (hv.negated hs fun s' heq => ?_)
        cases heq
        exact hn
    · next w hne hw => exact plainIf_const (hv.negated hw fun s heq => absurd heq (hne s))
    · next hnone => exact hminus (by simp [negate, hnone])
  · next hconst => exact hminus (by unfold negate; split <;> first | rfl | exact absurd rfl (hconst _))

end Node

end SqlSyntax
