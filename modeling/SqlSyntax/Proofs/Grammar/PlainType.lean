import SqlSyntax.Grammar.Expression
import SqlSyntax.Proofs.Expression.Simple
import SqlSyntax.Proofs.Grammar.Yielding
import SqlSyntax.Proofs.Text.Keywords

/-!
# Names and types that are read

The names of a tree come from tokens, so they are no longer than those; a type is spoken
unless the schema of the system is among its names.

## Main definitions

* `plainly` — rules that give expressions which are plain if they are simple.
* `NameIf` — a name that is read.

## Main results

* `dottedName_plain`, `integer_plain` — names and numbers.
* `intervalModifiers_plain` — the fields of an interval.
* `typeName_plain` — **types that are read.**
-/

namespace SqlSyntax

/-- An output column is an expression that is plain if it is simple, or all columns. -/
def Target.PlainIf (q : Prop) (t : Target) : Prop :=
  ∀ n ∈ t.value, n = .column [.star] ∨ n.PlainIf q

/-- Tokens are as a text can contain them, and if one of them is the name of the schema of
the system, `q` holds.  Rules give expressions that are plain if they are simple. -/
def plainly (q : Prop) : Known where
  token k := k.IsRead ∧ (k = .name systemSchema → q)
  value
    | .expression _, n => n.PlainIf q
    | .query, s => ∀ t ∈ s.targets, t.PlainIf q
    | .enclosed, e => e.operand.PlainIf q
    | .elements, es => ∀ n ∈ es, n.PlainIf q
    | .enclosedSource, _ => True

/-- A name that is read, for which `q` holds if it is that of the schema of the system. -/
def NameIf (q : Prop) (s : String) : Prop :=
  IsName s ∧ (s = systemSchema → q)

namespace Keyword

theorem isName_spelling (w : Keyword) : IsName w.spelling := by
  obtain ⟨hfirst, hchars, hlength⟩ := w.spelling_isWord
  refine ⟨fun hempty => ?_, ?_⟩
  · rw [hempty] at hfirst
    exact absurd hfirst (by decide)
  · rw [byteLength_of_isBareChar hchars]
    exact hlength.trans (by decide)

/-- No keyword is spelled like the schema of the system. -/
theorem spelling_ne_systemSchema (w : Keyword) : w.spelling ≠ systemSchema := by
  intro heq
  have hlookup := w.lookup_spelling
  rw [heq] at hlookup
  exact absurd hlookup (by rw [show lookup systemSchema.toList = none by decide +kernel]; nofun)

theorem nameIf_spelling {q : Prop} (w : Keyword) : NameIf q w.spelling :=
  ⟨w.isName_spelling, fun heq => absurd heq w.spelling_ne_systemSchema⟩

end Keyword

namespace IntervalRange

/-- A range is told by the modifier that stores it. -/
theorem ofMask?_mask : ∀ r ∈ all, ofMask? r.mask = some r := by
  decide

theorem inRange_mask : ∀ r ∈ all, Int4.inRange r.mask = true := by
  decide

end IntervalRange

namespace Grammar

open SqlSyntax.Parser

variable {q : Prop}

/-! ### Rules and lists -/

theorem operand_plain (above : Level) : (operand above).Yields (plainly q) (Node.PlainIf q) :=
  yields_operand above

theorem expression_plain : expression.Yields (plainly q) (Node.PlainIf q) :=
  operand_plain 0

theorem enclosedContent_plain :
    enclosedContent.Yields (plainly q) fun e => e.operand.PlainIf q :=
  yields_enclosedContent

theorem expressions_plain :
    expressions.Yields (plainly q) fun ns => ns ≠ [] ∧ ∀ n ∈ ns, n.PlainIf q :=
  yields_commaList expression_plain

theorem expressions_mem_plain : expressions.Yields (plainly q) fun ns => ∀ n ∈ ns, n.PlainIf q :=
  yields_commaList_mem expression_plain

/-! ### Names and numbers -/

theorem yields_readAs {α : Type} {K : Known} {P : α → Prop} {value : Option α}
    (h : ∀ a ∈ value, P a) (expected : Expected) : (readAs value expected).Yields K P := by
  unfold readAs
  split
  · next a => exact yields_bind_any fun _ => yields_pure (h a rfl)
  · exact yields_unexpected _

theorem nameIf_of_nameOf? {p : Keyword → Bool} {k : TokenKind} (hk : (plainly q).token k) :
    ∀ s ∈ nameOf? p k, NameIf q s := by
  intro s hs
  unfold nameOf? at hs
  split at hs
  · next s' =>
    cases hs
    exact ⟨hk.1, fun heq => hk.2 (by rw [heq])⟩
  · next w =>
    split at hs
    · cases hs
      exact w.nameIf_spelling
    · cases hs
  · cases hs

theorem name_plain : name.Yields (plainly q) (NameIf q) := by
  unfold name
  exact yields_kind_bind fun k hk => yields_readAs (nameIf_of_nameOf? hk) _

theorem callName_plain : callName.Yields (plainly q) (NameIf q) := by
  unfold callName
  exact yields_kind_bind fun k hk => yields_readAs (nameIf_of_nameOf? hk) _

theorem label_plain : label.Yields (plainly q) (NameIf q) := by
  unfold label
  refine yields_kind_bind fun k hk => yields_readAs (fun s hs => ?_) _
  unfold labelOf? at hs
  -- a label is a name, or the spelling of a keyword with whatever follows it
  cases hname : nameOf? (fun _ => false) k with
  | some s' =>
    rw [hname] at hs
    cases hs
    exact nameIf_of_nameOf? hk s hname
  | none =>
    rw [hname, Option.none_or] at hs
    obtain ⟨w, -, rfl⟩ := Option.map_eq_some_iff.mp hs
    exact w.nameIf_spelling

theorem dottedName_plain :
    dottedName.Yields (plainly q) fun names => names ≠ [] ∧ ∀ s ∈ names, NameIf q s := by
  unfold dottedName
  refine name_plain.bind fun s hs => ?_
  exact yields_itemsAfter .dot label_plain (List.cons_ne_nil s []) (List.forall_mem_singleton.mpr hs)

theorem integer_plain : integer.Yields (plainly q) IsNatural := by
  unfold integer
  refine yields_kind_bind fun k hk => ?_
  split
  · exact yields_bind_any fun _ => yields_pure hk.1
  · exact yields_unexpected _

/-! ### Modifiers -/

theorem optionalModifiers_plain :
    optionalModifiers.Yields (plainly q) fun ns => ∀ n ∈ ns, n.PlainIf q := by
  unfold optionalModifiers
  refine yields_bind_any fun parens => ?_
  refine yields_ite (fun _ => ?_) fun _ => yields_pure (List.forall_mem_nil _)
  exact yields_parenthesized expressions_mem_plain

/-- The range of an interval is one of those that can be written. -/
theorem intervalRange_plain (first : IntervalField) :
    (intervalRange first).Yields (plainly q) fun r => r ∈ IntervalRange.all := by
  have halone : ⟨first, []⟩ ∈ IntervalRange.all := by cases first <;> decide
  unfold intervalRange
  refine yields_ite (fun _ => yields_pure halone) fun _ => ?_
  refine yields_bind_any fun ranged => yields_ite (fun _ => ?_) fun _ => yields_pure halone
  unfold rangeEnd
  refine yields_bind_any fun k => ?_
  split
  · next r hr =>
    obtain ⟨last, -, hr⟩ := Option.bind_eq_some_iff.mp hr
    exact yields_bind_any fun _ => yields_pure (List.mem_of_find?_eq_some hr)
  · exact yields_misplaced

/-- The modifiers of an interval in words. -/
def IntervalModifiers (q : Prop) (ns : List Node) : Prop :=
  isSpokenInterval (ns.mapM integerOf?) = true ∧ ∀ n ∈ ns, n.PlainIf q

theorem intervalModifiers_of_range {r : IntervalRange} (hr : r ∈ IntervalRange.all) :
    IntervalModifiers q [Node.integer r.mask] := by
  refine ⟨?_, List.forall_mem_singleton.mpr (Node.plainIf_integer (r.inRange_mask hr))⟩
  show (IntervalRange.ofMask? r.mask).isSome = true
  rw [r.ofMask?_mask hr]
  rfl

theorem intervalModifiers_of_seconds {r : IntervalRange} (hr : r ∈ IntervalRange.all)
    (hlast : r.last = .second) {p : Int} (hp : IsNatural p) :
    IntervalModifiers q [Node.integer r.mask, Node.integer p] := by
  refine ⟨?_, List.forall_mem_cons.mpr ⟨Node.plainIf_integer (r.inRange_mask hr),
    List.forall_mem_singleton.mpr (Node.plainIf_integer hp.2)⟩⟩
  show (decide (0 ≤ p) && (r.mask == IntervalRange.fullMask
    || (IntervalRange.ofMask? r.mask).any fun r => r.last == .second)) = true
  rw [r.ofMask?_mask hr, decide_eq_true hp.1, Option.any_some, hlast]
  simp

/-- The precision of the seconds behind a range. -/
theorem optionalPrecision_plain {r : IntervalRange} (hr : r ∈ IntervalRange.all) :
    (optionalPrecision r).Yields (plainly q)
      fun ns => IntervalModifiers q (Node.integer r.mask :: ns) := by
  have halone := intervalModifiers_of_range (q := q) hr
  unfold optionalPrecision
  refine yields_ite (fun hlast => ?_) fun _ => yields_pure halone
  refine yields_bind_any fun parens => yields_ite (fun _ => ?_) fun _ => yields_pure halone
  refine (yields_parenthesized integer_plain).bind fun p hp => ?_
  exact yields_pure (intervalModifiers_of_seconds hr hlast hp)

theorem intervalModifiers_plain :
    intervalModifiers.Yields (plainly q) (IntervalModifiers q) := by
  unfold intervalModifiers
  refine yields_bind_any fun k => ?_
  split
  · exact yields_pure ⟨rfl, List.forall_mem_nil _⟩
  · refine yields_bind_any fun _ => (intervalRange_plain _).bind fun r hr => ?_
    exact (optionalPrecision_plain hr).bind fun ns hns => yields_pure hns

/-! ### System types -/

/-- A type of the system is read if it is spoken with its modifiers. -/
theorem plainIf_system {name : String} {ns : List Node} (hname : IsName name)
    (hns : ∀ n ∈ ns, n.PlainIf q)
    (hspoken : ({ TypeName.system name with modifiers := ns } : TypeName).isSpoken = true) :
    ({ TypeName.system name with modifiers := ns } : TypeName).PlainIf q where
  nonempty := List.cons_ne_nil _ _
  names := List.forall_mem_cons.mpr
    ⟨⟨by decide, by decide⟩, List.forall_mem_singleton.mpr hname⟩
  bounds := nofun
  modifiers := hns
  spoken := .inr hspoken

/-- The types that are spoken with any modifiers. -/
def modifiedTypes : List String :=
  ["numeric", "varchar", "varbit", "timestamp", "timestamptz", "time", "timetz"]

theorem plainIf_modified {type : String} (h : type ∈ modifiedTypes) {ns : List Node}
    (hns : ∀ n ∈ ns, n.PlainIf q) :
    ({ TypeName.system type with modifiers := ns } : TypeName).PlainIf q := by
  simp only [modifiedTypes, List.mem_cons, List.not_mem_nil, or_false] at h
  rcases h with rfl | rfl | rfl | rfl | rfl | rfl | rfl <;>
    exact plainIf_system ⟨by decide, by decide⟩ hns (by cases ns <;> rfl)

theorem modifiedType_plain {type : String} (h : type ∈ modifiedTypes) :
    (modifiedType type).Yields (plainly q) (TypeName.PlainIf q) := by
  unfold modifiedType
  exact optionalModifiers_plain.bind fun ns hns => yields_pure (plainIf_modified h hns)

theorem timeType_plain {plain zoned : String} (hplain : plain ∈ modifiedTypes)
    (hzoned : zoned ∈ modifiedTypes) :
    (timeType plain zoned).Yields (plainly q) (TypeName.PlainIf q) := by
  unfold timeType
  refine optionalModifiers_plain.bind fun ns hns => ?_
  refine yields_bind_any fun hasZone => yields_pure (plainIf_modified ?_ hns)
  split
  · exact hzoned
  · exact hplain

/-- The types that are spoken with a length. -/
theorem fixedLengthType_plain {type : String} (h : type ∈ ["bit", "bpchar"]) :
    (fixedLengthType type).Yields (plainly q) (TypeName.PlainIf q) := by
  unfold fixedLengthType
  refine optionalModifiers_plain.bind fun ns hns => yields_pure ?_
  have hone : ∀ n ∈ [Node.integer 1], n.PlainIf q :=
    List.forall_mem_singleton.mpr (Node.plainIf_integer (by decide))
  simp only [List.mem_cons, List.not_mem_nil, or_false] at h
  rcases h with rfl | rfl
  · cases ns with
    | nil => exact plainIf_system ⟨by decide, by decide⟩ hone rfl
    | cons n ns => exact plainIf_system ⟨by decide, by decide⟩ hns rfl
  · cases ns with
    | nil => exact plainIf_system ⟨by decide, by decide⟩ hone rfl
    | cons n ns => exact plainIf_system ⟨by decide, by decide⟩ hns rfl

theorem stringType_plain {fixed varying : String} (hfixed : fixed ∈ ["bit", "bpchar"])
    (hvarying : varying ∈ modifiedTypes) :
    (stringType fixed varying).Yields (plainly q) (TypeName.PlainIf q) := by
  unfold stringType
  exact yields_bind_any fun found =>
    yields_ite (fun _ => modifiedType_plain hvarying) fun _ => fixedLengthType_plain hfixed

/-- The types of the system that are spoken without modifiers. -/
theorem plainIf_word {type : String}
    (h : type ∈ ["int2", "int4", "int8", "float4", "float8", "bool"]) :
    (TypeName.system type).PlainIf q := by
  simp only [List.mem_cons, List.not_mem_nil, or_false] at h
  rcases h with rfl | rfl | rfl | rfl | rfl | rfl <;>
    exact @plainIf_system _ _ [] ⟨by decide, by decide⟩ nofun rfl

theorem floatType_plain : floatType.Yields (plainly q) (TypeName.PlainIf q) := by
  have hdouble : (TypeName.system "float8").PlainIf q := plainIf_word (by decide)
  unfold floatType
  refine yields_bind_any fun parens => yields_ite (fun _ => ?_) fun _ => yields_pure hdouble
  refine yields_bind_any fun first => yields_bind_any fun bits => yields_bind_any fun _ => ?_
  unfold floatOfPrecision
  refine yields_ite (fun _ => yields_fail _) fun _ => ?_
  refine yields_ite (fun _ => yields_pure (plainIf_word (by decide))) fun _ => ?_
  exact yields_ite (fun _ => yields_pure hdouble) fun _ => yields_fail _

theorem plainIf_interval {ns : List Node} (h : IntervalModifiers q ns) :
    ({ TypeName.system "interval" with modifiers := ns } : TypeName).PlainIf q :=
  plainIf_system ⟨by decide, by decide⟩ h.2 h.1

theorem intervalType_plain : intervalType.Yields (plainly q) (TypeName.PlainIf q) := by
  unfold intervalType
  refine yields_bind_any fun parens => yields_ite (fun _ => ?_) fun _ => ?_
  · refine (yields_parenthesized integer_plain).bind fun p hp => yields_pure (plainIf_interval ?_)
    refine ⟨?_, List.forall_mem_cons.mpr ⟨Node.plainIf_integer (by decide),
      List.forall_mem_singleton.mpr (Node.plainIf_integer hp.2)⟩⟩
    show (decide (0 ≤ p) && _) = true
    rw [decide_eq_true hp.1]
    rfl
  · exact intervalModifiers_plain.bind fun ns hns => yields_pure (plainIf_interval hns)

/-! ### Types -/

/-- A type is spoken, unless it is named with the schema of the system. -/
theorem spoken_of_names {t : TypeName} (h : ∀ s ∈ t.names, NameIf q s) :
    q ∨ t.isSpoken = true := by
  cases hsystem : systemType? t.names with
  | none =>
    refine .inr ?_
    unfold TypeName.isSpoken
    rw [hsystem]
  | some type =>
    left
    unfold systemType? at hsystem
    split at hsystem
    · next schema name hnames =>
      split at hsystem
      · next hschema =>
        refine (h schema ?_).2 (beq_iff_eq.mp hschema)
        rw [hnames]
        exact List.mem_cons_self
      · cases hsystem
    · cases hsystem

theorem plainIf_names {names : List String} {ns : List Node} (hne : names ≠ [])
    (hnames : ∀ s ∈ names, NameIf q s) (hns : ∀ n ∈ ns, n.PlainIf q) :
    ({ TypeName.named names with modifiers := ns } : TypeName).PlainIf q where
  nonempty := hne
  names := fun s hs => (hnames s hs).1
  bounds := nofun
  modifiers := hns
  spoken := spoken_of_names hnames

theorem namedType_plain : namedType.Yields (plainly q) (TypeName.PlainIf q) := by
  unfold namedType
  refine callName_plain.bind fun first hfirst => ?_
  refine (yields_itemsAfter .dot label_plain (List.cons_ne_nil first [])
    (List.forall_mem_singleton.mpr hfirst)).bind fun names hnames => ?_
  refine optionalModifiers_plain.bind fun ns hns => yields_pure ?_
  exact plainIf_names hnames.1 hnames.2 hns

theorem typeOfWord_plain (w : Keyword) :
    (typeOfWord w).Yields (plainly q) (TypeName.PlainIf q) := by
  have hstring : (stringType "bpchar" "varchar").Yields (plainly q) (TypeName.PlainIf q) :=
    stringType_plain (by decide) (by decide)
  unfold typeOfWord
  split
  · next type hword =>
    refine yields_bind_any fun _ => yields_pure (plainIf_word ?_)
    unfold wordType? at hword
    split at hword <;> cases hword <;> decide
  · exact yields_bind_any fun _ => floatType_plain
  · refine yields_bind_any fun precise => yields_ite (fun _ => ?_) fun _ => namedType_plain
    exact yields_bind_any fun _ => yields_bind_any fun _ => yields_pure (plainIf_word (by decide))
  iterate 3
    · exact yields_bind_any fun _ => modifiedType_plain (by decide)
  · exact yields_bind_any fun _ => stringType_plain (by decide) (by decide)
  iterate 3
    · exact yields_bind_any fun _ => hstring
  · refine yields_bind_any fun _ => yields_bind_any fun character => ?_
    exact yields_ite (fun _ => hstring) fun _ => yields_bind_any fun _ => hstring
  · exact yields_bind_any fun _ => modifiedType_plain (by decide)
  · exact yields_bind_any fun _ => timeType_plain (by decide) (by decide)
  · exact yields_bind_any fun _ => timeType_plain (by decide) (by decide)
  · exact yields_bind_any fun _ => intervalType_plain
  · exact namedType_plain

theorem plainType_plain : plainType.Yields (plainly q) (TypeName.PlainIf q) := by
  unfold plainType
  refine yields_bind_any fun k => ?_
  split
  · exact typeOfWord_plain _
  · exact namedType_plain

/-! ### Dimensions -/

theorem dimensions_plain :
    dimensions.Yields (plainly q) fun bounds => ∀ b ∈ bounds, b = -1 ∨ IsNatural b := by
  have hopen : ∀ b ∈ [(-1 : Int)], b = -1 ∨ IsNatural b :=
    List.forall_mem_singleton.mpr (.inl rfl)
  have hdimension : dimension.Yields (plainly q) fun b => b = -1 ∨ IsNatural b := by
    unfold dimension
    refine yields_bind_any fun closed => yields_ite (fun _ => yields_pure (.inl rfl)) fun _ => ?_
    exact integer_plain.bind fun n hn => yields_bind_any fun _ => yields_pure (.inr hn)
  unfold dimensions
  refine yields_bind_any fun array => yields_ite (fun _ => ?_) fun _ => ?_
  · refine yields_bind_any fun sized => yields_ite (fun _ => ?_) fun _ => yields_pure hopen
    refine integer_plain.bind fun n hn => yields_bind_any fun _ => yields_pure ?_
    exact List.forall_mem_singleton.mpr (.inr hn)
  · have hsteps : (iterate moreDimensions []).Yields (plainly q)
        fun bounds => ∀ b ∈ bounds, b = -1 ∨ IsNatural b := by
      refine yields_iterate nofun fun bounds hbounds => ?_
      unfold moreDimensions
      refine yields_bind_any fun found => yields_ite (fun _ => ?_) fun _ => yields_pure forall_mem_none
      exact hdimension.bind fun b hb =>
        yields_pure (forall_mem_some (List.forall_mem_cons.mpr ⟨hb, hbounds⟩))
    exact hsteps.bind fun bounds hbounds => yields_pure fun b hb =>
      hbounds b (List.mem_reverse.mp hb)

/-- Types that are read, spoken unless the schema of the system is named. -/
theorem typeName_plain : typeName.Yields (plainly q) (TypeName.PlainIf q) := by
  unfold typeName
  refine yields_bind_any fun setof => plainType_plain.bind fun type htype => ?_
  refine dimensions_plain.bind fun bounds hbounds => yields_pure ?_
  exact ⟨htype.nonempty, htype.names, hbounds, htype.modifiers, htype.spoken⟩

end Grammar
end SqlSyntax
