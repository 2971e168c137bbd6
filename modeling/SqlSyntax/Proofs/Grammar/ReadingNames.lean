import SqlSyntax.Proofs.Grammar.ReadingWords
import SqlSyntax.Proofs.Rendering.Kinds

/-!
# Reading names

A name that is written is read back as the name it was, be it as a name token or as
a keyword that is not reserved.  The keyword keeps its meaning unless one of a few
other keywords follows.

## Main definitions

* `TokenKind.isNeutral` — a token that changes no keyword in front of it.

## Main results

* `nameOf?_nameKind`, `labelOf?_nameKind` — the name that a written name stands for.
* `reads_name`, `reads_label`, `reads_dottedName` — names are read back.
* `reads_optionalNameList` — lists of names are.
-/

namespace SqlSyntax

variable {R : (r : Rule) → List TokenKind → r.Result → List TokenKind → Prop}
variable {rest : List TokenKind}

/-! ### The tokens of names -/

/-- Whether a token changes no keyword in front of it that may be a name. -/
def TokenKind.isNeutral : TokenKind → Bool
  | .keyword w => w ∉ [.FIRST, .LAST, .TIME]
  | _ => true

theorem aheadKind_of_isNeutral {w : Keyword} (hw : w.category = .unreserved) {next : TokenKind}
    (h : next.isNeutral = true) : aheadKind w next.keyword? = .keyword w := by
  unfold aheadKind
  split <;> first
    | rfl
    | exact absurd hw (by decide)
    | (cases next <;> simp_all [TokenKind.keyword?, TokenKind.isNeutral])

/-- A name keeps its meaning in front of most tokens. -/
theorem before_nameKind {s : String} {next : TokenKind} (h : next.isNeutral = true) :
    (nameKind s).before next = nameKind s := by
  obtain hs | ⟨w, hs, hw, -⟩ := nameKind_cases s <;> rw [hs]
  · rfl
  · exact aheadKind_of_isNeutral hw h

theorem nameOf?_nameKind {p : Keyword → Bool} (hp : ∀ w : Keyword, w.category = .unreserved → p w = true)
    (s : String) : Grammar.nameOf? p (nameKind s) = some s := by
  obtain hs | ⟨w, hs, hw, rfl⟩ := nameKind_cases s <;> rw [hs]
  · rfl
  · simp [Grammar.nameOf?, hp w hw]

theorem labelOf?_nameKind (s : String) : Grammar.labelOf? (nameKind s) = some s := by
  obtain hs | ⟨w, hs, hw, rfl⟩ := nameKind_cases s <;> rw [hs] <;> rfl

theorem isColumnName_of_unreserved {w : Keyword} (h : w.category = .unreserved) :
    w.isColumnName = true := by
  simp [Keyword.isColumnName, h]

theorem isTypeName_of_unreserved {w : Keyword} (h : w.category = .unreserved) :
    w.isTypeName = true := by
  simp [Keyword.isTypeName, h]

namespace Grammar

open SqlSyntax.Parser (bind_eq)

theorem reads_name {s : String} (h : (firstOf rest).isNeutral = true) :
    name.ReadsWith R (settle (nameKind s :: rest)) s (settle rest) := by
  rw [settle_cons, before_nameKind h]
  simp only [name, bind_eq, reads_kind_bind, firstOf_cons,
    nameOf?_nameKind (fun _ => isColumnName_of_unreserved)]
  exact ⟨rfl, rfl⟩

theorem reads_callName {s : String} (h : (firstOf rest).isNeutral = true) :
    callName.ReadsWith R (settle (nameKind s :: rest)) s (settle rest) := by
  rw [settle_cons, before_nameKind h]
  simp only [callName, bind_eq, reads_kind_bind, firstOf_cons,
    nameOf?_nameKind (fun _ => isTypeName_of_unreserved)]
  exact ⟨rfl, rfl⟩

theorem reads_label {s : String} (h : (firstOf rest).isNeutral = true) :
    label.ReadsWith R (settle (nameKind s :: rest)) s (settle rest) := by
  rw [settle_cons, before_nameKind h]
  simp only [label, bind_eq, reads_kind_bind, firstOf_cons, labelOf?_nameKind]
  exact ⟨rfl, rfl⟩

/-- The names behind the first one of a dotted name. -/
theorem reads_labelsAfter (first names : List String) (hneutral : (firstOf rest).isNeutral = true)
    (hdot : firstOf (settle rest) ≠ .dot) :
    (itemsAfter .dot label first).ReadsWith R
      (settle (names.flatMap (fun s => [.dot, nameKind s]) ++ rest)) (first ++ names) (settle rest) :=
  reads_itemsAfter (p := fun ts => (firstOf ts).isNeutral = true) rfl (fun _ => rfl) names
    (fun _ _ _ hrest => reads_label hrest) first hneutral hdot

theorem isNeutral_labels (names : List String) (h : (firstOf rest).isNeutral = true) :
    (firstOf (names.flatMap (fun s => [.dot, nameKind s]) ++ rest)).isNeutral = true := by
  cases names with
  | nil => exact h
  | cons s names => rfl

/-- A dotted name is read back. -/
theorem reads_dottedName {names : List String} (hne : names ≠ [])
    (hneutral : (firstOf rest).isNeutral = true) (hdot : firstOf (settle rest) ≠ .dot) :
    dottedName.ReadsWith R (settle (dottedKinds names ++ rest)) names (settle rest) := by
  cases names with
  | nil => exact absurd rfl hne
  | cons s names =>
    exact Parser.readsWith_bind (reads_name (isNeutral_labels names hneutral))
      (reads_labelsAfter [s] names hneutral hdot)

/-- The tokens of names with commas between them, in parentheses. -/
def nameListKinds (names : List String) : List TokenKind :=
  .leftParen :: (commaKinds (names.map fun s => [nameKind s]) ++ [.rightParen])

theorem kindsOf_nameList (names : List String) :
    kindsOf (parens (SqlSyntax.nameList names)) = nameListKinds names := by
  rw [kindsOf_parens, SqlSyntax.nameList, kindsOf_commas, List.map_map]
  rfl

/-- Names in parentheses are read back. -/
theorem reads_nameList {names : List String} (hne : names ≠ []) :
    nameList.ReadsWith R (settle (nameListKinds names ++ rest)) names (settle rest) := by
  obtain ⟨s, names, rfl⟩ := List.exists_cons_of_ne_nil hne
  have hitem : ∀ s' ∈ s :: names, ∀ ts, (firstOf ts).isNeutral = true →
      name.ReadsWith R (settle ([nameKind s'] ++ ts)) s' (settle ts) :=
    fun _ _ _ hts => reads_name hts
  have hlist : (commaList name).ReadsWith R _ _ (settle (.rightParen :: rest)) :=
    reads_commaList (fun _ => rfl) s names hitem rfl nofun
  rw [nameListKinds, List.map_cons, commaKinds, List.cons_append, List.append_assoc, List.append_assoc,
    List.flatMap_map, settle_cons, before_eq rfl]
  exact reads_parenthesized hlist

/-- Optional names in parentheses are read back. -/
theorem reads_optionalNameList (names : List String) (h : firstOf (settle rest) ≠ .leftParen) :
    optionalNameList.ReadsWith R (settle (kindsOf (nameListIfAny [] names) ++ rest)) names
      (settle rest) := by
  cases names with
  | nil => simp [nameListIfAny, optionalNameList, h]
  | cons s names =>
    have hread : nameList.ReadsWith R (settle (nameListKinds (s :: names) ++ rest)) _ (settle rest) :=
      reads_nameList (List.cons_ne_nil s names)
    have hparen : firstOf (settle (nameListKinds (s :: names) ++ rest)) = .leftParen := rfl
    rw [nameListIfAny, List.isEmpty_cons, if_neg Bool.false_ne_true, List.nil_append, kindsOf_nameList]
    simp only [optionalNameList, bind_eq, reads_isAt_bind, hparen, decide_true, if_true]
    exact hread

end Grammar

end SqlSyntax
