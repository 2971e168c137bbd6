import SqlSyntax.Proofs.Query.Written
import SqlSyntax.Proofs.Source.Joins

/-!
# Joins are written as their tokens

Between the items of a join and its words stand gaps, and so do they in front of a condition and
of a name.

## Main results

* `Joined.written` — **a join is read as the tokens that it is written as.**
-/

namespace SqlSyntax

variable {m n : Nat} {i : Node} {j : Join}

theorem trails_condition (hj : j.IsRead n) (h : ∀ v ∈ j.condition, v.IsAtom) :
    Trails (conditionPieces j) := by
  unfold conditionPieces
  split
  · refine trails_optionalClause _ fun ps hps => ?_
    obtain ⟨v, hv, rfl⟩ := Option.map_eq_some_iff.mp hps
    exact (h v hv).written (hj.condition v hv).1
  · exact (written_nameList hj.columns).parens.written.clause _

/-- **A join is read as the tokens that it is written as.** -/
theorem Node.Joined.written (h : i.Joined) (hfits : i.SourceFits n) (hsound : i.Sound) :
    Written i.pieces := by
  induction h generalizing n with
  | table t =>
    obtain ⟨ht, hlabel⟩ := hfits
    rw [table_pieces]
    exact ht.written hlabel
  | @derivedTable es hne hes label =>
    cases hfits with
    | derivedTable htargets hlabel =>
      have hsound : (Node.select (.ofColumns es)).Sound :=
        (sound_iff.mp hsound).2 _ List.mem_cons_self
      have hquery := (Select.Elementary.columns hne hes).written (Select.fits_ofColumns htargets) hsound
      rw [derivedTable_pieces, DerivedTable.pieces]
      exact (hquery.parens.append (trails_label hlabel)).written
  | @join j hcondition _ _ ihl ihr =>
    obtain ⟨-, hbelow⟩ := sound_iff.mp hsound
    cases hfits with
    | join _ _ hj hfitsl hfitsr =>
      have hl := ihl hfitsl (hbelow _ (by simp [children]))
      have hr := ihr hfitsr (hbelow _ (by simp [children]))
      have hunnamed : Written (Node.join j.unnamed).pieces := by
        have hwords := (written_words (Join.words j.kind
          (!j.natural && j.condition.isNone && j.columns.isEmpty))).wordsIf j.natural [.NATURAL]
        rw [pieces_unnamed]
        exact ((hl.append hwords.gap).append (written_parensIf hr _).gap).append
          (trails_condition hj hcondition)
      rw [pieces_join]
      exact (written_parensIf hunnamed _).append (trails_label hj.label)

end SqlSyntax
