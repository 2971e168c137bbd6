import SqlSyntax.Proofs.Expression.Calls
import SqlSyntax.Proofs.Expression.Steps

/-!
# Plain expressions are read back

Every plain expression is read back from its tokens as it is written, wherever what
follows lets it end.

## Main results

* `Node.Plain.leads` — **a plain expression is read back.**
-/

namespace SqlSyntax

open Grammar

theorem isEscapeCall_call {kind : OperationKind} {c : Call} (hlike : c.isSpecial "like_escape" = false)
    (hsimilar : c.isSpecial "similar_to_escape" = false) : isEscapeCall kind (.call c) = false := by
  cases kind <;> simp [isEscapeCall, matchForm?, hlike, hsimilar]

/-- No plain expression is the call that stands for a pattern with its escape
character. -/
theorem Node.Plain.isEscapeCall_eq {n : Node} (h : n.Plain) (kind : OperationKind) :
    isEscapeCall kind n = false := by
  cases h with
  | extract _ _ => exact isEscapeCall_call rfl rfl
  | timeZone _ _ => exact isEscapeCall_call rfl rfl
  | call _ _ _ => exact isEscapeCall_call (Bool.and_false _) (Bool.and_false _)
  | starCall _ _ _ => exact isEscapeCall_call (Bool.and_false _) (Bool.and_false _)
  | fullCall _ _ _ _ _ _ _ _ => exact isEscapeCall_call (Bool.and_false _) (Bool.and_false _)
  | range negated anyOrder _ _ _ => cases negated <;> cases anyOrder <;> rfl
  | _ => rfl

/-- A plain expression is read back. -/
theorem Node.Plain.leads {n : Node} (h : n.Plain) : n.Leads := by
  induction h with
  | const h => exact leads_const h
  | column hne h star => exact leads_column hne star
  | param h => exact leads_param _
  | prefixed hop hlevel _ hsign harg => exact leads_prefixed hop hlevel harg hsign
  | operation hkind hop _ _ hl hr =>
    rcases hkind with rfl | rfl | rfl
    · exact leads_binary hop hl hr
    · exact leads_quantified false hop hl hr
    · exact leads_quantified true hop hl hr
  | distinct negated _ _ hl hr => exact leads_distinct negated hl hr
  | nullIf _ _ hl hr => exact leads_nullIf hl hr
  | inList negated _ hne _ harg hitems => exact leads_inList negated harg hne hitems
  | range negated anyOrder _ _ _ harg hlow hhigh =>
    exact leads_range negated anyOrder harg hlow hhigh
  | matched hm negated _ hpattern _ harg hp hescape =>
    exact leads_matched hm negated harg hp (hpattern.isEscapeCall_eq _) hescape
  | junction hop hne hflat _ _ hfirst hmore => exact leads_junction hop hne hflat hfirst hmore
  | negation _ harg => exact leads_negation harg
  | nullTest negated _ harg => exact leads_nullTest negated harg
  | truthTest truth negated _ harg => exact leads_truthTest truth negated harg
  | call hne _ _ hfilter => exact leads_call hne hfilter
  | starCall hne _ _ hfilter => exact leads_starCall hne hfilter
  | fullCall hne _ _ hsome _ _ _ hdirections distinct hfilter hargs hkeys =>
    exact leads_fullCall hne hfilter hsome hargs hkeys hdirections distinct
  | extract _ _ hsource => exact leads_extract _ hsource
  | timeZone _ _ hzone hsource => exact leads_timeZone hzone hsource
  | cast _ htype _ harg hmodifiers => exact leads_cast harg htype hmodifiers
  | collate _ hne _ harg => exact leads_collate harg hne
  | caseExpr _ hne _ _ _ hoperand hconditions hresults hotherwise =>
    exact leads_case hoperand hne hconditions hresults hotherwise
  | array _ hes => exact leads_array hes
  | @row fs explicit _ hmarked hfs =>
    cases explicit with
    | true => exact leads_row hfs
    | false =>
      match fs, hmarked rfl with
      | first :: second :: more, _ =>
        exact leads_bareRow (List.cons_ne_nil second more) (hfs first List.mem_cons_self)
          fun n hn => hfs n (List.mem_cons_of_mem first hn)
  | indirection hplain hne hapart hsteps _ harg hbounds =>
    exact leads_indirection hplain harg hne hapart hsteps hbounds
  | coalesce hne _ hargs => exact leads_coalesce hne hargs
  | extremum op hne _ hargs => exact leads_extremum op hne hargs
  | @valueFunction f precision h =>
    refine leads_valueFunction fun hsome => ?_
    obtain ⟨p, hp⟩ := Option.isSome_iff_exists.mp hsome
    exact (h p hp).1

end SqlSyntax
