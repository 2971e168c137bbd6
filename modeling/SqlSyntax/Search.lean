/-!
# Search by halving

## Main definitions

* `partitionPoint` — where the elements of an array stop to pass a test.

## Main results

* `partitionPoint_append` — **the search finds where the elements that pass end.**
-/

namespace SqlSyntax

/-- The first index from `lo` to `hi` whose element fails `p`, where all that
pass stand in front; `hi` if none fails. -/
def partitionPoint {α : Type} (p : α → Bool) (xs : Array α) (lo hi : Nat) (h : hi ≤ xs.size) :
    Nat :=
  if hlt : lo < hi then
    let mid := (lo + hi) / 2
    have hmid : mid < xs.size := Nat.lt_of_lt_of_le (Nat.div_lt_of_lt_mul (by omega)) h
    if p xs[mid] then partitionPoint p xs (mid + 1) hi h
    else partitionPoint p xs lo mid (Nat.le_of_lt hmid)
  else lo
termination_by hi - lo
decreasing_by all_goals omega

theorem partitionPoint_le {α : Type} (p : α → Bool) (xs : Array α) {lo hi : Nat}
    (h : hi ≤ xs.size) (hle : lo ≤ hi) : partitionPoint p xs lo hi h ≤ hi := by
  fun_induction partitionPoint p xs lo hi h with
  | case1 lo hi h hlt mid hmid hp ih => exact ih (by omega)
  | case2 lo hi h hlt mid hmid hp ih => have := ih (by omega); omega
  | case3 lo hi h hlt => exact hle

/-- The border is found from any range around it. -/
theorem partitionPoint_eq {α : Type} {p : α → Bool} {xs : Array α} {lo hi k : Nat}
    (h : hi ≤ xs.size) (hlo : lo ≤ k) (hhi : k ≤ hi)
    (hpass : ∀ (i : Nat) (hi : i < xs.size), i < k → p xs[i] = true)
    (hfail : ∀ (i : Nat) (hi : i < xs.size), k ≤ i → p xs[i] = false) :
    partitionPoint p xs lo hi h = k := by
  fun_induction partitionPoint p xs lo hi h with
  | case1 lo hi h hlt mid hmid hp ih =>
    -- the middle passes, so the border is behind it
    refine ih (Nat.lt_of_not_le fun hk => ?_) hhi
    rw [hfail mid hmid hk] at hp
    exact Bool.false_ne_true hp
  | case2 lo hi h hlt mid hmid hp ih =>
    -- the middle fails, so the border is at it or in front
    exact ih hlo (Nat.le_of_not_lt fun hk => hp (hpass mid hmid hk))
  | case3 lo hi h hlt => omega

/-- **The search by halving** finds where the elements that pass end. -/
theorem partitionPoint_append {α : Type} {p : α → Bool} {xs : Array α} {as bs : List α}
    (hxs : xs.toList = as ++ bs) (has : ∀ a ∈ as, p a = true) (hbs : ∀ b ∈ bs, p b = false) :
    partitionPoint p xs 0 xs.size (Nat.le_refl _) = as.length := by
  obtain ⟨list⟩ := xs
  obtain rfl : list = as ++ bs := hxs
  refine partitionPoint_eq _ (Nat.zero_le _) (by simp) (fun i hi hk => ?_) fun i hi hk => ?_
  · simp only [List.getElem_toArray, List.getElem_append_left hk]
    exact has _ (List.getElem_mem _)
  · simp only [List.getElem_toArray, List.getElem_append_right hk]
    exact hbs _ (List.getElem_mem _)

end SqlSyntax
