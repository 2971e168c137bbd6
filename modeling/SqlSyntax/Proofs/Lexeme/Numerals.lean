import Mathlib.Algebra.Field.Rat
import SqlSyntax.Proofs.Lexeme.WholeNumbers

/-!
# Numerals and their values

A numeral is a whole number, or a decimal number with a point or an exponent.  Its form and its
exact value are said here without the reader, which takes the same texts for numerals.

## Main definitions

* `IsDecimal cs q` — the texts of decimal numbers, with their values.
* `IsNumeral cs q` — the texts of numerals, with their values.

## Main results

* `numeral_decimal_iff` — what is read as a numeral with a point or an exponent.
* `IsNumeral.unique` — **a numeral has one value.**
-/

namespace SqlSyntax

/-! ### Decimal numbers -/

/-- Decimal digits, or nothing. -/
inductive IsDigits : List Char → List Nat → Prop
  | nil : IsDigits [] []
  | separated {cs : List Char} {ds : List Nat} (h : Separated 10 cs ds) : IsDigits cs ds

/-- A point with the digits behind it, or nothing. -/
inductive IsFraction : List Char → List Nat → Prop
  | nil : IsFraction [] []
  | point {cs : List Char} {ds : List Nat} (h : IsDigits cs ds) : IsFraction ('.' :: cs) ds

/-- What may stand before the digits of an exponent, and the exponent `1` with it. -/
def exponentSigns : List (List Char × Int) :=
  [([], 1), (['+'], 1), (['-'], -1)]

/-- An exponent, or nothing. -/
inductive IsExponent : List Char → Int → Prop
  | nil : IsExponent [] 0
  | marked {e : Char} {sign cs : List Char} {unit : Int} {ds : List Nat} (he : e = 'e' ∨ e = 'E')
    (hsign : (sign, unit) ∈ exponentSigns) (h : Separated 10 cs ds) :
    IsExponent (e :: (sign ++ cs)) (unit * Nat.ofDigits 10 ds.reverse)

/-- A decimal number with a point or an exponent, and its exact value. -/
inductive IsDecimal : List Char → ℚ → Prop
  | parts {ws fs es : List Char} {whole fraction : List Nat} {e : Int} (hwhole : IsDigits ws whole)
    (hfraction : IsFraction fs fraction) (hexponent : IsExponent es e)
    (hdigits : whole ≠ [] ∨ fraction ≠ []) (hmarked : fs ++ es ≠ []) :
    IsDecimal (ws ++ (fs ++ es))
      ((Nat.ofDigits 10 (whole ++ fraction).reverse : Nat) * 10 ^ (e - fraction.length))

/-- A numeral and its exact value. -/
inductive IsNumeral : List Char → ℚ → Prop
  | whole {cs : List Char} {apart : Bool} {n : Nat} (h : IsWholeNumber cs apart n) : IsNumeral cs n
  | decimal {cs : List Char} {q : ℚ} (h : IsDecimal cs q) : IsNumeral cs q

variable {cs t ws fs es : List Char} {ds ds' whole fraction : List Nat} {e e' : Int} {q q' : ℚ}

/-! ### The parts of a decimal number -/

/-- The character is neither a digit nor an underscore. -/
def StopsDigits (t : List Char) : Prop :=
  ∀ x ∈ t.head?, isDigitOf 10 x = false ∧ x ≠ '_'

theorem digitRun_isDigits (h : IsDigits cs ds) (ht : StopsDigits t) :
    digitRun 10 false (cs ++ t) = cs.length := by
  have hrun : digitRun 10 false cs = cs.length := by
    cases h with
    | nil => rfl
    | separated h => exact digitRun_of_separated h false
  cases t with
  | nil => rw [List.append_nil, hrun]
  | cons x t =>
    obtain ⟨hdigit, hline⟩ := ht x rfl
    rw [digitRun_append_stop hdigit hline, hrun]

theorem IsDigits.ne_nil (h : IsDigits cs ds) (hne : cs ≠ []) : ds ≠ [] := by
  cases h with
  | nil => exact absurd rfl hne
  | separated h => cases h <;> exact List.cons_ne_nil _ _

/-- The first of some digits. -/
theorem IsDigits.head (h : IsDigits cs ds) (hne : ds ≠ []) : cs.head?.any Char.isDigit = true := by
  cases h with
  | nil => exact absurd rfl hne
  | separated h =>
    obtain ⟨c, cs', d, rfl, hc⟩ := Int4.head_separated h
    exact isDigit_of_digitValue hc

theorem IsExponent.head (h : IsExponent es e) : ∀ x ∈ es.head?, x = 'e' ∨ x = 'E' := by
  cases h with
  | nil => exact nofun
  | marked he => exact fun x hx => Option.some.inj hx ▸ he

theorem IsFraction.head (hf : IsFraction fs fraction) (he : IsExponent es e) :
    ∀ x ∈ (fs ++ es).head?, x = '.' ∨ x = 'e' ∨ x = 'E' := by
  cases hf with
  | nil => exact fun x hx => .inr (he.head x hx)
  | point => exact fun x hx => .inl (Option.some.inj hx).symm

theorem IsExponent.stopsDigits (h : IsExponent es e) : StopsDigits es := by
  intro x hx
  rcases h.head x hx with rfl | rfl <;> decide

theorem IsFraction.stopsDigits (hf : IsFraction fs fraction) (he : IsExponent es e) :
    StopsDigits (fs ++ es) := by
  intro x hx
  rcases hf.head he x hx with rfl | rfl | rfl <;> decide

theorem fractionLength_eq (hf : IsFraction fs fraction) (he : IsExponent es e) :
    fractionLength (fs ++ es) = fs.length := by
  cases hf with
  | nil =>
    cases es with
    | nil => rfl
    | cons x es =>
      refine fractionLength_of_ne ?_ es
      rcases he.head x rfl with rfl | rfl <;> decide
  | @point cs ds h =>
    -- neither a digit nor the letter of an exponent is another point
    have hdot : (cs ++ es).head? ≠ some '.' := by
      intro hhead
      cases h with
      | nil => rcases he.head '.' hhead with h | h <;> cases h
      | separated h =>
        obtain ⟨c, cs', d, rfl, hc⟩ := Int4.head_separated h
        cases hhead
        cases hc
    rw [List.cons_append, fractionLength_cons, if_neg hdot, digitRun_isDigits h he.stopsDigits,
      List.length_cons]

/-- The sign of an exponent is told from its digits. -/
theorem leadingSign_eq {sign : List Char} {unit : Int} (hsign : (sign, unit) ∈ exponentSigns)
    (h : Separated 10 cs ds) : leadingSign (sign ++ cs) = sign.length := by
  simp only [exponentSigns, List.mem_cons, Prod.mk.injEq, List.not_mem_nil, or_false] at hsign
  rcases hsign with ⟨rfl, -⟩ | ⟨rfl, -⟩ | ⟨rfl, -⟩
  · obtain ⟨c, cs', d, rfl, hc⟩ := Int4.head_separated h
    refine if_neg ?_
    rintro (hhead | hhead) <;> (cases hhead; cases hc)
  · rfl
  · rfl

theorem exponentLength_eq (h : IsExponent es e) : exponentLength es = es.length := by
  cases h with
  | nil => rfl
  | @marked e sign cs unit ds he hsign h =>
    have hpos : cs.length ≠ 0 := by
      rw [ne_eq, List.length_eq_zero_iff]
      rintro rfl
      cases h
    rw [exponentLength_cons, if_pos he, leadingSign_eq hsign h, List.drop_left,
      digitRun_of_separated h, if_neg hpos, List.length_cons, List.length_append]
    omega

/-- No part of a decimal number marks a radix. -/
theorem IsDigits.markedRadix_eq (h : IsDigits cs ds) : ∀ c ∈ cs, markedRadix c = none := by
  cases h with
  | nil => exact nofun
  | separated h => exact markedRadix_of_separated h

theorem IsFraction.markedRadix_eq (h : IsFraction fs fraction) : ∀ c ∈ fs, markedRadix c = none := by
  cases h with
  | nil => exact nofun
  | point h => exact List.forall_mem_cons.mpr ⟨rfl, h.markedRadix_eq⟩

theorem IsExponent.markedRadix_eq (h : IsExponent es e) : ∀ c ∈ es, markedRadix c = none := by
  cases h with
  | nil => exact nofun
  | @marked e sign cs unit ds he hsign h =>
    have hsigns : ∀ p ∈ exponentSigns, ∀ c ∈ p.1, markedRadix c = none := by
      simp [exponentSigns, markedRadix]
    refine List.forall_mem_cons.mpr ⟨?_, ?_⟩
    · rcases he with rfl | rfl <;> rfl
    · exact List.forall_mem_append.mpr ⟨hsigns _ hsign, markedRadix_of_separated h⟩

/-- The parts of a decimal number are found by the reader. -/
theorem numeral_parts (hwhole : IsDigits ws whole) (hfraction : IsFraction fs fraction)
    (hexponent : IsExponent es e) (hmarked : fs ++ es ≠ []) :
    numeral (ws ++ (fs ++ es)) = ⟨(ws ++ (fs ++ es)).length, true⟩ := by
  have hradix : markedLength (ws ++ (fs ++ es)) = none :=
    markedLength_of_forall (List.forall_mem_append.mpr ⟨hwhole.markedRadix_eq,
      List.forall_mem_append.mpr ⟨hfraction.markedRadix_eq, hexponent.markedRadix_eq⟩⟩)
  have hrest : (ws ++ (fs ++ es)).drop (ws.length + fs.length) = es := by
    rw [← List.append_assoc, ← List.length_append, List.drop_left]
  have hlength := List.length_pos_iff.mpr hmarked
  rw [List.length_append] at hlength
  rw [numeral, hradix, Option.elim, decimalNumeral,
    digitRun_isDigits hwhole (hfraction.stopsDigits hexponent), List.drop_left,
    fractionLength_eq hfraction hexponent, hrest, exponentLength_eq hexponent, Numeral.mk.injEq,
    decide_eq_true_eq, List.length_append, List.length_append]
  exact ⟨Nat.add_assoc _ _ _, hlength⟩

/-! ### What the reader finds -/

theorem exists_separated_take (h : digitRun 10 false cs ≠ 0) :
    ∃ ds, Separated 10 (cs.take (digitRun 10 false cs)) ds := by
  have hle := digitRun_le 10 false cs
  refine digitRun_eq_length_iff.mp ⟨?_, ?_⟩
  · rw [← List.length_pos_iff, List.length_take]
    omega
  · rw [digitRun_take 10 false cs (Nat.le_refl _), List.length_take, Nat.min_eq_left hle]

theorem exists_isDigits (cs : List Char) : ∃ ds, IsDigits (cs.take (digitRun 10 false cs)) ds := by
  by_cases hzero : digitRun 10 false cs = 0
  · rw [hzero, List.take_zero]
    exact ⟨[], .nil⟩
  · obtain ⟨ds, hds⟩ := exists_separated_take hzero
    exact ⟨ds, .separated hds⟩

theorem exists_isFraction (cs : List Char) : ∃ ds, IsFraction (cs.take (fractionLength cs)) ds := by
  cases cs with
  | nil => exact ⟨[], .nil⟩
  | cons c cs =>
    by_cases hc : c = '.'
    · subst hc
      rw [fractionLength_cons]
      by_cases hdot : cs.head? = some '.'
      · rw [if_pos hdot, List.take_zero]
        exact ⟨[], .nil⟩
      · obtain ⟨ds, hds⟩ := exists_isDigits cs
        rw [if_neg hdot, List.take_succ_cons]
        exact ⟨ds, .point hds⟩
    · rw [fractionLength_of_ne hc, List.take_zero]
      exact ⟨[], .nil⟩

/-- What is taken for the sign of an exponent is one. -/
theorem exists_sign (cs : List Char) :
    ∃ unit, (cs.take (leadingSign cs), unit) ∈ exponentSigns := by
  unfold leadingSign
  split
  · next hsign =>
    rcases hsign with hsign | hsign
    all_goals
      obtain ⟨cs', rfl⟩ := List.head?_eq_some_iff.mp hsign
    · exact ⟨1, by simp [exponentSigns]⟩
    · exact ⟨-1, by simp [exponentSigns]⟩
  · exact ⟨1, by simp [exponentSigns]⟩

theorem exists_isExponent (cs : List Char) : ∃ e, IsExponent (cs.take (exponentLength cs)) e := by
  cases cs with
  | nil => exact ⟨0, .nil⟩
  | cons c cs =>
    rw [exponentLength_cons]
    by_cases hc : c = 'e' ∨ c = 'E'
    · rw [if_pos hc]
      by_cases hzero : digitRun 10 false (cs.drop (leadingSign cs)) = 0
      · rw [if_pos hzero, List.take_zero]
        exact ⟨0, .nil⟩
      · obtain ⟨ds, hds⟩ := exists_separated_take hzero
        obtain ⟨unit, hunit⟩ := exists_sign cs
        rw [if_neg hzero, Nat.add_assoc, Nat.add_comm 1, List.take_succ_cons, List.take_add]
        exact ⟨_, .marked hc hunit hds⟩
    · rw [if_neg hc, List.take_zero]
      exact ⟨0, .nil⟩

/-- The text starts as a numeral does. -/
def StartsNumeral (cs : List Char) : Prop :=
  cs.head?.any Char.isDigit = true ∨ cs.head? = some '.' ∧ cs.tail.head?.any Char.isDigit = true

/-- Where a numeral starts there are digits, before the point or behind it. -/
theorem StartsNumeral.digits (h : StartsNumeral cs)
    (hwhole : IsDigits (cs.take (digitRun 10 false cs)) whole)
    (hfraction : IsFraction ((cs.drop (digitRun 10 false cs)).take
      (fractionLength (cs.drop (digitRun 10 false cs)))) fraction) :
    whole ≠ [] ∨ fraction ≠ [] := by
  cases cs with
  | nil => rcases h with h | ⟨h, -⟩ <;> cases h
  | cons c cs =>
    rcases h with hc | ⟨hc, hdigit⟩
    · refine .inl (hwhole.ne_nil ?_)
      rw [← List.length_pos_iff, List.length_take]
      exact Nat.lt_min.mpr ⟨digitRun_pos false cs hc, Nat.succ_pos _⟩
    · obtain rfl : c = '.' := Option.some.inj hc
      have hzero : digitRun 10 false ('.' :: cs) = 0 := rfl
      have hdot : cs.head? ≠ some '.' := by
        intro hdot
        rw [List.tail_cons, hdot] at hdigit
        cases hdigit
      have hpos : 0 < digitRun 10 false cs := by
        obtain ⟨c, cs', rfl⟩ : ∃ c cs', cs = c :: cs' := by
          cases cs with
          | nil => cases hdigit
          | cons c cs' => exact ⟨c, cs', rfl⟩
        exact digitRun_pos false cs' hdigit
      rw [hzero, List.drop_zero, fractionLength_cons, if_neg hdot, List.take_succ_cons] at hfraction
      cases hfraction with
      | point hfraction =>
        refine .inr (hfraction.ne_nil ?_)
        rw [← List.length_pos_iff, List.length_take]
        exact Nat.lt_min.mpr ⟨hpos, Nat.lt_of_lt_of_le hpos (digitRun_le 10 false cs)⟩

theorem exists_isDecimal (hstart : StartsNumeral cs) (h : numeral cs = ⟨cs.length, true⟩) :
    ∃ q, IsDecimal cs q := by
  have hradix : markedLength cs = none := by
    cases hmarked : markedLength cs with
    | none => rfl
    | some k =>
      rw [numeral, hmarked] at h
      cases h
  rw [numeral, hradix, Option.elim, decimalNumeral, Numeral.mk.injEq, decide_eq_true_eq] at h
  obtain ⟨whole, hwhole⟩ := exists_isDigits cs
  obtain ⟨fraction, hfraction⟩ := exists_isFraction (cs.drop (digitRun 10 false cs))
  obtain ⟨e, hexponent⟩ := exists_isExponent (cs.drop
    (digitRun 10 false cs + fractionLength (cs.drop (digitRun 10 false cs))))
  have hdigits := hstart.digits hwhole hfraction
  generalize digitRun 10 false cs = w at *
  generalize fractionLength (cs.drop w) = f at *
  -- the exponent takes what the fraction leaves
  have hrest : (cs.drop (w + f)).take (exponentLength (cs.drop (w + f))) = cs.drop (w + f) := by
    rw [List.take_of_length_le]
    rw [List.length_drop]
    omega
  rw [hrest] at hexponent
  have hcs : cs.take w ++ ((cs.drop w).take f ++ cs.drop (w + f)) = cs := by
    rw [← List.drop_drop, List.take_append_drop, List.take_append_drop]
  have hmarked : (cs.drop w).take f ++ cs.drop (w + f) ≠ [] := by
    rw [← List.drop_drop, List.take_append_drop, ← List.length_pos_iff, List.length_drop]
    omega
  have hparts := IsDecimal.parts hwhole hfraction hexponent hdigits hmarked
  rw [hcs] at hparts
  exact ⟨_, hparts⟩

theorem IsDecimal.startsNumeral (h : IsDecimal cs q) : StartsNumeral cs := by
  cases h with
  | @parts ws fs es whole fraction e hwhole hfraction _ hdigits _ =>
    cases hwhole with
    | nil =>
      -- without digits before it, there is a point with digits behind it
      have hfraction' := hdigits.resolve_left fun h => h rfl
      cases hfraction with
      | nil => exact absurd rfl hfraction'
      | @point cs _ h =>
        refine .inr ⟨rfl, ?_⟩
        have hhead := h.head hfraction'
        cases cs with
        | nil => cases hhead
        | cons c cs => exact hhead
    | separated h =>
      obtain ⟨c, cs', d, rfl, hc⟩ := Int4.head_separated h
      exact .inl (isDigit_of_digitValue hc)

/-- **A text is read as a numeral with a point or an exponent if and only if it is a decimal
number.** -/
theorem numeral_decimal_iff :
    (StartsNumeral cs ∧ numeral cs = ⟨cs.length, true⟩) ↔ ∃ q, IsDecimal cs q := by
  constructor
  · rintro ⟨hstart, h⟩
    exact exists_isDecimal hstart h
  · rintro ⟨q, h⟩
    refine ⟨h.startsNumeral, ?_⟩
    cases h with
    | parts hwhole hfraction hexponent _ hmarked =>
      exact numeral_parts hwhole hfraction hexponent hmarked

/-! ### One value -/

theorem Separated.unique {radix : Nat} (h : Separated radix cs ds) (h' : Separated radix cs ds') :
    ds = ds' :=
  Option.some.inj ((Int4.digits_eq_some_iff.mpr h).symm.trans (Int4.digits_eq_some_iff.mpr h'))

theorem IsDigits.unique (h : IsDigits cs ds) (h' : IsDigits cs ds') : ds = ds' := by
  cases h with
  | nil =>
    cases h' with
    | nil => rfl
    | separated h' => cases h'
  | separated h =>
    cases h' with
    | nil => cases h
    | separated h' => exact h.unique h'

theorem IsFraction.unique (h : IsFraction fs ds) (h' : IsFraction fs ds') : ds = ds' := by
  cases h with
  | nil =>
    cases h'
    rfl
  | point h =>
    cases h' with
    | point h' => exact h.unique h'

theorem IsExponent.unique (h : IsExponent es e) (h' : IsExponent es e') : e = e' := by
  cases h with
  | nil =>
    cases h'
    rfl
  | @marked c sign cs unit ds _ hsign h =>
    generalize htext : c :: (sign ++ cs) = text at h'
    cases h' with
    | nil => cases htext
    | @marked c' sign' cs' unit' ds' _ hsign' h' =>
      -- the sign ends where the digits begin
      have htext := (List.cons.inj htext).2
      have hlength : sign.length = sign'.length := by
        rw [← leadingSign_eq hsign h, htext, leadingSign_eq hsign' h']
      obtain ⟨rfl, rfl⟩ := List.append_inj htext hlength
      have hunits : ∀ p ∈ exponentSigns, ∀ p' ∈ exponentSigns, p.1 = p'.1 → p.2 = p'.2 := by
        decide
      have hunit : unit = unit' := hunits _ hsign _ hsign' rfl
      rw [h.unique h', hunit]

theorem IsDecimal.unique (h : IsDecimal cs q) (h' : IsDecimal cs q') : q = q' := by
  cases h with
  | @parts ws fs es whole fraction e hwhole hfraction hexponent _ _ =>
    generalize htext : ws ++ (fs ++ es) = text at h'
    cases h' with
    | @parts ws' fs' es' whole' fraction' e' hwhole' hfraction' hexponent' _ _ =>
      -- both times the reader finds where each part ends
      have hws : ws.length = ws'.length := by
        rw [← digitRun_isDigits hwhole (hfraction.stopsDigits hexponent), htext,
          digitRun_isDigits hwhole' (hfraction'.stopsDigits hexponent')]
      obtain ⟨rfl, hrest⟩ := List.append_inj htext hws
      have hfs : fs.length = fs'.length := by
        rw [← fractionLength_eq hfraction hexponent, hrest, fractionLength_eq hfraction' hexponent']
      obtain ⟨rfl, rfl⟩ := List.append_inj hrest hfs
      rw [hwhole.unique hwhole', hfraction.unique hfraction', hexponent.unique hexponent']

/-- The digits of a text, without the underscores between them. -/
theorem filterMap_separated {radix : Nat} (h : Separated radix cs ds) :
    cs.filterMap (digitValue radix) = ds := by
  induction h with
  | last hc => simp [hc]
  | digit hc _ ih => simp [hc, ih]
  | underscore hc _ ih => simp [hc, ih, show digitValue radix '_' = none from rfl]

/-- The value of a whole number is that of its digits in its radix. -/
theorem IsWholeNumber.value_eq {apart : Bool} {n : Nat} (h : IsWholeNumber cs apart n) :
    n = Nat.ofDigits (Int4.splitRadix cs).1
      ((Int4.splitRadix cs).2.filterMap (digitValue (Int4.splitRadix cs).1)).reverse := by
  cases h with
  | magnitude h =>
    cases h with
    | decimal h => rw [Int4.splitRadix_decimal h, filterMap_separated h]
    | marked hm h => rw [Int4.splitRadix_marked hm, filterMap_separated h]
  | @apart m radix cs ds hm h =>
    have hline : digitValue radix '_' = none := rfl
    rw [Int4.splitRadix_marked hm, List.filterMap_cons_none hline, filterMap_separated h]

/-- **A numeral has one value.** -/
theorem IsNumeral.unique (h : IsNumeral cs q) (h' : IsNumeral cs q') : q = q' := by
  have hkind {apart : Bool} {n : Nat} {q : ℚ} (h : IsWholeNumber cs apart n)
      (h' : IsDecimal cs q) : False := by
    have hwhole := (numeral_whole_iff.mpr ⟨apart, n, h⟩).2
    rw [(numeral_decimal_iff.mpr ⟨q, h'⟩).2] at hwhole
    cases hwhole
  cases h with
  | whole h =>
    cases h' with
    | whole h' => rw [h.value_eq, h'.value_eq]
    | decimal h' => exact (hkind h h').elim
  | decimal h =>
    cases h' with
    | whole h' => exact (hkind h' h).elim
    | decimal h' => exact h.unique h'

end SqlSyntax
