import SqlSyntax.Lexeme.Basic

/-!
# Characters of words

Bare characters are those of a name that needs no quotes.  All are ASCII, so what holds of
them is found by looking at 128 characters.

## Main results

* `forall_ascii` — what holds of the first 128 characters holds of every ASCII character.
* `lowerCase_of_isBareChar`, `byteLength_of_isBareChar` — words in bare characters.
-/

namespace SqlSyntax

/-! ### Bare characters -/

/-- A property of ASCII characters is found by looking at all of them. -/
theorem forall_ascii {P : Char → Prop} (h : ∀ n : Fin 128, P (Char.ofNat n)) {c : Char}
    (hc : c.toNat < 128) : P c := by
  have hP := h ⟨c.toNat, hc⟩
  rwa [Char.ofNat_toNat] at hP

theorem toNat_lt_of_isBareChar {c : Char} (h : Quoted.isBareChar c = true) : c.toNat < 128 := by
  rw [Quoted.isBareChar, Bool.or_eq_true, Bool.or_eq_true, beq_iff_eq] at h
  rcases h with (h | h) | rfl
  · have h : c.toNat ≤ 122 := (Bool.and_eq_true_iff.mp h).2 |> of_decide_eq_true
    omega
  · have h : c.toNat ≤ 57 := (Bool.and_eq_true_iff.mp h).2 |> of_decide_eq_true
    omega
  · decide

/-- A bare character is in lower case. -/
theorem toLower_of_isBareChar {c : Char} (h : Quoted.isBareChar c = true) : c.toLower = c :=
  forall_ascii (P := fun c => Quoted.isBareChar c = true → c.toLower = c) (by decide)
    (toNat_lt_of_isBareChar h) h

theorem toLower_toUpper_of_isBareChar {c : Char} (h : Quoted.isBareChar c = true) :
    c.toUpper.toLower = c :=
  forall_ascii (P := fun c => Quoted.isBareChar c = true → c.toUpper.toLower = c) (by decide)
    (toNat_lt_of_isBareChar h) h

theorem isNamePart_of_isBareChar {c : Char} (h : Quoted.isBareChar c = true) :
    isNamePart c = true :=
  forall_ascii (P := fun c => Quoted.isBareChar c = true → isNamePart c = true) (by decide)
    (toNat_lt_of_isBareChar h) h

theorem isNamePart_toUpper {c : Char} (h : Quoted.isBareChar c = true) :
    isNamePart c.toUpper = true :=
  forall_ascii (P := fun c => Quoted.isBareChar c = true → isNamePart c.toUpper = true)
    (by decide) (toNat_lt_of_isBareChar h) h

theorem isBareChar_of_isBareStart {c : Char} (h : Quoted.isBareStart c = true) :
    Quoted.isBareChar c = true := by
  rw [Quoted.isBareStart, Bool.or_eq_true] at h
  rw [Quoted.isBareChar, Bool.or_eq_true, Bool.or_eq_true]
  exact h.imp .inl id

theorem isNameStart_of_isBareStart {c : Char} (h : Quoted.isBareStart c = true) :
    isNameStart c = true :=
  forall_ascii (P := fun c => Quoted.isBareStart c = true → isNameStart c = true) (by decide)
    (toNat_lt_of_isBareChar (isBareChar_of_isBareStart h)) h

theorem isNameStart_toUpper {c : Char} (h : Quoted.isBareStart c = true) :
    isNameStart c.toUpper = true :=
  forall_ascii (P := fun c => Quoted.isBareStart c = true → isNameStart c.toUpper = true)
    (by decide) (toNat_lt_of_isBareChar (isBareChar_of_isBareStart h)) h

/-- Only an ASCII letter becomes one in lower case. -/
theorem isAscii_of_toLower {c : Char} (h : isAscii c.toLower = true) : isAscii c = true := by
  by_cases hupper : c.val ≥ 'A'.val ∧ c.val ≤ 'Z'.val
  · have hle : c.toNat ≤ 90 := hupper.2
    exact decide_eq_true (by omega)
  · have hlower : c.toLower = c := dif_neg hupper
    rwa [hlower] at h

variable {cs : List Char}

theorem lowerCase_of_isBareChar (h : ∀ c ∈ cs, Quoted.isBareChar c = true) : lowerCase cs = cs :=
  (List.map_congr_left fun c hc => toLower_of_isBareChar (h c hc)).trans (List.map_id cs)

theorem byteLength_of_isAscii (h : ∀ c ∈ cs, isAscii c = true) : byteLength cs = cs.length := by
  induction cs with
  | nil => rfl
  | cons c cs ih =>
    have hc : c.toNat < 128 := of_decide_eq_true (h c List.mem_cons_self)
    have hsize : c.utf8Size = 1 := Char.utf8Size_eq_one_iff.mpr (Nat.le_of_lt_succ hc)
    rw [byteLength_cons, hsize, ih fun d hd => h d (List.mem_cons_of_mem c hd),
      List.length_cons, Nat.add_comm]

theorem byteLength_of_isBareChar (h : ∀ c ∈ cs, Quoted.isBareChar c = true) :
    byteLength cs = cs.length :=
  byteLength_of_isAscii fun c hc => decide_eq_true (toNat_lt_of_isBareChar (h c hc))

theorem isBareChar_of_isBareName (h : Quoted.isBareName cs = true) :
    ∀ c ∈ cs, Quoted.isBareChar c = true := by
  simp only [Quoted.isBareName, Bool.and_eq_true, List.all_eq_true] at h
  exact h.1.2

end SqlSyntax
