import SqlSyntax.Proofs.Text.Utf8
import SqlSyntax.Text.Escape

/-!
# The text of escape items

Items of an escaped literal stand for characters: a character for itself, the bytes of a
character, its code point, or the two surrogates that it has in UTF-16.  Items are assembled
without faults if and only if they stand for characters one after the other.

## Main definitions

* `Escape.highHalf`, `Escape.lowHalf` — the surrogates of a supplementary character.
* `Escape.StandsFor us c` — the items `us` together stand for the character `c`.
* `Escape.Denotes us cs` — the items `us` stand for the characters of the text `cs`.

## Main results

* `Escape.joinPair_halves`, `Escape.exists_halves` — surrogates and the characters that they are.
* `Escape.assemble_of_denotes` — **items that denote a text are assembled to it.**
* `Escape.exists_denotes` — **items without faults denote a text.**
-/

namespace SqlSyntax
namespace Escape

variable {c : Char} {cs : List Char} {us us' : List Item} {high low n : Nat}

/-! ### Surrogates -/

/-- The first surrogate of a supplementary character in UTF-16. -/
def highHalf (c : Char) : Nat :=
  0xD800 + (c.toNat - 0x10000) / 0x400

/-- The second surrogate of a supplementary character in UTF-16. -/
def lowHalf (c : Char) : Nat :=
  0xDC00 + (c.toNat - 0x10000) % 0x400

theorem isHigh_iff : isHigh n = true ↔ 0xD800 ≤ n ∧ n ≤ 0xDBFF := by
  rw [isHigh, Bool.and_eq_true, decide_eq_true_eq, decide_eq_true_eq]

theorem isLow_iff : isLow n = true ↔ 0xDC00 ≤ n ∧ n ≤ 0xDFFF := by
  rw [isLow, Bool.and_eq_true, decide_eq_true_eq, decide_eq_true_eq]

/-- A character is no surrogate, and not past the last code point. -/
theorem toNat_valid (c : Char) : c.toNat < 0xD800 ∨ 0xDFFF < c.toNat ∧ c.toNat < 0x110000 :=
  c.valid

theorem isHigh_highHalf (c : Char) : isHigh (highHalf c) = true := by
  have hvalid := toNat_valid c
  rw [isHigh_iff, highHalf]
  omega

theorem isLow_lowHalf (c : Char) : isLow (lowHalf c) = true := by
  rw [isLow_iff, lowHalf]
  omega

theorem isLow_eq_false_of_isHigh (h : isHigh n = true) : isLow n = false := by
  rw [isHigh_iff] at h
  rw [← Bool.not_eq_true, isLow_iff]
  omega

theorem not_surrogate (c : Char) : isLow c.toNat = false ∧ isHigh c.toNat = false := by
  have hvalid := toNat_valid c
  rw [← Bool.not_eq_true, ← Bool.not_eq_true, isLow_iff, isHigh_iff]
  omega

/-- The surrogates of a character stand for its code point. -/
theorem joinPair_halves (hc : 0x10000 ≤ c.toNat) : joinPair (highHalf c) (lowHalf c) = c.toNat := by
  unfold joinPair highHalf lowHalf
  omega

theorem toNat_ofNat_of_valid (h : n.isValidChar) : (Char.ofNat n).toNat = n := by
  rw [Char.ofNat, dif_pos h]
  rfl

/-- Two surrogates are those of a character. -/
theorem exists_halves (hhigh : isHigh high = true) (hlow : isLow low = true) :
    ∃ c : Char, 0x10000 ≤ c.toNat ∧ highHalf c = high ∧ lowHalf c = low := by
  rw [isHigh_iff] at hhigh
  rw [isLow_iff] at hlow
  have hvalid : (joinPair high low).isValidChar := by
    unfold joinPair Nat.isValidChar
    omega
  refine ⟨Char.ofNat (joinPair high low), ?_⟩
  rw [highHalf, lowHalf, toNat_ofNat_of_valid hvalid]
  unfold joinPair
  omega

/-! ### What items stand for -/

/-- The items together stand for one character. -/
inductive StandsFor : List Item → Char → Prop
  /-- A character as it is. -/
  | char (c : Char) : StandsFor [.char c] c
  /-- All bytes of a character. -/
  | bytes {c : Char} (hc : c ≠ '\x00') : StandsFor ((String.utf8EncodeChar c).map .byte) c
  /-- The code point of a character. -/
  | code {c : Char} (hc : c ≠ '\x00') : StandsFor [.code c.toNat] c
  /-- The surrogates of a supplementary character. -/
  | pair {c : Char} (hc : 0x10000 ≤ c.toNat) : StandsFor [.code (highHalf c), .code (lowHalf c)] c

/-- The items stand for the characters of a text, one after the other. -/
inductive Denotes : List Item → List Char → Prop
  | nil : Denotes [] []
  | cons {us us' : List Item} {c : Char} {cs : List Char} (h : StandsFor us c)
    (hs : Denotes us' cs) : Denotes (us ++ us') (c :: cs)

theorem Denotes.one {u : Item} (h : StandsFor [u] c) (hs : Denotes us cs) :
    Denotes (u :: us) (c :: cs) :=
  .cons h hs

theorem Denotes.two {u v : Item} (h : StandsFor [u, v] c) (hs : Denotes us cs) :
    Denotes (u :: v :: us) (c :: cs) :=
  .cons h hs

/-! ### Items that denote a text -/

theorem toNat_ne_zero (hc : c ≠ '\x00') : c.toNat ≠ 0 := by
  intro hzero
  rw [← Char.ofNat_toNat c, hzero] at hc
  exact hc rfl

theorem codeAtom_toNat (hc : c ≠ '\x00') : codeAtom c.toNat = .bytes (String.utf8EncodeChar c) := by
  rw [codeAtom, if_pos ⟨c.valid, toNat_ne_zero hc⟩, Char.ofNat_toNat]

/-- Only the character zero has the byte zero. -/
theorem ne_zero_of_mem_utf8EncodeChar (hc : c ≠ '\x00') :
    ∀ b ∈ String.utf8EncodeChar c, b ≠ 0 := by
  have hzero : c.val.toNat ≠ 0 := toNat_ne_zero hc
  have hbyte {v : Nat} (hpos : 0 < v) (hv : v < 256) : UInt8.ofNat v ≠ 0 := by
    intro heq
    have heq := congrArg UInt8.toNat heq
    rw [Utf8.toNat_ofNat_of_lt hv] at heq
    exact absurd heq (Nat.ne_of_gt hpos)
  unfold String.utf8EncodeChar
  generalize c.val.toNat = v at hzero
  dsimp only
  -- a character beyond ASCII has no byte below 0x80
  split
  · exact List.forall_mem_singleton.mpr (hbyte (by omega) (by omega))
  split
  · simp only [List.forall_mem_cons]
    exact ⟨hbyte (by omega) (by omega), hbyte (by omega) (by omega), nofun⟩
  split
  · simp only [List.forall_mem_cons]
    exact ⟨hbyte (by omega) (by omega), hbyte (by omega) (by omega), hbyte (by omega) (by omega),
      nofun⟩
  · simp only [List.forall_mem_cons]
    exact ⟨hbyte (by omega) (by omega), hbyte (by omega) (by omega), hbyte (by omega) (by omega),
      hbyte (by omega) (by omega), nofun⟩

theorem atoms_bytes {bs : List UInt8} (hbs : ∀ b ∈ bs, b ≠ 0) (us : List Item) :
    atoms none (bs.map .byte ++ us) = bs.map (fun b => .bytes [b]) ++ atoms none us := by
  induction bs with
  | nil => rfl
  | cons b bs ih =>
    rw [List.forall_mem_cons] at hbs
    rw [List.map_cons, List.cons_append, atoms, if_neg hbs.1, ih hbs.2]
    rfl

/-- What items for a character contribute: its bytes, and no faults. -/
theorem StandsFor.atoms_append (h : StandsFor us c) : ∃ as, (∀ us', atoms none (us ++ us')
    = as ++ atoms none us') ∧ as.flatMap Atom.toBytes = String.utf8EncodeChar c ∧
      as.filterMap Atom.fault? = [] := by
  cases h with
  | char => exact ⟨[.bytes (String.utf8EncodeChar c)], fun _ => rfl, List.append_nil _, rfl⟩
  | bytes hc =>
    refine ⟨_, atoms_bytes (ne_zero_of_mem_utf8EncodeChar hc), ?_, ?_⟩
    · rw [List.flatMap_map]
      exact List.flatMap_singleton' _
    · rw [List.filterMap_map]
      exact List.filterMap_eq_nil_iff.mpr fun _ _ => rfl
  | code hc =>
    refine ⟨[codeAtom c.toNat], fun us' => ?_, ?_, ?_⟩
    · obtain ⟨hlow, hhigh⟩ := not_surrogate c
      rw [List.singleton_append, atoms, hlow, hhigh]
      rfl
    all_goals rw [codeAtom_toNat hc]
    · exact List.append_nil _
    · rfl
  | pair hc =>
    have hzero : c ≠ '\x00' := by
      rintro rfl
      exact absurd hc (by decide)
    refine ⟨[codeAtom (joinPair (highHalf c) (lowHalf c))], fun us' => ?_, ?_, ?_⟩
    · rw [List.cons_append, List.singleton_append, atoms,
        isLow_eq_false_of_isHigh (isHigh_highHalf c), isHigh_highHalf, if_neg Bool.false_ne_true,
        if_pos rfl, atoms, isLow_lowHalf, if_pos rfl]
      rfl
    all_goals rw [joinPair_halves hc, codeAtom_toNat hzero]
    · exact List.append_nil _
    · rfl

/-- **Items that denote a text are assembled to it, without faults.** -/
theorem assemble_of_denotes (h : Denotes us cs) : assemble us = ⟨cs, []⟩ := by
  have hatoms : (atoms none us).flatMap Atom.toBytes = Utf8.encode cs ∧
      (atoms none us).filterMap Atom.fault? = [] := by
    induction h with
    | nil => exact ⟨rfl, rfl⟩
    | @cons us us' c cs h _ ih =>
      obtain ⟨as, hcut, hbytes, hfaults⟩ := h.atoms_append
      rw [hcut, List.flatMap_append, List.filterMap_append, hbytes, hfaults, ih.1, ih.2]
      exact ⟨rfl, rfl⟩
  unfold assemble
  simp only [hatoms, Utf8.decode_encode]

theorem Denotes.malformed_not_mem (h : Denotes us cs) : .malformed ∉ us := by
  induction h with
  | nil => exact List.not_mem_nil
  | cons h _ ih =>
    rw [List.mem_append, not_or]
    refine ⟨?_, ih⟩
    cases h with
    | bytes hc =>
      intro hmem
      obtain ⟨b, -, hb⟩ := List.mem_map.mp hmem
      cases hb
    | _ => simp

/-! ### Items without faults -/

/-- A code point without a fault is a character. -/
theorem exists_of_codeAtom (h : (codeAtom n).fault? = none) :
    ∃ c : Char, c ≠ '\x00' ∧ c.toNat = n := by
  unfold codeAtom at h
  split at h
  · next hn =>
    have htoNat := toNat_ofNat_of_valid hn.1
    refine ⟨Char.ofNat n, ?_, htoNat⟩
    intro hzero
    rw [hzero] at htoNat
    exact hn.2 htoNat.symm
  · cases h

/-- The first half of a pair as an item. -/
def pendingItems (pending : Option Nat) : List Item :=
  pending.elim [] fun high => [.code high]

/-- **Items without faults denote a text.**  The first half of a pair may come before them. -/
theorem exists_denotes {pending : Option Nat} (hpending : ∀ high ∈ pending, isHigh high = true)
    (hus : ∀ b, .byte b ∉ us) (h : ∀ a ∈ atoms pending us, a.fault? = none) :
    ∃ cs, Denotes (pendingItems pending ++ us) cs := by
  induction us generalizing pending with
  | nil =>
    cases pending with
    | none => exact ⟨[], .nil⟩
    | some high => cases h _ List.mem_cons_self
  | cons u us ih =>
    have hrest : ∀ b, .byte b ∉ us := fun b hb => hus b (List.mem_cons_of_mem u hb)
    have hnone : ∀ high ∈ (none : Option Nat), isHigh high = true := nofun
    have hnext : (∀ a ∈ atoms none us, a.fault? = none) → ∃ cs, Denotes us cs := ih hnone hrest
    cases pending with
    | none =>
      cases u with
      | char c =>
        obtain ⟨cs, hcs⟩ := hnext (List.forall_mem_cons.mp h).2
        exact ⟨c :: cs, .one (.char c) hcs⟩
      | byte b => exact absurd List.mem_cons_self (hus b)
      | malformed => cases h _ List.mem_cons_self
      | code n =>
        rw [atoms] at h
        split at h
        · cases h _ List.mem_cons_self
        split at h
        · next hhigh =>
          have hsome : ∀ high ∈ some n, isHigh high = true := by
            rintro _ ⟨⟩
            exact hhigh
          exact ih hsome hrest h
        · rw [List.forall_mem_cons] at h
          obtain ⟨c, hc, rfl⟩ := exists_of_codeAtom h.1
          obtain ⟨cs, hcs⟩ := hnext h.2
          exact ⟨c :: cs, .one (.code hc) hcs⟩
    | some high =>
      -- only the second half of the pair may come next
      cases u with
      | char c => cases h _ List.mem_cons_self
      | byte b => exact absurd List.mem_cons_self (hus b)
      | malformed => cases h _ List.mem_cons_self
      | code n =>
        rw [atoms] at h
        split at h
        · next hlow =>
          obtain ⟨c, hc, rfl, rfl⟩ := exists_halves (hpending high rfl) hlow
          obtain ⟨cs, hcs⟩ := hnext (List.forall_mem_cons.mp h).2
          exact ⟨c :: cs, .two (.pair hc) hcs⟩
        split at h
        · cases h _ List.mem_cons_self
        · cases h _ List.mem_cons_self

/-- A text without faults has atoms without faults. -/
theorem fault?_of_faults_assemble (h : (assemble us).faults = []) :
    ∀ a ∈ atoms none us, a.fault? = none := by
  unfold assemble at h
  dsimp only at h
  split at h
  · exact List.filterMap_eq_nil_iff.mp h
  · exact absurd h (List.append_ne_nil_of_right_ne_nil _ (List.cons_ne_nil _ _))

end Escape
end SqlSyntax
