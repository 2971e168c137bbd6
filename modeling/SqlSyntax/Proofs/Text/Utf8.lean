import SqlSyntax.Text.Utf8

/-!
# Text and its bytes

The bytes of a character are read as that character: the first byte tells how many follow
and what the next may be, and each byte gives six more bits.

## Main results

* `piecesFrom_utf8EncodeChar` — the bytes of a character are read as the character.
* `decode_encode` — **the bytes of a text are read as the text.**
-/

namespace SqlSyntax
namespace Utf8

variable {p : Partial} {b v : Nat} {bs : List UInt8}

/-! ### Single bytes -/

theorem toNat_ofNat_of_lt (hb : b < 256) : (UInt8.ofNat b).toNat = b := by
  rw [UInt8.toNat_ofNat']
  exact Nat.mod_eq_of_lt hb

theorem piecesFrom_ascii (hb : b < 0x80) :
    piecesFrom none (UInt8.ofNat b :: bs) = .char (Char.ofNat b) :: piecesFrom none bs := by
  rw [piecesFrom, toNat_ofNat_of_lt (by omega), first, if_pos hb]
  rfl

theorem piecesFrom_lead (hb : 0x80 ≤ b) (hbyte : b < 256) (hlead : lead b = some p) :
    piecesFrom none (UInt8.ofNat b :: bs) = piecesFrom (some p) bs := by
  rw [piecesFrom, toNat_ofNat_of_lt hbyte, first, if_neg (by omega), hlead]
  rfl

/-- The last byte of a character. -/
theorem piecesFrom_last (hone : p.missing = 1) (hb : b < 64)
    (hrange : p.low ≤ b + 0x80 ∧ b + 0x80 ≤ p.high) :
    piecesFrom (some p) (UInt8.ofNat (b + 0x80) :: bs)
      = .char (Char.ofNat (p.bits * 64 + b)) :: piecesFrom none bs := by
  rw [piecesFrom, toNat_ofNat_of_lt (by omega), next, if_pos hrange]
  dsimp only
  rw [if_pos hone, Nat.add_sub_cancel]
  rfl

/-- A byte of a character that is neither the first nor the last. -/
theorem piecesFrom_more (hmore : p.missing ≠ 1) (hb : b < 64)
    (hrange : p.low ≤ b + 0x80 ∧ b + 0x80 ≤ p.high) :
    piecesFrom (some p) (UInt8.ofNat (b + 0x80) :: bs)
      = piecesFrom (some ⟨p.missing - 1, 0x80, 0xBF, p.bits * 64 + b, p.size + 1⟩) bs := by
  rw [piecesFrom, toNat_ofNat_of_lt (by omega), next, if_pos hrange]
  dsimp only
  rw [if_neg hmore, Nat.add_sub_cancel]
  rfl

/-! ### First bytes -/

/-- The first byte of a character of two bytes. -/
theorem lead_two (hlow : 2 ≤ b) (hhigh : b < 32) :
    lead (b + 0xC0) = some ⟨1, 0x80, 0xBF, b, 1⟩ := by
  rw [lead, if_pos (by omega), Nat.add_sub_cancel]

/-- The first byte of a character of three bytes, behind which the next byte may be any but
for long forms and surrogates. -/
theorem lead_three (hb : b < 16) {next : Nat} (hnext : next < 64) (hlong : b = 0 → 32 ≤ next)
    (hsurrogate : b = 13 → next < 32) :
    ∃ low high, lead (b + 0xE0) = some ⟨2, low, high, b, 1⟩ ∧
      low ≤ next + 0x80 ∧ next + 0x80 ≤ high := by
  have hbits : b + 0xE0 - 0xE0 = b := Nat.add_sub_cancel b _
  rw [lead, if_neg (by omega), hbits]
  by_cases hzero : b + 0xE0 = 0xE0
  · rw [if_pos hzero]
    exact ⟨_, _, rfl, by omega, by omega⟩
  · rw [if_neg hzero]
    by_cases hsurr : b + 0xE0 = 0xED
    · rw [if_pos hsurr]
      exact ⟨_, _, rfl, by omega, by omega⟩
    · rw [if_neg hsurr, if_pos (by omega)]
      exact ⟨_, _, rfl, by omega, by omega⟩

/-- The first byte of a character of four bytes, behind which the next byte may be any but
for long forms and values past the last code point. -/
theorem lead_four (hb : b ≤ 4) {next : Nat} (hnext : next < 64) (hlong : b = 0 → 16 ≤ next)
    (hlast : b = 4 → next < 16) :
    ∃ low high, lead (b + 0xF0) = some ⟨3, low, high, b, 1⟩ ∧
      low ≤ next + 0x80 ∧ next + 0x80 ≤ high := by
  have hbits : b + 0xF0 - 0xF0 = b := Nat.add_sub_cancel b _
  rw [lead, if_neg (by omega), if_neg (by omega), if_neg (by omega), if_neg (by omega), hbits]
  by_cases hzero : b + 0xF0 = 0xF0
  · rw [if_pos hzero]
    exact ⟨_, _, rfl, by omega, by omega⟩
  · rw [if_neg hzero]
    by_cases hfew : 0xF1 ≤ b + 0xF0 ∧ b + 0xF0 ≤ 0xF3
    · rw [if_pos hfew]
      exact ⟨_, _, rfl, by omega, by omega⟩
    · rw [if_neg hfew, if_pos (by omega)]
      exact ⟨_, _, rfl, by omega, by omega⟩

/-! ### Characters -/

/-- The bytes of a character are read as the character. -/
theorem piecesFrom_utf8EncodeChar (c : Char) (bs : List UInt8) :
    piecesFrom none (String.utf8EncodeChar c ++ bs) = .char c :: piecesFrom none bs := by
  obtain ⟨v, hv⟩ : ∃ v, c.val.toNat = v := ⟨_, rfl⟩
  have hchar : Char.ofNat v = c := by
    rw [← hv]
    exact Char.ofNat_toNat c
  have hvalid : v < 0xD800 ∨ 0xDFFF < v ∧ v < 0x110000 := by
    rw [← hv]
    exact c.valid
  rw [String.utf8EncodeChar, hv]
  by_cases hone : v ≤ 0x7F
  · rw [if_pos hone, List.singleton_append, piecesFrom_ascii (by omega), hchar]
  rw [if_neg hone]
  by_cases htwo : v ≤ 0x7FF
  · rw [if_pos htwo]
    simp only [List.cons_append, List.nil_append]
    rw [piecesFrom_lead (by omega) (by omega) (lead_two (by omega) (by omega)),
      piecesFrom_last rfl (by omega) ⟨by dsimp only; omega, by dsimp only; omega⟩]
    dsimp only
    rw [show v / 64 % 32 * 64 + v % 64 = v by omega, hchar]
  rw [if_neg htwo]
  by_cases hthree : v ≤ 0xFFFF
  · rw [if_pos hthree]
    simp only [List.cons_append, List.nil_append]
    obtain ⟨low, high, hlead, hrange⟩ : ∃ low high,
        lead (v / 4096 % 16 + 0xE0) = some ⟨2, low, high, v / 4096 % 16, 1⟩ ∧
          low ≤ v / 64 % 64 + 0x80 ∧ v / 64 % 64 + 0x80 ≤ high :=
      lead_three (by omega) (by omega) (by omega) (by omega)
    rw [piecesFrom_lead (by omega) (by omega) hlead, piecesFrom_more (by simp) (by omega) hrange,
      piecesFrom_last rfl (by omega) ⟨by dsimp only; omega, by dsimp only; omega⟩]
    dsimp only
    rw [show (v / 4096 % 16 * 64 + v / 64 % 64) * 64 + v % 64 = v by omega, hchar]
  · rw [if_neg hthree]
    simp only [List.cons_append, List.nil_append]
    obtain ⟨low, high, hlead, hrange⟩ : ∃ low high,
        lead (v / 262144 % 8 + 0xF0) = some ⟨3, low, high, v / 262144 % 8, 1⟩ ∧
          low ≤ v / 4096 % 64 + 0x80 ∧ v / 4096 % 64 + 0x80 ≤ high :=
      lead_four (by omega) (by omega) (by omega) (by omega)
    rw [piecesFrom_lead (by omega) (by omega) hlead, piecesFrom_more (by simp) (by omega) hrange,
      piecesFrom_more (by simp) (by omega) ⟨by dsimp only; omega, by dsimp only; omega⟩,
      piecesFrom_last rfl (by omega) ⟨by dsimp only; omega, by dsimp only; omega⟩]
    dsimp only
    rw [show ((v / 262144 % 8 * 64 + v / 4096 % 64) * 64 + v / 64 % 64) * 64 + v % 64 = v by omega,
      hchar]

/-! ### Texts -/

theorem pieces_encode (cs : List Char) : pieces (encode cs) = cs.map .char := by
  induction cs with
  | nil => rfl
  | cons c cs ih =>
    rw [pieces, encode, List.flatMap_cons, piecesFrom_utf8EncodeChar, List.map_cons]
    exact congrArg _ ih

theorem strict_chars (index : Nat) (cs : List Char) : strict index (cs.map .char) = .ok cs := by
  induction cs generalizing index with
  | nil => rfl
  | cons c cs ih =>
    rw [List.map_cons, strict, ih]
    rfl

/-- **The bytes of a text are read as the text.** -/
theorem decode_encode (cs : List Char) : decode (encode cs) = .ok cs := by
  rw [decode, pieces_encode, strict_chars]

end Utf8
end SqlSyntax
