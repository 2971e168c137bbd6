import Mathlib.Data.List.TakeWhile
import SqlSyntax.Number.Int4
import SqlSyntax.Proofs.Number.Digits

/-!
# The texts of 32-bit integers

A text is that of an integer if it has a form that is said here without the reader: blanks,
a sign, a magnitude and blanks.  The reader finds the value of each such text, although it
keeps no value beyond 32 bits, and refuses all other texts.

## Main definitions

* `Separated radix cs ds` — digits that single underscores may separate.
* `Int4.IsMagnitude`, `Int4.IsSigned`, `Int4.IsInteger` — the texts of integers.

## Main results

* `Int4.digits_eq_some_iff` — the digits of a magnitude.
* `Int4.foldl_step` — the value that is kept is the exact one until it is too large.
* `Int4.parse_of_isInteger`, `Int4.isInteger_of_parse` — a text is refused as malformed if and
  only if it is no integer.
* `Int4.read_iff` — **the strict conversion is exact.**
-/

namespace SqlSyntax

/-- Digits of a radix with these values.  A single underscore may stand between two. -/
inductive Separated (radix : Nat) : List Char → List Nat → Prop
  | last {c : Char} {d : Nat} (hc : digitValue radix c = some d) : Separated radix [c] [d]
  | digit {c : Char} {d : Nat} {cs : List Char} {ds : List Nat} (hc : digitValue radix c = some d)
    (h : Separated radix cs ds) : Separated radix (c :: cs) (d :: ds)
  | underscore {c : Char} {d : Nat} {cs : List Char} {ds : List Nat}
    (hc : digitValue radix c = some d) (h : Separated radix cs ds) :
    Separated radix (c :: '_' :: cs) (d :: ds)

namespace Int4

variable {radix n : Nat} {c : Char} {cs before body after : List Char} {ds : List Nat} {v : Int}

/-- The characters that mark a radix behind a zero. -/
def marks : List (Char × Nat) :=
  [('x', 16), ('X', 16), ('o', 8), ('O', 8), ('b', 2), ('B', 2)]

/-- A magnitude: decimal digits, or a zero, the mark of a radix and digits of it. -/
inductive IsMagnitude : List Char → Nat → Prop
  | decimal {cs : List Char} {ds : List Nat} (h : Separated 10 cs ds) :
    IsMagnitude cs (Nat.ofDigits 10 ds.reverse)
  | marked {m : Char} {radix : Nat} {cs : List Char} {ds : List Nat} (hm : (m, radix) ∈ marks)
    (h : Separated radix cs ds) : IsMagnitude ('0' :: m :: cs) (Nat.ofDigits radix ds.reverse)

/-- A magnitude behind an optional sign. -/
inductive IsSigned : List Char → Int → Prop
  | bare {cs : List Char} {n : Nat} (h : IsMagnitude cs n) : IsSigned cs n
  | plus {cs : List Char} {n : Nat} (h : IsMagnitude cs n) : IsSigned ('+' :: cs) n
  | minus {cs : List Char} {n : Nat} (h : IsMagnitude cs n) : IsSigned ('-' :: cs) (-n)

/-- The text of an integer: a signed magnitude between optional blanks. -/
def IsInteger (cs : List Char) (v : Int) : Prop :=
  ∃ before body after, cs = before ++ body ++ after ∧ (∀ c ∈ before, isAsciiBlank c = true) ∧
    (∀ c ∈ after, isAsciiBlank c = true) ∧ IsSigned body v

/-! ### Digits and underscores -/

theorem ne_underscore (hc : digitValue radix c = some n) : c ≠ '_' := by
  rintro rfl
  cases hc

theorem digitsFrom_cons {expecting : Bool} (hc : digitValue radix c = some n) (cs : List Char) :
    digitsFrom radix expecting (c :: cs) = (digitsFrom radix false cs).map (n :: ·) := by
  rw [digitsFrom, if_neg (ne_underscore hc), hc]
  cases digitsFrom radix false cs <;> rfl

theorem digitsFrom_of_separated (h : Separated radix cs ds) (expecting : Bool) :
    digitsFrom radix expecting cs = some ds := by
  induction h generalizing expecting with
  | last hc =>
    rw [digitsFrom_cons hc]
    rfl
  | digit hc _ ih =>
    rw [digitsFrom_cons hc, ih false]
    rfl
  | @underscore c d cs ds hc _ ih =>
    have hline : digitsFrom radix false ('_' :: cs) = digitsFrom radix true cs := rfl
    rw [digitsFrom_cons hc, hline, ih true]
    rfl

/-- Where no digit has to come next, one has come before. -/
theorem separated_of_digitsFrom {expecting : Bool} (h : digitsFrom radix expecting cs = some ds) :
    (expecting = true → Separated radix cs ds) ∧
      (expecting = false → ∀ c d, digitValue radix c = some d → Separated radix (c :: cs) (d :: ds)) := by
  induction cs generalizing expecting ds with
  | nil =>
    cases expecting with
    | true => cases h
    | false =>
      cases h
      exact ⟨nofun, fun _ c d hc => .last hc⟩
  | cons x xs ih =>
    by_cases hline : x = '_'
    · -- behind an underscore a digit has to come
      subst hline
      cases expecting with
      | true => cases h
      | false =>
        have h : digitsFrom radix true xs = some ds := h
        exact ⟨nofun, fun _ c d hc => .underscore hc ((ih h).1 rfl)⟩
    · cases hx : digitValue radix x with
      | none =>
        rw [digitsFrom, if_neg hline, hx] at h
        cases h
      | some d =>
        rw [digitsFrom_cons hx, Option.map_eq_some_iff] at h
        obtain ⟨es, hes, rfl⟩ := h
        have hsep : Separated radix (x :: xs) (d :: es) := (ih hes).2 rfl x d hx
        exact ⟨fun _ => hsep, fun _ c e hc => .digit hc hsep⟩

theorem digits_eq_some_iff : digits radix cs = some ds ↔ Separated radix cs ds :=
  ⟨fun h => (separated_of_digitsFrom h).1 rfl, fun h => digitsFrom_of_separated h true⟩

/-- A digit comes first. -/
theorem head_separated (h : Separated radix cs ds) :
    ∃ c cs' d, cs = c :: cs' ∧ digitValue radix c = some d := by
  cases h with
  | last hc => exact ⟨_, _, _, rfl, hc⟩
  | digit hc _ => exact ⟨_, _, _, rfl, hc⟩
  | underscore hc _ => exact ⟨_, _, _, rfl, hc⟩

/-- Only digits and underscores stand there. -/
theorem mem_separated (h : Separated radix cs ds) (hc : c ∈ cs) :
    c = '_' ∨ ∃ d, digitValue radix c = some d := by
  induction h with
  | last hd =>
    rw [List.mem_singleton] at hc
    exact .inr ⟨_, hc ▸ hd⟩
  | digit hd _ ih =>
    rcases List.mem_cons.mp hc with rfl | hc
    · exact .inr ⟨_, hd⟩
    · exact ih hc
  | underscore hd _ ih =>
    rcases List.mem_cons.mp hc with rfl | hc
    · exact .inr ⟨_, hd⟩
    rcases List.mem_cons.mp hc with rfl | hc
    · exact .inl rfl
    · exact ih hc

/-- Digits alone are separated too. -/
theorem separated_of_areDigits (h : AreDigits radix cs ds) (hne : cs ≠ []) :
    Separated radix cs ds := by
  induction h with
  | nil => exact absurd rfl hne
  | cons hc hrest ih =>
    cases hrest with
    | nil => exact .last hc
    | cons => exact .digit hc (ih (List.cons_ne_nil _ _))

/-! ### The value that is kept -/

/-- The value that is kept is the exact one, until that is too large. -/
theorem foldl_step (hradix : 0 < radix) (ds : List Nat) :
    ds.foldl (step radix) 0 = min (Nat.ofDigits radix ds.reverse) overflow := by
  induction ds using List.reverseRecOn with
  | nil => rfl
  | append_singleton ds d ih =>
    rw [List.foldl_append, ih, List.foldl_cons, List.foldl_nil, step, ofDigits_reverse_concat]
    rcases Nat.le_total (Nat.ofDigits radix ds.reverse) overflow with hle | hge
    · rw [Nat.min_eq_left hle]
    · -- what is too large stays so with more digits
      have hkept : overflow ≤ overflow * radix := Nat.le_mul_of_pos_right _ hradix
      have hexact := Nat.mul_le_mul_right radix hge
      rw [Nat.min_eq_right hge]
      omega

/-- The values that are formed when digits are added to a value one by one, each before it is
stopped. -/
def formedFrom (radix : Nat) : Nat → List Nat → List Nat
  | _, [] => []
  | value, d :: ds => (value * radix + d) :: formedFrom radix (step radix value d) ds

/-- The values that are formed from the digits of a text. -/
def formed (cs : List Char) : List Nat :=
  let (radix, body) := splitRadix (splitSign (trim cs)).2
  formedFrom radix 0 (body.filterMap (digitValue radix))

/-- With one more digit a value that was kept fits a 64-bit word. -/
theorem formedFrom_lt {value : Nat} (hradix : radix ≤ 16) (hvalue : value ≤ overflow)
    (hds : ∀ d ∈ ds, d < radix) : ∀ w ∈ formedFrom radix value ds, w < 2 ^ 64 := by
  induction ds generalizing value with
  | nil => exact nofun
  | cons d ds ih =>
    rw [List.forall_mem_cons] at hds
    have hproduct := Nat.mul_le_mul hvalue hradix
    have hfits : value * radix + d < 2 ^ 64 := by
      unfold overflow at hproduct
      omega
    -- what is kept for the next digit is stopped again
    have hkept : step radix value d ≤ overflow := Nat.min_le_right _ _
    exact List.forall_mem_cons.mpr ⟨hfits, ih hkept hds.2⟩

/-! ### Blanks -/

theorem dropWhile_blanks {p : Char → Bool} (hblank : ∀ c ∈ before, p c = true)
    (hbody : ∀ c ∈ body, p c = false) (hne : body ≠ []) (after : List Char) :
    (before ++ (body ++ after)).dropWhile p = body ++ after := by
  rw [List.dropWhile_append_of_pos hblank]
  cases body with
  | nil => exact absurd rfl hne
  | cons c cs =>
    rw [List.cons_append, List.dropWhile_cons_of_neg]
    rw [hbody c List.mem_cons_self]
    exact Bool.false_ne_true

theorem trim_between (hbefore : ∀ c ∈ before, isAsciiBlank c = true)
    (hafter : ∀ c ∈ after, isAsciiBlank c = true) (hbody : ∀ c ∈ body, isAsciiBlank c = false)
    (hne : body ≠ []) : trim (before ++ body ++ after) = body := by
  rw [trim, List.append_assoc, dropWhile_blanks hbefore hbody hne, List.reverse_append,
    ← List.append_nil body.reverse, dropWhile_blanks, List.append_nil, List.reverse_reverse]
  · exact fun c hc => hafter c (List.mem_reverse.mp hc)
  · exact fun c hc => hbody c (List.mem_reverse.mp hc)
  · rwa [ne_eq, List.reverse_eq_nil_iff]

/-- Only blanks are removed. -/
theorem exists_trim (cs : List Char) : ∃ before after, cs = before ++ trim cs ++ after ∧
    (∀ c ∈ before, isAsciiBlank c = true) ∧ ∀ c ∈ after, isAsciiBlank c = true := by
  refine ⟨cs.takeWhile isAsciiBlank,
    ((cs.dropWhile isAsciiBlank).reverse.takeWhile isAsciiBlank).reverse, ?_,
    fun c hc => List.mem_takeWhile_imp hc,
    fun c hc => List.mem_takeWhile_imp (List.mem_reverse.mp hc)⟩
  rw [trim, List.append_assoc, ← List.reverse_append, List.takeWhile_append_dropWhile,
    List.reverse_reverse, List.takeWhile_append_dropWhile]

theorem not_blank_of_digitValue (hc : digitValue radix c = some n) : isAsciiBlank c = false := by
  simp only [isAsciiBlank, Bool.or_eq_false_iff, beq_eq_false_iff_ne]
  refine ⟨⟨⟨⟨?_, ?_⟩, ?_⟩, ?_⟩, ?_⟩ <;> rintro rfl <;> cases hc

theorem not_blank_of_separated (h : Separated radix cs ds) : ∀ c ∈ cs, isAsciiBlank c = false := by
  intro c hc
  rcases mem_separated h hc with rfl | ⟨d, hd⟩
  · rfl
  · exact not_blank_of_digitValue hd

theorem not_blank_of_isMagnitude (h : IsMagnitude cs n) : ∀ c ∈ cs, isAsciiBlank c = false := by
  cases h with
  | decimal h => exact not_blank_of_separated h
  | marked hm h =>
    have hmark : ∀ p ∈ marks, isAsciiBlank p.1 = false := by decide
    exact List.forall_mem_cons.mpr ⟨rfl, List.forall_mem_cons.mpr ⟨hmark _ hm, not_blank_of_separated h⟩⟩

/-! ### Signs and marks -/

theorem splitSign_cases (cs : List Char) : (∃ w, cs = '-' :: w ∧ splitSign cs = (true, w)) ∨
    (∃ w, cs = '+' :: w ∧ splitSign cs = (false, w)) ∨ splitSign cs = (false, cs) := by
  unfold splitSign
  split
  · exact .inl ⟨_, rfl, rfl⟩
  · exact .inr (.inl ⟨_, rfl, rfl⟩)
  · exact .inr (.inr rfl)

theorem splitRadix_cases (cs : List Char) : (∃ m radix w, (m, radix) ∈ marks ∧
    cs = '0' :: m :: w ∧ splitRadix cs = (radix, w)) ∨ splitRadix cs = (10, cs) := by
  unfold splitRadix
  split
  · next m w =>
    split
    · next hm => exact .inl ⟨m, 16, w, by rcases hm with rfl | rfl <;> decide, rfl, rfl⟩
    split
    · next hm => exact .inl ⟨m, 8, w, by rcases hm with rfl | rfl <;> decide, rfl, rfl⟩
    split
    · next hm => exact .inl ⟨m, 2, w, by rcases hm with rfl | rfl <;> decide, rfl, rfl⟩
    · exact .inr rfl
  · exact .inr rfl

theorem splitRadix_marked {m : Char} (hm : (m, radix) ∈ marks) (cs : List Char) :
    splitRadix ('0' :: m :: cs) = (radix, cs) := by
  simp only [marks, List.mem_cons, Prod.mk.injEq, List.not_mem_nil, or_false] at hm
  rcases hm with ⟨rfl, rfl⟩ | ⟨rfl, rfl⟩ | ⟨rfl, rfl⟩ | ⟨rfl, rfl⟩ | ⟨rfl, rfl⟩ | ⟨rfl, rfl⟩ <;> rfl

/-- Decimal digits have no mark. -/
theorem splitRadix_decimal (h : Separated 10 cs ds) : splitRadix cs = (10, cs) := by
  refine (splitRadix_cases cs).resolve_left ?_
  rintro ⟨m, radix, w, hm, rfl, -⟩
  have hmark : ∀ p ∈ marks, p.1 ≠ '_' ∧ digitValue 10 p.1 = none := by decide
  obtain ⟨hline, hnone⟩ := hmark _ hm
  rcases mem_separated h (List.mem_cons_of_mem _ List.mem_cons_self) with rfl | ⟨d, hd⟩
  · exact hline rfl
  · cases hnone.symm.trans hd

/-- A magnitude starts with a digit. -/
theorem head_isMagnitude (h : IsMagnitude cs n) :
    ∃ c cs' d, cs = c :: cs' ∧ digitValue 10 c = some d := by
  cases h with
  | decimal h => exact head_separated h
  | marked hm h => exact ⟨'0', _, 0, rfl, rfl⟩

theorem splitSign_isMagnitude (h : IsMagnitude cs n) : splitSign cs = (false, cs) := by
  obtain ⟨c, cs', d, rfl, hc⟩ := head_isMagnitude h
  rcases splitSign_cases (c :: cs') with ⟨w, hw, -⟩ | ⟨w, hw, -⟩ | hsign
  · cases hw
    cases hc
  · cases hw
    cases hc
  · exact hsign

/-- A value with its sign. -/
def signed (negative : Bool) (n : Nat) : Int :=
  if negative then -n else n

/-- The sign and the magnitude of a text are found. -/
theorem splitSign_isSigned (h : IsSigned cs v) : ∃ negative unsigned n,
    splitSign cs = (negative, unsigned) ∧ IsMagnitude unsigned n ∧ v = signed negative n := by
  cases h with
  | bare h => exact ⟨false, _, _, splitSign_isMagnitude h, h, rfl⟩
  | plus h => exact ⟨false, _, _, rfl, h, rfl⟩
  | minus h => exact ⟨true, _, _, rfl, h, rfl⟩

theorem isSigned_of_splitSign {negative : Bool} {unsigned : List Char}
    (hsign : splitSign cs = (negative, unsigned)) (h : IsMagnitude unsigned n) :
    ∃ v, IsSigned cs v := by
  rcases splitSign_cases cs with ⟨w, rfl, hw⟩ | ⟨w, rfl, hw⟩ | hw
  all_goals
    rw [hw] at hsign
    cases hsign
  · exact ⟨_, .minus h⟩
  · exact ⟨_, .plus h⟩
  · exact ⟨_, .bare h⟩

/-- The radix and the digits of a magnitude are found. -/
theorem splitRadix_isMagnitude (h : IsMagnitude cs n) : ∃ radix body ds,
    splitRadix cs = (radix, body) ∧ 0 < radix ∧ digits radix body = some ds ∧
      n = Nat.ofDigits radix ds.reverse := by
  cases h with
  | decimal h => exact ⟨10, _, _, splitRadix_decimal h, Nat.zero_lt_succ 9, digits_eq_some_iff.mpr h, rfl⟩
  | marked hm h =>
    have hpos : ∀ p ∈ marks, 0 < p.2 := by decide
    exact ⟨_, _, _, splitRadix_marked hm _, hpos _ hm, digits_eq_some_iff.mpr h, rfl⟩

theorem isMagnitude_of_splitRadix (hradix : splitRadix cs = (radix, body))
    (hdigits : digits radix body = some ds) : ∃ n, IsMagnitude cs n := by
  rw [digits_eq_some_iff] at hdigits
  rcases splitRadix_cases cs with ⟨m, r, w, hm, rfl, hw⟩ | hw
  all_goals
    rw [hw] at hradix
    cases hradix
  · exact ⟨_, .marked hm hdigits⟩
  · exact ⟨_, .decimal hdigits⟩

theorem not_blank_of_isSigned (h : IsSigned cs v) : cs ≠ [] ∧ ∀ c ∈ cs, isAsciiBlank c = false := by
  cases h with
  | bare h =>
    obtain ⟨c, cs', -, hcs, -⟩ := head_isMagnitude h
    exact ⟨by rw [hcs]; exact List.cons_ne_nil _ _, not_blank_of_isMagnitude h⟩
  | plus h | minus h =>
    refine ⟨List.cons_ne_nil _ _, List.forall_mem_cons.mpr ⟨rfl, not_blank_of_isMagnitude h⟩⟩

/-! ### The conversion -/

/-- Whether a value is in range can be seen from what is kept of it. -/
theorem inRange_min (negative : Bool) (n : Nat) :
    inRange (signed negative (min n overflow)) = inRange (signed negative n) ∧
      (inRange (signed negative n) = true → min n overflow = n) := by
  rw [Bool.eq_iff_iff, inRange_iff, inRange_iff]
  unfold overflow
  cases negative <;> simp only [signed, Bool.false_eq_true, if_true, if_false] <;> omega

theorem parse_eq {negative : Bool} {unsigned : List Char}
    (hsign : splitSign (trim cs) = (negative, unsigned)) (hradix : splitRadix unsigned = (radix, body)) :
    parse cs = match digits radix body with
      | none => .error .malformed
      | some ds =>
        let kept := signed negative (ds.foldl (step radix) 0)
        if inRange kept then .ok kept else .error .outOfRange := by
  unfold parse
  rw [hsign]
  dsimp only
  rw [hradix]
  rfl

/-- The value of the text of an integer is found. -/
theorem parse_of_isInteger (h : IsInteger cs v) :
    parse cs = if inRange v then .ok v else .error .outOfRange := by
  obtain ⟨before, body, after, rfl, hbefore, hafter, hbody⟩ := h
  obtain ⟨hne, hblank⟩ := not_blank_of_isSigned hbody
  obtain ⟨negative, unsigned, n, hsign, hmagnitude, rfl⟩ := splitSign_isSigned hbody
  obtain ⟨radix, w, ds, hradix, hpos, hdigits, rfl⟩ := splitRadix_isMagnitude hmagnitude
  obtain ⟨hsame, hexact⟩ := inRange_min negative (Nat.ofDigits radix ds.reverse)
  rw [← trim_between hbefore hafter hblank hne] at hsign
  rw [parse_eq hsign hradix, hdigits]
  dsimp only
  rw [foldl_step hpos, hsame]
  split
  · next hrange => rw [hexact hrange]
  · rfl

/-- A text that is not refused as malformed is the text of an integer. -/
theorem isInteger_of_parse (h : parse cs ≠ .error .malformed) : ∃ v, IsInteger cs v := by
  obtain ⟨before, after, hcs, hbefore, hafter⟩ := exists_trim cs
  obtain ⟨negative, unsigned, hsign⟩ : ∃ negative unsigned, splitSign (trim cs) = (negative, unsigned) :=
    ⟨_, _, rfl⟩
  obtain ⟨radix, body, hradix⟩ : ∃ radix body, splitRadix unsigned = (radix, body) := ⟨_, _, rfl⟩
  rw [parse_eq hsign hradix] at h
  cases hdigits : digits radix body with
  | none =>
    rw [hdigits] at h
    exact absurd rfl h
  | some ds =>
    obtain ⟨n, hn⟩ := isMagnitude_of_splitRadix hradix hdigits
    obtain ⟨v, hv⟩ := isSigned_of_splitSign hsign hn
    exact ⟨v, before, trim cs, after, hcs, hbefore, hafter, hv⟩

theorem parse_eq_malformed_iff : parse cs = .error .malformed ↔ ¬ ∃ v, IsInteger cs v := by
  constructor
  · rintro h ⟨v, hv⟩
    rw [parse_of_isInteger hv] at h
    split at h <;> cases h
  · intro h
    exact Classical.byContradiction fun hparse => h (isInteger_of_parse hparse)

theorem parse_eq_ok_iff : parse cs = .ok v ↔ IsInteger cs v ∧ inRange v = true := by
  constructor
  · intro h
    obtain ⟨v', hv'⟩ := isInteger_of_parse (by rw [h]; exact nofun)
    rw [parse_of_isInteger hv'] at h
    split at h
    · next hrange =>
      cases h
      exact ⟨hv', hrange⟩
    · cases h
  · rintro ⟨h, hrange⟩
    rw [parse_of_isInteger h, if_pos hrange]

/-- The radix of a text is one of four, so no value that is formed is too large. -/
theorem formed_lt (cs : List Char) : ∀ w ∈ formed cs, w < 2 ^ 64 := by
  obtain ⟨radix, body, hsplit⟩ : ∃ radix body,
      splitRadix (splitSign (trim cs)).2 = (radix, body) := ⟨_, _, rfl⟩
  have hradix : radix ≤ 16 := by
    rcases splitRadix_cases (splitSign (trim cs)).2 with ⟨m, r, w, hm, -, hw⟩ | hw
    all_goals
      rw [hw] at hsplit
      cases hsplit
    · have hle : ∀ p ∈ marks, p.2 ≤ 16 := by decide
      exact hle _ hm
    · decide
  rw [formed, hsplit]
  refine formedFrom_lt hradix (Nat.zero_le _) fun d hd => ?_
  obtain ⟨c, -, hc⟩ := List.mem_filterMap.mp hd
  exact lt_of_digitValue hc

/-- The two messages start with different letters. -/
theorem message_ne (text : String) :
    Problem.message text .outOfRange ≠ Problem.message text .malformed := by
  intro h
  have hchars : ("value \"" ++ text ++ "\" is out of range for type integer").toList
      = ("invalid input syntax for type integer: \"" ++ text ++ "\"").toList :=
    congrArg String.toList h
  rw [String.toList_append, String.toList_append, String.toList_append, String.toList_append]
    at hchars
  have hhead := congrArg List.head? hchars
  simp at hhead

/-- **The strict conversion is exact.**  It gives a value and records nothing if and only if the
text is that of an integer with this value, which fits 32 bits.  In every other case it gives
zero and records one error, whose message tells the text of an integer from any other.  No
value that is formed on the way leaves a 64-bit word. -/
theorem read_iff (text : String) (ds : Diagnostics) :
    (∀ v, read text ds = (v, ds) ↔
      IsInteger text.toList v ∧ -2 ^ 31 ≤ v ∧ v ≤ 2 ^ 31 - 1) ∧
    ((¬ ∃ v, IsInteger text.toList v ∧ -2 ^ 31 ≤ v ∧ v ≤ 2 ^ 31 - 1) →
      ∃ message, read text ds = (0, ds ++ [⟨.error, message, none⟩]) ∧
        (message = "value \"" ++ text ++ "\" is out of range for type integer" ↔
          ∃ v, IsInteger text.toList v) ∧
        (message = "invalid input syntax for type integer: \"" ++ text ++ "\"" ↔
          ¬ ∃ v, IsInteger text.toList v)) ∧
    ∀ w ∈ formed text.toList, w < 2 ^ 64 := by
  have hrange {v : Int} : inRange v = true ↔ -2 ^ 31 ≤ v ∧ v ≤ 2 ^ 31 - 1 := inRange_iff
  simp only [← hrange, ← parse_eq_ok_iff]
  refine ⟨fun v => ?_, fun hnone => ?_, formed_lt _⟩
  · rw [read]
    cases hparse : parse text.toList with
    | ok n => simp
    | error p => simp [Diagnostics.report]
  · cases hparse : parse text.toList with
    | ok n => exact absurd ⟨n, hparse⟩ hnone
    | error p =>
      refine ⟨p.message text, by rw [read, hparse]; rfl, ?_⟩
      cases p with
      | malformed =>
        have hno := parse_eq_malformed_iff.mp hparse
        exact ⟨iff_of_false (message_ne text).symm hno, iff_of_true rfl hno⟩
      | outOfRange =>
        have hsome : ∃ v, IsInteger text.toList v :=
          isInteger_of_parse (by rw [hparse]; exact nofun)
        exact ⟨iff_of_true rfl hsome, iff_of_false (message_ne text) (not_not_intro hsome)⟩

/-- One below the least integer, with digits apart and blanks around it. -/
theorem read_iff_below :
    (¬ ∃ v, IsInteger " -0X8000_0001\n".toList v ∧ -2 ^ 31 ≤ v ∧ v ≤ 2 ^ 31 - 1) ∧
      (∃ v, IsInteger " -0X8000_0001\n".toList v) ∧
      ∃ message, read " -0X8000_0001\n" [] = (0, [⟨.error, message, none⟩]) := by
  have hparse : parse " -0X8000_0001\n".toList = .error .outOfRange := by decide
  have hrange : ¬ ∃ v, IsInteger " -0X8000_0001\n".toList v ∧ -2 ^ 31 ≤ v ∧ v ≤ 2 ^ 31 - 1 := by
    rintro ⟨v, hv⟩
    have hread := ((read_iff " -0X8000_0001\n" []).1 v).mpr hv
    rw [read, hparse] at hread
    cases hread
  obtain ⟨message, hread, -⟩ := (read_iff " -0X8000_0001\n" []).2.1 hrange
  exact ⟨hrange, isInteger_of_parse (by rw [hparse]; exact nofun), message, hread⟩

end Int4
end SqlSyntax
