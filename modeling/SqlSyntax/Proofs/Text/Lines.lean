import SqlSyntax.Proofs.Text.Characters
import SqlSyntax.Text.Span

/-!
# Offsets, lines and columns

The line index agrees with a plain scan of the text.  A text in front of an
offset is cut behind its last line feed into a `lead` and the line the offset is
in; the vector of line starts, the vector of ASCII flags and the search by halving
are each followed along that cut.

## Main definitions

* `LineIndex.laterStarts` — where the lines after the first start, by a scan.
* `LineIndex.flags` — the vector of ASCII flags, last line included.

## Main results

* `boundaryBefore_eq` — walking back finds the longest beginning that fits.
* `LineIndex.locate_append` — the location of the end of a beginning of the text.
* `LineIndex.locate_eq_scan` — **the index agrees with a scan of the text.**
-/

namespace SqlSyntax

/-! ### Beginnings of a text -/

@[simp] theorem takeBytes_zero (cs : List Char) : takeBytes 0 cs = [] := by
  cases cs with
  | nil => rfl
  | cons c cs =>
    have hc : ¬ c.utf8Size ≤ 0 := Nat.not_le.mpr c.utf8Size_pos
    simp only [takeBytes, if_neg hc]

theorem takeBytes_isPrefix (n : Nat) (cs : List Char) : takeBytes n cs <+: cs := by
  induction cs generalizing n with
  | nil => exact List.prefix_rfl
  | cons c cs ih =>
    rw [takeBytes]
    split
    · exact List.cons_prefix_cons.mpr ⟨rfl, ih _⟩
    · exact List.nil_prefix

/-- A beginning of the text that fits stands in front of what is taken. -/
theorem takeBytes_append (a b : List Char) (n : Nat) :
    takeBytes (byteLength a + n) (a ++ b) = a ++ takeBytes n b := by
  induction a with
  | nil => simp
  | cons c a ih =>
    have hrest : byteLength (c :: a) + n - c.utf8Size = byteLength a + n := by
      rw [byteLength_cons]
      omega
    rw [List.cons_append, takeBytes, if_pos (by rw [byteLength_cons]; omega), hrest, ih,
      List.cons_append]

theorem takeBytes_byteLength_append (a b : List Char) :
    takeBytes (byteLength a) (a ++ b) = a := by
  have h := takeBytes_append a b 0
  rwa [Nat.add_zero, takeBytes_zero, List.append_nil] at h

/-- A beginning of the text is the longest one that fits its length. -/
theorem takeBytes_byteLength_take (k : Nat) (cs : List Char) :
    takeBytes (byteLength (cs.take k)) cs = cs.take k := by
  have h := takeBytes_byteLength_append (cs.take k) (cs.drop k)
  rwa [List.take_append_drop] at h

theorem byteLength_takeBytes_mono {m n : Nat} (h : m ≤ n) (cs : List Char) :
    byteLength (takeBytes m cs) ≤ byteLength (takeBytes n cs) := by
  induction cs generalizing m n with
  | nil => simp [takeBytes]
  | cons c cs ih =>
    simp only [takeBytes]
    split
    · next hm =>
      rw [if_pos (Nat.le_trans hm h)]
      simpa using ih (Nat.sub_le_sub_right h _)
    · exact Nat.zero_le _

/-- The length of the text is bound enough. -/
theorem takeBytes_min (n : Nat) (cs : List Char) :
    takeBytes (min n (byteLength cs)) cs = takeBytes n cs := by
  rcases Nat.le_total n (byteLength cs) with h | h
  · rw [Nat.min_eq_left h]
  · obtain ⟨m, rfl⟩ := Nat.exists_eq_add_of_le h
    have hall := takeBytes_append cs [] m
    have hexact := takeBytes_byteLength_append cs []
    rw [List.append_nil] at hall hexact
    rw [Nat.min_eq_right h, hexact, hall]
    simp [takeBytes]

/-- What is taken is the longest beginning that fits. -/
theorem byteLength_le_of_prefix {p cs : List Char} {n : Nat} (hp : p <+: cs)
    (hn : byteLength p ≤ n) : byteLength p ≤ byteLength (takeBytes n cs) := by
  obtain ⟨rest, rfl⟩ := hp
  have h := byteLength_takeBytes_mono hn (p ++ rest)
  rwa [takeBytes_byteLength_append] at h

/-! ### Boundaries -/

@[simp] theorem dropBytes_zero (cs : List Char) : dropBytes 0 cs = some cs := by
  rw [dropBytes]

theorem dropBytes_cons {c : Char} {n : Nat} (hn : 0 < n) (cs : List Char) :
    dropBytes n (c :: cs) = if c.utf8Size ≤ n then dropBytes (n - c.utf8Size) cs else none := by
  cases n with
  | zero => exact absurd hn (Nat.lt_irrefl 0)
  | succ n => rw [dropBytes]

theorem dropBytes_byteLength_append (a b : List Char) :
    dropBytes (byteLength a) (a ++ b) = some b := by
  induction a with
  | nil => exact dropBytes_zero b
  | cons c a ih =>
    have hc := c.utf8Size_pos
    rw [byteLength_cons, List.cons_append, dropBytes_cons (by omega), if_pos (by omega),
      Nat.add_sub_cancel_left, ih]

/-- A boundary is where a beginning of the text ends. -/
theorem isBoundary_iff (cs : List Char) (n : Nat) :
    isBoundary cs n = true ↔ byteLength (takeBytes n cs) = n := by
  induction cs generalizing n with
  | nil =>
    cases n with
    | zero => simp [isBoundary, takeBytes]
    | succ n => simp [isBoundary, dropBytes, takeBytes]
  | cons c cs ih =>
    have hc := c.utf8Size_pos
    rcases Nat.eq_zero_or_pos n with rfl | hn
    · simp [isBoundary]
    · rw [isBoundary, dropBytes_cons hn, takeBytes]
      split
      · next hle =>
        have hrest := ih (n - c.utf8Size)
        rw [isBoundary] at hrest
        rw [hrest, byteLength_cons]
        omega
      · simp only [Option.isSome_none, Bool.false_eq_true, byteLength_nil, false_iff]
        omega

/-- A byte inside a character adds nothing to what is taken. -/
theorem takeBytes_succ_of_not_boundary {n : Nat} {cs : List Char}
    (h : byteLength (takeBytes (n + 1) cs) ≠ n + 1) : takeBytes (n + 1) cs = takeBytes n cs := by
  induction cs generalizing n with
  | nil => rfl
  | cons c cs ih =>
    have hc := c.utf8Size_pos
    by_cases hle : c.utf8Size ≤ n
    · have hsub : n + 1 - c.utf8Size = n - c.utf8Size + 1 := by omega
      rw [takeBytes, if_pos (by omega), byteLength_cons, hsub] at h
      rw [takeBytes, if_pos (by omega), takeBytes, if_pos hle, hsub, ih (by omega)]
    · by_cases heq : c.utf8Size = n + 1
      · -- the first character ends there, so there is a boundary
        rw [takeBytes, if_pos (by omega), byteLength_cons, heq, Nat.sub_self,
          takeBytes_zero] at h
        exact absurd rfl h
      · rw [takeBytes, if_neg (by omega), takeBytes, if_neg hle]

/-- **Walking back to a boundary** ends behind the longest beginning that fits. -/
theorem boundaryBefore_eq (cs : List Char) (n : Nat) :
    boundaryBefore cs n = byteLength (takeBytes n cs) := by
  induction n with
  | zero => rw [takeBytes_zero]; rfl
  | succ n ih =>
    rw [boundaryBefore]
    split
    · next hb => exact ((isBoundary_iff cs (n + 1)).mp hb).symm
    · next hb =>
      rw [ih, takeBytes_succ_of_not_boundary fun he => hb ((isBoundary_iff cs (n + 1)).mpr he)]

theorem charsBetween_append (lead line after : List Char) :
    charsBetween (lead ++ (line ++ after)) (byteLength lead) (byteLength (lead ++ line))
      = line.length := by
  rw [charsBetween, dropBytes_byteLength_append, byteLength_append, Nat.add_sub_cancel_left]
  exact congrArg List.length (takeBytes_byteLength_append line after)

/-- The text under a span is what stands between its ends. -/
theorem charsIn_between (before text after : List Char) :
    Span.charsIn (before ++ (text ++ after)) ⟨byteLength before, byteLength before + byteLength text⟩
      = text := by
  have hlength : Span.length ⟨byteLength before, byteLength before + byteLength text⟩
      = byteLength text := Nat.add_sub_cancel_left _ _
  rw [Span.charsIn, if_pos (Nat.le_add_right _ _), dropBytes_byteLength_append, Option.bind_some,
    hlength, Span.exactly, takeBytes_byteLength_append, if_pos rfl]
  rfl

/-! ### Cutting behind the last line feed -/

theorem endsFresh_iff (cs : List Char) :
    endsFresh cs = true ↔ cs = [] ∨ cs.getLast? = some '\n' := by
  simp [endsFresh]

theorem endsFresh_line_feed (cs : List Char) : endsFresh ('\n' :: cs) = endsFresh cs := by
  cases cs with
  | nil => rfl
  | cons d ds => simp [endsFresh, List.getLast?_cons_cons]

theorem endsFresh_cons_of_ne {c : Char} (hc : c ≠ '\n') (cs : List Char) :
    endsFresh (c :: cs) = (!cs.isEmpty && endsFresh cs) := by
  cases cs with
  | nil => simpa [endsFresh] using hc
  | cons d ds => simp [endsFresh, List.getLast?_cons_cons]

theorem endsFresh_append {a : List Char} (ha : endsFresh a = true) (b : List Char) :
    endsFresh (a ++ b) = endsFresh b := by
  cases b with
  | nil => rw [List.append_nil, ha]; rfl
  | cons c cs => simp [endsFresh, List.getLast?_append, List.getLast?_cons]

/-- Every text is what stands up to its last line feed, and one line behind it. -/
theorem exists_last_line (cs : List Char) :
    ∃ lead line, cs = lead ++ line ∧ endsFresh lead = true ∧ '\n' ∉ line := by
  induction cs with
  | nil => exact ⟨[], [], rfl, rfl, List.not_mem_nil⟩
  | cons c cs ih =>
    obtain ⟨lead, line, rfl, hlead, hline⟩ := ih
    by_cases hc : c = '\n'
    · exact ⟨c :: lead, line, rfl, by rw [hc, endsFresh_line_feed, hlead], hline⟩
    · cases lead with
      | nil => exact ⟨[], c :: line, rfl, rfl, by simp [hline, Ne.symm hc]⟩
      | cons d lead =>
        have hfresh : endsFresh (c :: d :: lead) = true := by simp [endsFresh_cons_of_ne hc, hlead]
        exact ⟨c :: d :: lead, line, rfl, hfresh, hline⟩

/-! ### The vectors of the index -/

namespace LineIndex

/-- Where the lines after the first start, in a text that starts at `start`. -/
def laterStarts (start : Nat) : List Char → List Nat
  | [] => []
  | c :: cs =>
    let next := start + c.utf8Size
    if c = '\n' then next :: laterStarts next cs else laterStarts next cs

/-- The flag of each line, with one more for a line that starts at the end. -/
def flags (cs : List Char) : List Bool :=
  (splitLines cs).map (List.all · isAscii) ++ if endsFresh cs then [true] else []

theorem laterStarts_append (start : Nat) (a b : List Char) :
    laterStarts start (a ++ b)
      = laterStarts start a ++ laterStarts (start + byteLength a) b := by
  induction a generalizing start with
  | nil => rfl
  | cons c a ih =>
    simp only [List.cons_append, laterStarts, ih, byteLength_cons, Nat.add_assoc]
    split <;> rfl

theorem length_laterStarts (start : Nat) (cs : List Char) :
    (laterStarts start cs).length = cs.count '\n' := by
  induction cs generalizing start with
  | nil => rfl
  | cons c cs ih =>
    simp only [laterStarts, List.count_cons]
    split
    · next hc => simp [hc, ih]
    · next hc => simp [hc, ih]

/-- A line starts behind a character of the text. -/
theorem bounds_of_mem_laterStarts {start m : Nat} {cs : List Char}
    (h : m ∈ laterStarts start cs) : start < m ∧ m ≤ start + byteLength cs := by
  induction cs generalizing start with
  | nil => exact absurd h List.not_mem_nil
  | cons c cs ih =>
    have hc := c.utf8Size_pos
    simp only [laterStarts] at h
    rw [byteLength_cons]
    split at h
    · rcases List.mem_cons.mp h with rfl | h
      · omega
      · have := ih h
        omega
    · have := ih h
      omega

theorem laterStarts_eq_nil {line : List Char} (h : '\n' ∉ line) (start : Nat) :
    laterStarts start line = [] := by
  apply List.eq_nil_of_length_eq_zero
  rw [length_laterStarts, List.count_eq_zero_of_not_mem h]

/-- A text that ends afresh ends where its last line starts. -/
theorem getLast?_laterStarts {lead : List Char} (h : endsFresh lead = true) (start : Nat) :
    (start :: laterStarts start lead).getLast? = some (start + byteLength lead) := by
  rcases (endsFresh_iff lead).mp h with rfl | h
  · rfl
  · obtain ⟨init, rfl⟩ := List.getLast?_eq_some_iff.mp h
    rw [laterStarts_append, ← List.cons_append, byteLength_append, ← Nat.add_assoc]
    exact List.getLast?_concat

/-- The bounds of the lines are their starts, and the end of a last line without
line feed. -/
theorem lineBounds_splitLines (start : Nat) (cs : List Char) :
    lineBounds start (splitLines cs) = start :: laterStarts start cs
      ++ if endsFresh cs then [] else [start + byteLength cs] := by
  induction cs generalizing start with
  | nil => rfl
  | cons c cs ih =>
    by_cases hc : c = '\n'
    · subst hc
      simp only [splitLines, if_true, lineBounds, ih, laterStarts, endsFresh_line_feed,
        byteLength_cons, byteLength_nil, Nat.add_zero, Nat.add_assoc, List.cons_append]
    · have hrest := ih (start + c.utf8Size)
      rw [splitLines, if_neg hc, laterStarts, if_neg hc, endsFresh_cons_of_ne hc,
        byteLength_cons, ← Nat.add_assoc]
      split
      · next hnil =>
        -- the character is the last one
        obtain rfl := eq_nil_of_splitLines hnil
        rfl
      · next line later hlines =>
        have hcs : cs.isEmpty = false := by
          cases cs with
          | nil => cases hlines
          | cons d ds => rfl
        rw [hlines, lineBounds, List.cons_append] at hrest
        rw [lineBounds, byteLength_cons, ← Nat.add_assoc, (List.cons.inj hrest).2, hcs]
        rfl

@[simp] theorem ofText_source (source : List Char) : (ofText source).source = source := by
  simp only [ofText]
  split <;> rfl

/-- **The line starts** are the start of the text and what follows each line feed. -/
theorem ofText_starts (source : List Char) :
    (ofText source).starts.toList = 0 :: laterStarts 0 source := by
  simp only [ofText]
  split
  · next h => rw [List.toList_toArray, lineBounds_splitLines, if_pos h, List.append_nil]
  · next h => rw [List.toList_toArray, lineBounds_splitLines, if_neg h, List.dropLast_concat]

theorem ofText_ascii (source : List Char) : (ofText source).ascii.toList = flags source := by
  simp only [ofText, flags]
  split
  · next h => rw [List.toList_toArray]
  · next h => rw [List.toList_toArray, List.append_nil]

/-! ### The flag of the line an offset is in -/

theorem splitLines_append {lead : List Char} (h : endsFresh lead = true) (tail : List Char) :
    splitLines (lead ++ tail) = splitLines lead ++ splitLines tail := by
  induction lead with
  | nil => rfl
  | cons c lead ih =>
    by_cases hc : c = '\n'
    · subst hc
      rw [endsFresh_line_feed] at h
      simp only [List.cons_append, splitLines, if_true, ih h]
    · rw [endsFresh_cons_of_ne hc, Bool.and_eq_true] at h
      have hne : lead ≠ [] := by simpa using h.1
      simp only [List.cons_append, splitLines, if_neg hc, ih h.2]
      cases hlines : splitLines lead with
      | nil => exact absurd (eq_nil_of_splitLines hlines) hne
      | cons line later => rfl

theorem length_splitLines {lead : List Char} (h : endsFresh lead = true) :
    (splitLines lead).length = lead.count '\n' := by
  -- the starts of the lines are one more, on either side
  have hlength := congrArg List.length (lineBounds_splitLines 0 lead)
  rw [length_lineBounds, if_pos h, List.append_nil, List.length_cons, length_laterStarts] at hlength
  exact Nat.succ.inj hlength

theorem flags_append {lead : List Char} (h : endsFresh lead = true) (tail : List Char) :
    flags (lead ++ tail) = (splitLines lead).map (List.all · isAscii) ++ flags tail := by
  rw [flags, splitLines_append h, endsFresh_append h, List.map_append, List.append_assoc, flags]

/-- A flag that is set stands for ASCII characters up to any place in the line. -/
theorem isAscii_of_flags {line after : List Char} (hline : '\n' ∉ line)
    (h : (flags (line ++ after)).head? = some true) : ∀ c ∈ line, isAscii c = true := by
  induction line with
  | nil => exact fun c hc => absurd hc List.not_mem_nil
  | cons c line ih =>
    have hc : c ≠ '\n' := fun he => hline (he ▸ List.mem_cons_self)
    have hrest : '\n' ∉ line := fun hm => hline (List.mem_cons_of_mem c hm)
    rw [flags, List.cons_append, splitLines, if_neg hc] at h
    cases hlines : splitLines (line ++ after) with
    | nil =>
      obtain ⟨rfl, rfl⟩ := List.append_eq_nil_iff.mp (eq_nil_of_splitLines hlines)
      simpa [splitLines] using h
    | cons first later =>
      have hboth : isAscii c = true ∧ first.all isAscii = true := by simpa [hlines] using h
      have hfirst : (flags (line ++ after)).head? = some true := by simp [flags, hlines, hboth.2]
      exact List.forall_mem_cons.mpr ⟨hboth.1, ih hrest hfirst⟩

end LineIndex

/-! ### Locations -/

namespace LineIndex

/-- The search finds the number of the line. -/
theorem partitionPoint_starts (lead : List Char) {line : List Char} (hline : '\n' ∉ line)
    (after : List Char) :
    partitionPoint (fun start => start ≤ byteLength (lead ++ line))
        (ofText (lead ++ (line ++ after))).starts 0 (ofText (lead ++ (line ++ after))).starts.size
        (Nat.le_refl _) = lead.count '\n' + 1 := by
  have hcut : (ofText (lead ++ (line ++ after))).starts.toList
      = (0 :: laterStarts 0 lead) ++ laterStarts (byteLength (lead ++ line)) after := by
    rw [ofText_starts, ← List.append_assoc, laterStarts_append, laterStarts_append,
      laterStarts_eq_nil hline, List.append_nil, Nat.zero_add, List.cons_append]
  rw [partitionPoint_append hcut, List.length_cons, length_laterStarts]
  · -- the lines of the lead start at the offset or in front of it
    intro start hstart
    rw [decide_eq_true_eq, byteLength_append]
    rcases List.mem_cons.mp hstart with rfl | hstart
    · exact Nat.zero_le _
    · have := (bounds_of_mem_laterStarts hstart).2
      omega
  · intro start hstart
    rw [decide_eq_false_iff_not, Nat.not_le]
    exact (bounds_of_mem_laterStarts hstart).1

variable {lead : List Char} (hlead : endsFresh lead = true)
include hlead

/-- The start of the line behind the lead. -/
theorem starts_getElem? (tail : List Char) :
    (ofText (lead ++ tail)).starts[lead.count '\n']? = some (byteLength lead) := by
  have hlast := getLast?_laterStarts hlead 0
  rw [List.getLast?_eq_getElem?, List.length_cons, length_laterStarts, Nat.zero_add] at hlast
  rw [← Array.getElem?_toList, ofText_starts, laterStarts_append, ← List.cons_append,
    List.getElem?_append_left (by simp [length_laterStarts])]
  exact hlast

/-- The flag of the line behind the lead. -/
theorem ascii_getElem? (tail : List Char) :
    (ofText (lead ++ tail)).ascii[lead.count '\n']? = (flags tail).head? := by
  rw [← Array.getElem?_toList, ofText_ascii, flags_append hlead, ← length_splitLines hlead,
    List.getElem?_append_right (by simp), List.length_map, Nat.sub_self, List.head?_eq_getElem?]

/-- **The location of the end of a beginning of the text**, which is cut behind its
last line feed. -/
theorem locate_append {line after : List Char} {offset : Nat} (hline : '\n' ∉ line)
    (hplace : takeBytes offset (lead ++ (line ++ after)) = lead ++ line) :
    (ofText (lead ++ (line ++ after))).locate offset
      = ⟨byteLength (lead ++ line), lead.count '\n' + 1, line.length + 1⟩ := by
  simp only [locate, ofText_source, boundaryBefore_eq, takeBytes_min, hplace,
    partitionPoint_starts lead hline after, Nat.add_sub_cancel]
  have hstart := starts_getElem? hlead (line ++ after)
  have hflag := ascii_getElem? hlead (line ++ after)
  obtain ⟨hlt, hstart⟩ := Array.getElem?_eq_some_iff.mp hstart
  rw [Array.getElem?_eq_getElem (by rw [size_ascii]; exact hlt)] at hflag
  rw [hstart]
  congr
  split
  · -- a line of ASCII characters has as many bytes as characters
    next hascii =>
    rw [hascii] at hflag
    rw [byteLength_append, Nat.add_sub_cancel_left,
      byteLength_of_isAscii (isAscii_of_flags hline hflag.symm)]
  · exact charsBetween_append lead line after

omit hlead

/-- **The line index agrees with a scan of the text.**  The offset of a location is
the greatest place where a character starts at or before the given one; its line and
its column are counted in the text in front of it. -/
theorem locate_eq_scan (source : List Char) (offset : Nat) :
    ∃ lead line after, source = lead ++ (line ++ after) ∧
      byteLength (lead ++ line) ≤ min offset (byteLength source) ∧
      (∀ p, p <+: source → byteLength p ≤ min offset (byteLength source) →
        byteLength p ≤ byteLength (lead ++ line)) ∧
      (lead = [] ∨ lead.getLast? = some '\n') ∧ '\n' ∉ line ∧
      (ofText source).locate offset
        = ⟨byteLength (lead ++ line), (lead ++ line).count '\n' + 1, line.length + 1⟩ := by
  obtain ⟨lead, line, hbefore, hlead, hline⟩ := exists_last_line (takeBytes offset source)
  obtain ⟨after, hafter⟩ := takeBytes_isPrefix offset source
  rw [hbefore, List.append_assoc] at hafter
  subst hafter
  refine ⟨lead, line, after, rfl, ?_, ?_, (endsFresh_iff lead).mp hlead, hline, ?_⟩
  · rw [← hbefore, ← takeBytes_min]
    exact byteLength_takeBytes_le _ _
  · intro p hp hle
    rw [← hbefore, ← takeBytes_min]
    exact byteLength_le_of_prefix hp hle
  · rw [locate_append hlead hline hbefore, List.count_append, List.count_eq_zero_of_not_mem hline,
      Nat.add_zero]

/-- **The offset of a location** is the length of the longest beginning of the
text that fits. -/
theorem offset_locate (source : List Char) (offset : Nat) :
    ((ofText source).locate offset).offset = byteLength (takeBytes offset source) := by
  simp only [locate, ofText_source, boundaryBefore_eq, takeBytes_min]

/-- A text starts at its first line and column. -/
theorem locate_zero (source : List Char) : (ofText source).locate 0 = ⟨0, 1, 1⟩ :=
  @locate_append [] rfl [] source 0 List.not_mem_nil (takeBytes_zero source)

end LineIndex
end SqlSyntax
