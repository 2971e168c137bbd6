import Mathlib.Data.List.Infix
import SqlSyntax.Proofs.Lexeme.Locality
import SqlSyntax.Proofs.Lexeme.Preceding
import SqlSyntax.Proofs.Text.Lines

/-!
# Dollar signs

A dollar sign starts a parameter, a dollar-quoted string, or is a token by itself.
What a string stands for and where it ends is decided by the first occurrence of its
delimiter behind the opening one, whatever other dollar signs stand in between.

## Main definitions

* `IsDollarDelimiter q` — two dollar signs, with a name or nothing between them.
* `FirstAt needle text body rest` — where a text first occurs in another.
* `ReadsFirst stream text k n rest` — a text is read as one token and then as `rest` is.

## Main results

* `firstAt_findText`, `not_isInfix_of_findText` — the search finds the first occurrence.
* `dollarDelimiter_eq_some_iff` — the delimiter that a text starts with.
* `tokenize_dollar` — **dollar quoting is exact.**
-/

namespace SqlSyntax

variable {d : Dialect} {needle q t text body rest : List Char}

/-! ### The first occurrence of a text -/

/-- `needle` occurs in `text` behind `body` and in front of `rest`, and not earlier. -/
structure FirstAt (needle text body rest : List Char) : Prop where
  text_eq : text = body ++ (needle ++ rest)
  first : ∀ b r, text = b ++ (needle ++ r) → body.length ≤ b.length

theorem FirstAt.unique {body' rest' : List Char} (h : FirstAt needle text body rest)
    (h' : FirstAt needle text body' rest') : body = body' ∧ rest = rest' := by
  have hlength := Nat.le_antisymm (h.first _ _ h'.text_eq) (h'.first _ _ h.text_eq)
  obtain ⟨hbody, hbehind⟩ := List.append_inj (h.text_eq.symm.trans h'.text_eq) hlength
  exact ⟨hbody, List.append_cancel_left hbehind⟩

theorem FirstAt.cons {c : Char} (h : FirstAt needle text body rest)
    (hc : ¬ needle <+: c :: text) : FirstAt needle (c :: text) (c :: body) rest := by
  refine ⟨by rw [h.text_eq, List.cons_append], fun b r hb => ?_⟩
  cases b with
  | nil => exact absurd ⟨r, hb.symm⟩ hc
  | cons y b => exact Nat.succ_le_succ (h.first b r (List.cons.inj hb).2)

theorem firstAt_of_isPrefix (h : needle <+: text) :
    FirstAt needle text [] (text.drop needle.length) := by
  obtain ⟨rest, rfl⟩ := h
  exact ⟨by rw [List.drop_left, List.nil_append], fun _ _ _ => Nat.zero_le _⟩

/-- **The search finds the first occurrence.** -/
theorem firstAt_findText {n : Nat} (h : findText needle text = some n) :
    FirstAt needle text (text.take n) (text.drop (n + needle.length)) := by
  induction text generalizing n with
  | nil =>
    rw [findText] at h
    split at h
    · next hempty =>
      obtain rfl := List.isEmpty_iff.mp hempty
      exact ⟨by simp, fun _ _ _ => by simp⟩
    · cases h
  | cons c cs ih =>
    rw [findText] at h
    split at h
    · next hprefix =>
      obtain rfl := Option.some.inj h
      rw [Nat.zero_add]
      exact firstAt_of_isPrefix (List.isPrefixOf_iff_prefix.mp hprefix)
    · next hprefix =>
      obtain ⟨m, hm, rfl⟩ := Option.map_eq_some_iff.mp h
      rw [Nat.add_right_comm, List.take_succ_cons, List.drop_succ_cons]
      exact (ih hm).cons fun hp => hprefix (List.isPrefixOf_iff_prefix.mpr hp)

/-- A search without result means that there is no occurrence. -/
theorem not_isInfix_of_findText (h : findText needle text = none) : ¬ needle <:+: text := by
  induction text with
  | nil =>
    rw [findText] at h
    split at h
    · cases h
    · next hempty =>
      intro hin
      exact hempty (List.isEmpty_iff.mpr (List.infix_nil.mp hin))
  | cons c cs ih =>
    rw [findText] at h
    split at h
    · cases h
    · next hprefix =>
      rw [List.infix_cons_iff, not_or]
      have hrest := ih (Option.map_eq_none_iff.mp h)
      exact ⟨fun hp => hprefix (List.isPrefixOf_iff_prefix.mpr hp), hrest⟩

/-! ### Delimiters -/

/-- The delimiters of dollar-quoted strings: two dollar signs, with nothing or a name
without dollar signs between them. -/
inductive IsDollarDelimiter : List Char → Prop
  | untagged : IsDollarDelimiter ['$', '$']
  | tagged {c : Char} {cs : List Char} (start : isNameStart c = true)
      (part : ∀ x ∈ cs, isNamePart x = true ∧ x ≠ '$') :
      IsDollarDelimiter ('$' :: (c :: cs) ++ ['$'])

/-- A delimiter is a dollar sign and a text that no digit starts. -/
theorem IsDollarDelimiter.exists_cons (hq : IsDollarDelimiter q) :
    ∃ cs, q = '$' :: cs ∧ ∀ t, (cs ++ t).head?.any Char.isDigit = false := by
  cases hq with
  | untagged => exact ⟨_, rfl, fun _ => rfl⟩
  | @tagged c cs start part =>
    refine ⟨_, rfl, fun t => Bool.eq_false_iff.mpr fun hdigit => ?_⟩
    have hname := of_isDigit (P := fun c => isNameStart c = false) (by decide) hdigit
    rw [start] at hname
    cases hname

theorem dollarDelimiter_append_of (hq : IsDollarDelimiter q) (t : List Char) :
    dollarDelimiter (q ++ t) = some q := by
  cases hq with
  | untagged => rfl
  | @tagged c cs start part =>
    have htag : ((c :: cs) ++ '$' :: t).takeWhile (fun c => isNamePart c && c != '$')
        = c :: cs := by
      rw [List.takeWhile_append_of_pos, List.takeWhile_cons_of_neg (by decide), List.append_nil]
      refine List.forall_mem_cons.mpr ⟨?_, fun x hx => ?_⟩
      · have hne := ne_of_isNameStart (x := '$') rfl start
        simp [isNamePart, start, hne]
      · simp [part x hx]
    have htext : ('$' :: (c :: cs) ++ ['$']) ++ t = '$' :: ((c :: cs) ++ '$' :: t) := by simp
    have hdrop : ('$' :: ((c :: cs) ++ '$' :: t)).drop (1 + (c :: cs).length) = '$' :: t := by
      rw [Nat.add_comm, List.drop_succ_cons, List.drop_left]
    have hstart : ((c :: cs) ++ '$' :: t).head?.any isNameStart = true := start
    rw [htext, dollarDelimiter]
    simp only [List.drop_succ_cons, List.drop_zero, hstart, if_true, htag, hdrop, List.head?_cons]

/-- **The delimiter that a text starts with** is what the reader takes for it. -/
theorem dollarDelimiter_eq_some_iff (cs : List Char) :
    dollarDelimiter ('$' :: cs) = some q ↔ IsDollarDelimiter q ∧ q <+: '$' :: cs := by
  constructor
  · intro h
    rw [dollarDelimiter, List.drop_succ_cons, List.drop_zero] at h
    generalize htag : (if cs.head?.any isNameStart = true then
      cs.takeWhile (fun c => isNamePart c && c != '$') else []) = tag at h
    have hprefix : tag <+: cs := by
      rw [← htag]
      split
      · exact List.takeWhile_prefix _
      · exact List.nil_prefix
    obtain ⟨behind, rfl⟩ := hprefix
    simp only [Nat.add_comm 1, List.drop_succ_cons, List.drop_left] at h
    split at h
    · next hdollar =>
      obtain ⟨t, rfl⟩ := List.head?_eq_some_iff.mp hdollar
      obtain rfl := Option.some.inj h
      refine ⟨?_, t, by simp⟩
      cases tag with
      | nil => exact .untagged
      | cons c cs =>
        -- the tag is not empty, so a name starts behind the dollar sign
        split at htag
        · next hstart =>
          refine .tagged hstart fun x hx => ?_
          have hpart := List.mem_takeWhile_imp (htag ▸ List.mem_cons_of_mem c hx)
          simpa using hpart
        · cases htag
    · cases h
  · rintro ⟨hq, t, ht⟩
    rw [← ht, dollarDelimiter_append_of hq]

/-! ### One token in front of a text -/

/-- A stream hands out for `text` the token `k` over the first `n` bytes, and then what
it hands out for `rest`, further on.  Nothing is recorded for the first token. -/
structure ReadsFirst (stream : List Char → TokenStream) (text : List Char) (k : TokenKind)
    (n : Nat) (rest : List Char) : Prop where
  tokens : (stream text).tokenize.1
    = ⟨k, ⟨0, n⟩⟩ :: (stream rest).tokenize.1.map (Token.shift n)
  verdicts : (stream text).tokenize.2.map Diagnostic.verdict
    = (stream rest).tokenize.2.map Diagnostic.verdict
  pending : (stream text).pending
    = ⟨⟨k, ⟨0, n⟩⟩, []⟩ :: (stream rest).pending.map (Lexeme.shift n)

/-- The streams that read a text from its start: without and with regard to what
follows a token. -/
def IsReader (d : Dialect) (stream : List Char → TokenStream) : Prop :=
  stream = TokenStream.ofRaw d ∨ stream = TokenStream.ofText d

variable {stream : List Char → TokenStream}

theorem IsReader.tokenize_eq (hs : IsReader d stream) (text : List Char) :
    (stream text).tokenize = ((stream text).pending.map Lexeme.token,
      (stream text).pending.flatMap (Lexeme.diagnostics (LineIndex.ofText text))) := by
  rcases hs with rfl | rfl
  · exact TokenStream.tokenize_of_endsOnce (endsOnce_rawLexemes d text)
  · exact TokenStream.tokenize_of_endsOnce (endsOnce_lexemes d text)

/-- A first token that needs no look at what follows is resolved to itself. -/
theorem IsReader.readsFirst {p : List Char} {k : TokenKind} (hs : IsReader d stream)
    (h : Begins d p rest k) (hk : k.keyword? = none) :
    ReadsFirst stream (p ++ rest) k (byteLength p) rest := by
  have hpending : (stream (p ++ rest)).pending = ⟨⟨k, ⟨0, byteLength p⟩⟩, []⟩
      :: (stream rest).pending.map (Lexeme.shift (byteLength p)) := by
    rcases hs with rfl | rfl
    · exact h.rawLexemes_eq
    · have hescaped : isEscaped k = false :=
        Bool.not_eq_true' _ ▸ (Bool.and_eq_true_iff.mp h.inner).2
      show resolve d false (rawLexemes d (p ++ rest)) = _
      rw [h.rawLexemes_eq, resolve_plain (fun key hkey => by simp [hk] at hkey) hescaped,
        resolve_shift]
      rfl
  refine ⟨?_, ?_, hpending⟩
  · rw [hs.tokenize_eq, hs.tokenize_eq, hpending, List.map_cons, List.map_map, List.map_map]
    rfl
  · -- the places of the diagnostics are counted in different texts
    rw [hs.tokenize_eq, hs.tokenize_eq, hpending, List.flatMap_cons, List.flatMap_map,
      List.map_append, List.map_flatMap, List.map_flatMap]
    simp only [Lexeme.verdict_diagnostics_shift (LineIndex.ofText rest)]
    rfl

/-! ### Texts that start with a dollar sign -/

/-- A token that starts with a dollar sign stands in front of what follows if it is
read so. -/
theorem begins_dollar {cs : List Char} {k : TokenKind} (hk : k.isInner = true)
    (hread : ∀ start, readDollar start ('$' :: (cs ++ rest)) = ⟨k, cs.length + 1, []⟩) :
    Begins d ('$' :: cs) rest k :=
  ⟨hk, '$', cs, rfl, rfl, startsComment_of_ne (by decide) (by decide) _, hread⟩

/-- Behind a delimiter the reader looks for the same text again. -/
theorem readDollar_delimiter (hq : IsDollarDelimiter q) (start : Nat) (t : List Char) :
    readDollar start (q ++ t) = match findText q t with
      | none => unfinished start .unclosedDollar (q ++ t) []
      | some n => ⟨.string (String.ofList (t.take n)), q.length + n + q.length, []⟩ := by
  have hread := dollarDelimiter_append_of hq t
  obtain ⟨cs, rfl, hdigit⟩ := hq.exists_cons
  have hparam : ¬ (('$' :: cs ++ t).drop 1).head?.any Char.isDigit = true := by
    rw [List.cons_append, List.drop_succ_cons, List.drop_zero, hdigit]
    exact Bool.false_ne_true
  rw [readDollar, if_neg hparam, hread]
  cases hfound : findText ('$' :: cs) t with
  | none => simp only [List.drop_left, hfound]
  | some n => simp only [List.drop_left, hfound]

/-- **A delimiter that occurs again** closes a string over what stands before it. -/
theorem begins_quoted (hq : IsDollarDelimiter q) {n : Nat} (hn : findText q t = some n) :
    Begins d (q ++ (t.take n ++ q)) (t.drop (n + q.length)) (.string (String.ofList (t.take n))) := by
  have htext : (q ++ (t.take n ++ q)) ++ t.drop (n + q.length) = q ++ t := by
    conv_rhs => rw [(firstAt_findText hn).text_eq]
    simp only [List.append_assoc]
  have hread (start : Nat) := readDollar_delimiter hq start t
  have htaken : (q ++ (t.take n ++ q)).length = q.length + n + q.length := by
    have hle := findText_le hn
    simp only [List.length_append, List.length_take]
    omega
  simp only [hn, ← htext, ← htaken] at hread
  obtain ⟨cs, rfl, -⟩ := hq.exists_cons
  exact begins_dollar rfl hread

/-- **A delimiter that does not occur again** leaves nothing but its problem. -/
theorem rawLexemes_unclosed (hq : IsDollarDelimiter q) (hn : findText q t = none) :
    rawLexemes d (q ++ t) = [endLexeme 0 (q ++ t) [⟨.unclosedDollar, 0⟩]] := by
  have hread (start : Nat) := readDollar_delimiter hq start t
  simp only [hn] at hread
  obtain ⟨cs, rfl, -⟩ := hq.exists_cons
  have htoken (start : Nat) : readToken d start '$' (cs ++ t)
      = unfinished start .unclosedDollar ('$' :: (cs ++ t)) [] := hread start
  have hgap : gap ('$' :: (cs ++ t)) = .closed 0 :=
    gap_cons rfl (startsComment_of_ne (by decide) (by decide) _)
  rw [List.cons_append, rawLexemes, rawLexemesFrom, firstLexeme, hgap]
  simp only [List.drop_zero, htoken]
  rfl

/-- A dollar sign that starts neither a parameter nor a string stands by itself. -/
theorem begins_alone (hdigit : t.head?.any Char.isDigit = false)
    (hq : ∀ q, IsDollarDelimiter q → ¬ q <+: '$' :: t) : Begins d ['$'] t (.other '$') := by
  have hnone : dollarDelimiter ('$' :: t) = none := by
    cases h : dollarDelimiter ('$' :: t) with
    | none => rfl
    | some q =>
      obtain ⟨hdelimiter, hprefix⟩ := (dollarDelimiter_eq_some_iff t).mp h
      exact absurd hprefix (hq q hdelimiter)
  refine begins_dollar rfl fun start => ?_
  rw [List.nil_append, readDollar, if_neg (by simp [hdigit]), hnone]
  rfl

/-- **Dollar quoting is exact.**  Behind a delimiter, everything up to the first further
occurrence of the same delimiter is a string constant, and what follows is read as it
would be by itself.  If there is none, nothing is read, and the only problem is that the
string at the start of the text has no end.  A dollar sign that starts neither a
parameter nor such a string is a token by itself. -/
theorem tokenize_dollar (d : Dialect) {stream : List Char → TokenStream} (hs : IsReader d stream)
    (t : List Char) :
    (∀ q, IsDollarDelimiter q →
      (∃ body rest, FirstAt q t body rest ∧
        ReadsFirst stream (q ++ t) (.string (String.ofList body)) (byteLength (q ++ (body ++ q)))
          rest) ∨
      ¬ q <:+: t ∧ (stream (q ++ t)).tokenize
        = ([⟨.eof, ⟨byteLength (q ++ t), byteLength (q ++ t)⟩⟩],
          [⟨.error, "unterminated dollar-quoted string", some ⟨0, 1, 1⟩⟩])) ∧
    (t.head?.any Char.isDigit = false → (∀ q, IsDollarDelimiter q → ¬ q <+: '$' :: t) →
      ReadsFirst stream ('$' :: t) (.other '$') 1 t) := by
  refine ⟨fun q hq => ?_, fun hdigit hnone => hs.readsFirst (begins_alone hdigit hnone) rfl⟩
  cases hn : findText q t with
  | some n =>
    have hfirst := firstAt_findText hn
    have htext : q ++ t = (q ++ (t.take n ++ q)) ++ t.drop (n + q.length) := by
      conv_lhs => rw [hfirst.text_eq]
      simp only [List.append_assoc]
    refine .inl ⟨_, _, hfirst, ?_⟩
    rw [htext]
    exact hs.readsFirst (begins_quoted hq hn) rfl
  | none =>
    refine .inr ⟨not_isInfix_of_findText hn, ?_⟩
    have hpending : (stream (q ++ t)).pending
        = [endLexeme 0 (q ++ t) [⟨.unclosedDollar, 0⟩]] := by
      rcases hs with rfl | rfl
      · exact rawLexemes_unclosed hq hn
      · show resolve d false (rawLexemes d (q ++ t)) = _
        rw [rawLexemes_unclosed hq hn]
        rfl
    have hstart := LineIndex.locate_zero (q ++ t)
    rw [hs.tokenize_eq, hpending, ← hstart, ← Nat.zero_add (byteLength (q ++ t))]
    rfl

/-- A string over other delimiters and parts of its own, one that has no end, and a dollar
sign in front of a name. -/
theorem tokenize_dollar_mixed :
    let stream := TokenStream.ofText .postgres
    IsReader .postgres stream ∧
    (IsDollarDelimiter "$a$".toList ∧
      ReadsFirst stream "$a$$b$$ $a $a$ x".toList (.string "$b$$ $a ") 14 " x".toList) ∧
    (IsDollarDelimiter "$$".toList ∧ ¬ "$$".toList <:+: "$a$ x$".toList ∧
      (stream "$$$a$ x$".toList).tokenize
        = ([⟨.eof, ⟨8, 8⟩⟩], [⟨.error, "unterminated dollar-quoted string", some ⟨0, 1, 1⟩⟩])) ∧
    ("a+$".toList.head?.any Char.isDigit = false ∧
      (∀ q, IsDollarDelimiter q → ¬ q <+: '$' :: "a+$".toList) ∧
      ReadsFirst stream "$a+$".toList (.other '$') 1 "a+$".toList) := by
  have hs : IsReader .postgres (TokenStream.ofText .postgres) := .inr rfl
  have htagged : IsDollarDelimiter "$a$".toList := @IsDollarDelimiter.tagged 'a' [] rfl nofun
  have hfirst : FirstAt "$a$".toList "$b$$ $a $a$ x".toList "$b$$ $a ".toList " x".toList :=
    @firstAt_findText _ _ 8 (by decide)
  have hout : ¬ "$$".toList <:+: "$a$ x$".toList := by decide
  have hnone (q : List Char) (hq : IsDollarDelimiter q) : ¬ q <+: '$' :: "a+$".toList := by
    intro hprefix
    have hread := (dollarDelimiter_eq_some_iff "a+$".toList).mpr ⟨hq, hprefix⟩
    cases hread
  refine ⟨hs, ⟨htagged, ?_⟩, ⟨.untagged, hout, ?_⟩, ⟨rfl, hnone, ?_⟩⟩
  · rcases (tokenize_dollar .postgres hs _).1 _ htagged with ⟨body, rest, hbody, h⟩ | h
    · obtain ⟨rfl, rfl⟩ := hfirst.unique hbody
      exact h
    · exact absurd ⟨_, _, (List.append_assoc _ _ _).trans hfirst.text_eq.symm⟩ h.1
  · rcases (tokenize_dollar .postgres hs "$a$ x$".toList).1 _ .untagged with ⟨_, _, hbody, -⟩ | h
    · exact absurd ⟨_, _, (List.append_assoc _ _ _).trans hbody.text_eq.symm⟩ hout
    · exact h.2
  · exact (tokenize_dollar .postgres hs "a+$".toList).2 rfl hnone

end SqlSyntax
