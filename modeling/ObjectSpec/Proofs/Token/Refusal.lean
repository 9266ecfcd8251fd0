import ObjectSpec.Proofs.Token.Cutting

/-!
# Where a text has no tokens

A text is read token by token up to its end, or up to the first place where no token can be read
(`Reaches`). What is left there tells the cause (`LexicalCause.Explains`): a raw marker without
another one behind it, a quote without its closing one, or a character that starts no token. Of one
token this is `Token.next_error_iff`, and of a whole text `tokenize_error`. The text in front of
that place has the tokens read so far, since each of them is read again if the text is cut off
there.
-/

namespace ObjectSpec

open Text (byteCount byteCount_append allBlank isBlank rawMarker)

/-! ## No closing quote, no closing marker -/

namespace Text

/-- Backslash pairs and other characters: what stands behind them is in no pair. -/
inductive Paired : List Char → Prop
  | nil : Paired []
  | pair {d body} : Paired body → Paired ('\\' :: d :: body)
  | char {c body} : c ≠ '\\' → Paired body → Paired (c :: body)

/-- Only backslash pairs hold a quote `q`. -/
def NoQuote (q : Char) (cs : List Char) : Prop :=
  ∀ body rest, cs = body ++ q :: rest → ¬ Paired body

theorem QuoteBody.paired {q : Char} {body : List Char} (h : QuoteBody q body) : Paired body := by
  induction h with
  | nil => exact .nil
  | pair _ ih => exact .pair ih
  | char hc _ _ ih => exact .char hc ih

theorem isSome_closeQuote? {q : Char} (hq : q ≠ '\\') {body : List Char} (h : Paired body)
    (rest : List Char) : (closeQuote? q (body ++ q :: rest)).isSome = true := by
  induction h with
  | nil => rw [List.nil_append, closeQuote?_quote hq, Option.isSome_some]
  | pair _ ih =>
    rw [List.cons_append, List.cons_append, closeQuote?, if_pos rfl, Option.isSome_map, ih]
  | @char c body hc _ ih =>
    rw [List.cons_append]
    by_cases hcq : c = q
    · rw [hcq, closeQuote?_quote hq, Option.isSome_some]
    · rw [closeQuote?_cons hc hcq, Option.isSome_map, ih]

theorem closeQuote?_eq_none {q : Char} (hq : q ≠ '\\') {cs : List Char} :
    closeQuote? q cs = none ↔ NoQuote q cs := by
  constructor
  · rintro h body rest rfl hbody
    have hsome := isSome_closeQuote? hq hbody rest
    rw [h] at hsome
    cases hsome
  · intro h
    cases hclose : closeQuote? q cs with
    | none => rfl
    | some p =>
      obtain ⟨hcs, hbody⟩ := (closeQuote?_eq_some hq).1 hclose
      exact absurd hbody.paired (h p.1 p.2 hcs)

theorem closeRaw?_eq_none {cs : List Char} : closeRaw? cs = none ↔ ¬ rawMarker <:+: cs := by
  induction cs with
  | nil => simp [closeRaw?, rawMarker]
  | cons c cs ih =>
    rw [List.infix_cons_iff, closeRaw?]
    split
    · next h => simp [List.isPrefixOf_iff_prefix.1 h]
    · next h =>
      have hp : ¬ rawMarker <+: c :: cs := fun hp => h (List.isPrefixOf_iff_prefix.2 hp)
      rw [Option.map_eq_none_iff, ih]
      simp [hp]

/-- A raw marker, and no other one behind it. -/
def OpensRaw (rest : List Char) : Prop := ∃ body, rest = rawMarker ++ body ∧ ¬ rawMarker <:+: body

/-- A quote, not of a raw marker, and no other one behind it outside of backslash pairs. -/
structure OpensQuote (q : Char) (rest : List Char) : Prop where
  isQuote : q = '\x22' ∨ q = '\x27'
  not_raw : ¬ rawMarker <+: rest
  unclosed : ∃ body, rest = q :: body ∧ NoQuote q body

end Text

/-! ## Characters that start no token -/

/-- A character that starts no token: no blank, quote, mark, digit or letter, and no minus in front
of a digit. -/
structure Stray (c : Char) (cs : List Char) : Prop where
  blank : isBlank c = false
  quote : c ≠ '\x22' ∧ c ≠ '\x27'
  mark : ∀ m : Mark, m.char ≠ c
  digit : c.isDigit = false
  name : Token.isNameStart c = false
  minus : c = '-' → Stops Char.isDigit cs

/-- What a text starts with if no token can be read off it for this cause. -/
def LexicalCause.Explains : LexicalCause → List Char → Prop
  | .unterminatedRaw, rest => Text.OpensRaw rest
  | .unterminatedText q, rest => Text.OpensQuote q rest
  | .unexpected c, rest => ∃ cs, rest = c :: cs ∧ Stray c cs

namespace Token

theorem splitWhile_eq_nil_iff {p : Char → Bool} {text : List Char} :
    (splitWhile p text).1 = [] ↔ Stops p text := by
  constructor
  · intro h
    have htext := splitWhile_eq p text
    rw [h, List.nil_append] at htext
    exact (splitWhile_eq_iff.1 (Prod.ext h htext)).2.2
  · intro h
    have hsplit : splitWhile p ([] ++ text) = ([], text) := splitWhile_append (by simp) h
    rw [List.nil_append] at hsplit
    rw [hsplit]

/-- A numeral starts with a digit, or with a minus in front of one. -/
theorem numeral?_eq_none_iff {c : Char} {cs : List Char} :
    numeral? (c :: cs) = none ↔ c.isDigit = false ∧ (c = '-' → Stops Char.isDigit cs) := by
  have hnone : numeral? (c :: cs) = none ↔
      Stops Char.isDigit (splitOne '-' (c :: cs)).2 := by
    rw [← splitWhile_eq_nil_iff]
    simp only [numeral?]
    split
    · next h => simpa using h
    · next h => simpa using h
  rw [hnone]
  by_cases hc : c = '-'
  · subst hc
    rw [splitOne_cons]
    have hdigit : '-'.isDigit = false := by decide
    simp [hdigit]
  · have hstops : Stops (· == '-') (c :: cs) := by
      intro d hd
      cases hd
      simpa using hc
    rw [splitOne_stops hstops]
    simp [Stops, hc]

theorem path?_eq_none_iff {c : Char} {cs : List Char} :
    path? (c :: cs) = none ↔ isNameStart c = false := by
  rw [path?]
  split
  · next h => simp [h]
  · next h => simpa using h

theorem ofChar?_eq_none_iff {c : Char} : Mark.ofChar? c = none ↔ ∀ m : Mark, m.char ≠ c := by
  constructor
  · rintro h m rfl
    rw [Mark.ofChar?_char] at h
    cases h
  · intro h
    cases hm : Mark.ofChar? c with
    | none => rfl
    | some m => exact absurd (Mark.char_of_ofChar? hm) (h m)

theorem explains_of_next {c : Char} {cs : List Char} {cause : LexicalCause}
    (hc : isBlank c = false) (h : next c cs = .error cause) : cause.Explains (c :: cs) := by
  rw [next] at h
  split at h
  · next hraw =>
    split at h
    · cases h
    · next hclose =>
      cases h
      obtain ⟨body, hbody⟩ := List.isPrefixOf_iff_prefix.1 hraw
      rw [Text.drop_of_rawMarker hbody] at hclose
      exact ⟨body, hbody.symm, Text.closeRaw?_eq_none.1 hclose⟩
  next hraw =>
  split at h
  · next hquote =>
    split at h
    · cases h
    · next hclose =>
      cases h
      have hfree := (Text.closeQuote?_eq_none (Text.ne_backslash_of_quote hquote)).1 hclose
      exact ⟨hquote, fun hp => hraw (List.isPrefixOf_iff_prefix.2 hp), cs, rfl, hfree⟩
  next hquote =>
  split at h
  · cases h
  next hmark =>
  split at h
  · cases h
  next hnumeral =>
  split at h
  · cases h
  next hpath =>
  cases h
  -- None of the branches was taken, so the character is of no class that a token starts with.
  have hmark' : Mark.ofChar? c = none := Option.eq_none_iff_forall_ne_some.2 hmark
  have hnumeral' : numeral? (c :: cs) = none :=
    Option.eq_none_iff_forall_ne_some.2 fun p => hnumeral p.1 p.2
  have hpath' : path? (c :: cs) = none :=
    Option.eq_none_iff_forall_ne_some.2 fun p => hpath p.1 p.2
  exact ⟨cs, rfl, hc, not_or.1 hquote, ofChar?_eq_none_iff.1 hmark',
    (numeral?_eq_none_iff.1 hnumeral').1, path?_eq_none_iff.1 hpath',
    (numeral?_eq_none_iff.1 hnumeral').2⟩

theorem next_of_explains {c : Char} {cs : List Char} {cause : LexicalCause}
    (h : cause.Explains (c :: cs)) : next c cs = .error cause := by
  cases cause with
  | unterminatedRaw =>
    obtain ⟨body, hbody, hfree⟩ := h
    have hraw : rawMarker.isPrefixOf (c :: cs) = true :=
      List.isPrefixOf_iff_prefix.2 ⟨body, hbody.symm⟩
    rw [next, if_pos hraw, Text.drop_of_rawMarker hbody.symm, Text.closeRaw?_eq_none.2 hfree]
  | unterminatedText q =>
    obtain ⟨hquote, hraw, body, hbody, hfree⟩ := h
    obtain ⟨rfl, rfl⟩ := List.cons.inj hbody
    rw [next, if_neg fun hp => hraw (List.isPrefixOf_iff_prefix.1 hp), if_pos hquote,
      (Text.closeQuote?_eq_none (Text.ne_backslash_of_quote hquote)).2 hfree]
  | unexpected d =>
    obtain ⟨_, hrest, hstray⟩ := h
    obtain ⟨rfl, rfl⟩ := List.cons.inj hrest
    have hmark : ∀ m : Mark, (m.char == c) = false := fun m => by simpa using hstray.mark m
    have hnumeral := numeral?_eq_none_iff.2 ⟨hstray.digit, hstray.minus⟩
    rw [next_of_class (p := (· == c)) (by simpa using hstray.quote.1.symm)
      (by simpa using hstray.quote.2.symm) hmark (by simp), hnumeral,
      path?_eq_none_iff.2 hstray.name]

/-- No token is read off a text just if its start tells why. -/
theorem next_error_iff {c : Char} {cs : List Char} {cause : LexicalCause}
    (hc : isBlank c = false) : next c cs = .error cause ↔ cause.Explains (c :: cs) :=
  ⟨explains_of_next hc, next_of_explains⟩

end Token

/-! ## What tells a cause -/

namespace LexicalCause

/-- What tells a cause starts with a character that is no blank. -/
theorem Explains.head {cause : LexicalCause} {rest : List Char} (h : cause.Explains rest) :
    ∃ c cs, rest = c :: cs ∧ isBlank c = false := by
  cases cause with
  | unterminatedRaw =>
    obtain ⟨body, rfl, -⟩ := h
    exact ⟨'\x22', '\x22' :: '\x22' :: body, rfl, by decide⟩
  | unterminatedText q =>
    obtain ⟨hquote, -, body, rfl, -⟩ := h
    exact ⟨q, body, rfl, Text.isBlank_of_quote hquote⟩
  | unexpected c =>
    obtain ⟨cs, rfl, hstray⟩ := h
    exact ⟨c, cs, rfl, hstray.blank⟩

/-- One text tells one cause. -/
theorem Explains.unique {cause other : LexicalCause} {rest : List Char} (h : cause.Explains rest)
    (hother : other.Explains rest) : other = cause := by
  obtain ⟨c, cs, rfl, -⟩ := h.head
  have hcause := Token.next_of_explains h
  rw [Token.next_of_explains hother] at hcause
  exact Except.error.inj hcause

end LexicalCause

/-! ## Reading up to a place -/

/-- Reading off a text, whose first character stands at the first offset, gives tokens and comes to
the second offset, with a rest of the text behind it. -/
inductive Reaches : Nat → List Char → List Placed → Nat → List Char → Prop
  | here {offset gap rest} : allBlank gap = true →
      Reaches offset (gap ++ rest) [] (offset + byteCount gap) rest
  | token {offset gap c cs t behind ps place rest} : allBlank gap = true → isBlank c = false →
      Token.next c cs = .ok (t, behind) →
      Reaches (offset + byteCount gap + byteCount t.written.toList) behind ps place rest →
      Reaches offset (gap ++ c :: cs)
        (⟨t, ⟨offset + byteCount gap, offset + byteCount gap + byteCount t.written.toList⟩⟩ :: ps)
        place rest

namespace Reaches

variable {offset place : Nat} {text rest : List Char} {ps : List Placed}

/-- The text up to the place has the tokens read so far. -/
theorem reads_front (h : Reaches offset text ps place rest) :
    ∃ front, text = front ++ rest ∧ place = offset + byteCount front ∧ Reads offset front ps := by
  induction h with
  | @here offset gap rest hgap => exact ⟨gap, rfl, rfl, .done hgap⟩
  | @token offset gap c cs t behind ps place rest hgap hc hn _ ih =>
    obtain ⟨front, rfl, hplace, hfront⟩ := ih
    obtain ⟨more, hword, hcs⟩ := Token.exists_written_of_next hn
    rw [← List.append_assoc] at hcs
    subst hcs
    -- What stands behind the place is cut off, and the token is read all the same.
    have hcut : Token.next c (more ++ front) = .ok (t, front) := Token.next_of_append hn
    refine ⟨gap ++ c :: (more ++ front), by simp, ?_, .token hgap hc hcut hfront⟩
    rw [hplace, hword, ← List.cons_append, byteCount_append, byteCount_append]
    omega

/-- A text that is read up to a place where no token can be read has none. -/
theorem tokensFrom (h : Reaches offset text ps place rest) {cause : LexicalCause}
    (hcause : cause.Explains rest) : tokensFrom offset text = .error ⟨cause, place⟩ := by
  induction h with
  | here hgap =>
    obtain ⟨c, cs, rfl, hc⟩ := hcause.head
    rw [tokensFrom_gap hgap hc, (Token.next_error_iff hc).2 hcause]
  | token hgap hc hn _ ih =>
    rw [tokensFrom_gap hgap hc, hn]
    dsimp only
    rw [ih hcause]
    rfl

end Reaches

/-- A text without tokens is read up to a place where no token can be read. -/
theorem reaches_of_error {offset : Nat} {text : List Char} {e : LexicalError}
    (h : tokensFrom offset text = .error e) :
    ∃ ps rest, Reaches offset text ps e.offset rest ∧ e.cause.Explains rest := by
  fun_induction tokensFrom offset text with
  | case1 => cases h
  | case2 offset text c cs hb start cause hn =>
    cases h
    obtain ⟨gap, rfl, hgap, hc⟩ := Text.exists_gap hb
    refine ⟨[], c :: cs, ?_, (Token.next_error_iff hc).1 hn⟩
    dsimp only [start]
    rw [(Text.skipBlank_gap hgap hc).1]
    exact .here hgap
  | case3 offset text c cs hb start t behind hn stop ih =>
    cases hrest : tokensFrom stop behind with
    | ok qs =>
      rw [hrest] at h
      cases h
    | error e' =>
      rw [hrest] at h
      cases h
      obtain ⟨gap, rfl, hgap, hc⟩ := Text.exists_gap hb
      obtain ⟨ps, rest, hreach, hcause⟩ := ih hrest
      dsimp only [stop, start] at hreach
      rw [(Text.skipBlank_gap hgap hc).1] at hreach
      exact ⟨_, rest, .token hgap hc hn hreach, hcause⟩

/-! ## The error of a text -/

/-- A text is read up to the offset of an error, and what is left tells the cause of the error and
no other one. -/
structure Refused (source : String) (e : LexicalError) (front rest : String)
    (ps : List Placed) : Prop where
  source_eq : source = front ++ rest
  offset_eq : byteCount front.toList = e.offset
  inside : e.offset < byteCount source.toList
  tokens : tokenize front = .ok ps
  reached : Reaches 0 source.toList ps e.offset rest.toList
  cause_iff : ∀ cause : LexicalCause, cause.Explains rest.toList ↔ cause = e.cause

theorem refused_of_reaches {source : String} {e : LexicalError} {ps : List Placed}
    {rest : List Char} (h : Reaches 0 source.toList ps e.offset rest)
    (hcause : e.cause.Explains rest) : ∃ front, Refused source e front (String.ofList rest) ps := by
  obtain ⟨front, hsource, hplace, hfront⟩ := h.reads_front
  rw [Nat.zero_add] at hplace
  refine ⟨String.ofList front, ?_, ?_, ?_, ?_, ?_, ?_⟩
  · rw [← String.ofList_append, ← hsource, String.ofList_toList]
  · rw [String.toList_ofList, hplace]
  · obtain ⟨c, cs, rfl, -⟩ := hcause.head
    have hrest : 0 < byteCount (c :: cs) := Text.byteCount_pos (List.cons_ne_nil c cs)
    rw [hsource, byteCount_append, hplace]
    omega
  · rw [tokenize, String.toList_ofList]
    exact reads_iff.1 hfront
  · rw [String.toList_ofList]
    exact h
  · intro cause
    rw [String.toList_ofList]
    constructor
    · exact hcause.unique
    · rintro rfl
      exact hcause

/-- A text without tokens is read up to the first place where no token can be read: its error stands
there, the text in front of it has the tokens read so far, and what is left tells the cause.
Conversely a text has no tokens if it is read up to such a place. -/
theorem tokenize_error (source : String) :
    (∀ e, tokenize source = .error e → ∃ front rest ps, Refused source e front rest ps) ∧
    ∀ ps place rest cause, Reaches 0 source.toList ps place rest →
      LexicalCause.Explains cause rest → tokenize source = .error ⟨cause, place⟩ := by
  constructor
  · intro e h
    obtain ⟨ps, rest, hreach, hcause⟩ := reaches_of_error h
    obtain ⟨front, hrefused⟩ := refused_of_reaches hreach hcause
    exact ⟨front, String.ofList rest, ps, hrefused⟩
  · intro ps place rest cause hreach hcause
    exact hreach.tokensFrom hcause

/-- A name, a blank of three bytes, an empty text, and a quote that only a backslash pair holds
again. -/
theorem tokenize_error_escapedQuote :
    tokenize "x\u3000''\"a\\\"" = .error ⟨.unterminatedText '\x22', 6⟩ ∧
    ∃ front rest ps, Refused "x\u3000''\"a\\\"" ⟨.unterminatedText '\x22', 6⟩ front rest ps := by
  have hnone : allBlank [] = true := rfl
  have hwide : allBlank ['\u3000'] = true := rfl
  have hname : Token.next 'x' "\u3000''\"a\\\"".toList =
      .ok (.name "x", "\u3000''\"a\\\"".toList) := by rfl
  have hempty : Token.next '\x27' "'\"a\\\"".toList =
      .ok (.quoted "''" "" '\x27', "\"a\\\"".toList) := by rfl
  have hreach : Reaches 0 "x\u3000''\"a\\\"".toList
      [⟨.name "x", ⟨0, 1⟩⟩, ⟨.quoted "''" "" '\x27', ⟨4, 6⟩⟩] 6 "\"a\\\"".toList := by
    have hrest : Reaches 1 "\u3000''\"a\\\"".toList [⟨.quoted "''" "" '\x27', ⟨4, 6⟩⟩] 6
        "\"a\\\"".toList := .token hwide (by decide) hempty (.here hnone)
    exact .token hnone (by decide) hname hrest
  have hquote : Text.OpensQuote '\x22' "\"a\\\"".toList := by
    refine ⟨.inl rfl, by decide, "a\\\"".toList, rfl, ?_⟩
    rw [← Text.closeQuote?_eq_none (by decide)]
    decide
  have herror := (tokenize_error "x\u3000''\"a\\\"").2 _ _ _ (.unterminatedText '\x22') hreach
    hquote
  exact ⟨herror, (tokenize_error _).1 _ herror⟩

end ObjectSpec
