import ObjectSpec.Text.Blank
import ObjectSpec.Text.Quoted
import ObjectSpec.Token.Basic

/-!
# Splitting a text into tokens

Blanks between tokens are dropped. Each token is the longest that starts where
it stands; the first character that starts none is an error.
-/

namespace ObjectSpec

/-- Why a text has no tokens. -/
inductive LexicalCause
  | unterminatedText (quote : Char)
  | unterminatedRaw
  | unexpected (found : Char)
deriving DecidableEq

/-- A cause and the offset of the character where no token could be read. -/
structure LexicalError where
  cause : LexicalCause
  offset : Nat
deriving DecidableEq

namespace LexicalError

def message (e : LexicalError) : String :=
  match e.cause with
  | .unterminatedText quote => s!"unterminated {quote}-quoted string starting at offset {e.offset}"
  | .unterminatedRaw => s!"unterminated raw text block starting at offset {e.offset}"
  | .unexpected found => s!"unexpected character '{found}' at offset {e.offset}"

end LexicalError

namespace Token

/-! ## Character classes -/

def isNameStart (c : Char) : Bool := c.isAlpha || c == '_' || c == '$'

def isNameChar (c : Char) : Bool := c.isAlphanum || c == '_' || c == '$'

/-! ## One token -/

/-- The characters in front that satisfy `p`, and the rest. -/
def splitWhile (p : Char → Bool) (text : List Char) : List Char × List Char :=
  (text.takeWhile p, text.dropWhile p)

/-- A character in front, if it is `c`, and the rest. -/
def splitOne (c : Char) (text : List Char) : List Char × List Char :=
  if text.head? = some c then ([c], text.tail) else ([], text)

/-- A point and at least one digit after it, and the rest. -/
def splitFraction (text : List Char) : List Char × List Char :=
  let (point, after) := splitOne '.' text
  let (row, rest) := splitWhile Char.isDigit after
  if point.isEmpty || row.isEmpty then ([], text) else (point ++ row, rest)

/-- A numeral: an optional minus, digits, optionally a point and digits, optionally an `L`. -/
def numeral? (text : List Char) : Option (List Char × List Char) :=
  let (sign, text) := splitOne '-' text
  let (whole, text) := splitWhile Char.isDigit text
  let (fraction, text) := splitFraction text
  let (suffix, text) := splitOne 'L' text
  if whole.isEmpty then none else some (sign ++ whole ++ fraction ++ suffix, text)

/-- The rest of a path. A dot belongs to the path if an identifier starts after it. -/
def pathTail : List Char → List Char × List Char
  | [] => ([], [])
  | [c] => if isNameChar c then ([c], []) else ([], [c])
  | c :: d :: cs =>
    if isNameChar c || (c == '.' && isNameStart d) then
      let (more, rest) := pathTail (d :: cs)
      (c :: more, rest)
    else
      ([], c :: d :: cs)

/-- Identifiers with dots between them. -/
def path? : List Char → Option (List Char × List Char)
  | [] => none
  | c :: cs =>
    if isNameStart c then
      let (more, rest) := pathTail cs
      some (c :: more, rest)
    else
      none

/-- A path is a name, but `TRUE` and `FALSE` are booleans. -/
def ofPath (path : List Char) : Token :=
  let text := String.ofList path
  if text = booleanText true then .boolean true
  else if text = booleanText false then .boolean false
  else .name text

/-- The token at the start of a text that begins with `c`, and the text after it. -/
def next (c : Char) (cs : List Char) : Except LexicalCause (Token × List Char) :=
  if Text.rawMarker.isPrefixOf (c :: cs) then
    match Text.closeRaw? (cs.drop 2) with
    | some (content, rest) =>
      .ok (.raw (String.ofList (Text.rawMarker ++ content ++ Text.rawMarker))
        (String.ofList content), rest)
    | none => .error .unterminatedRaw
  else if c = '\x22' ∨ c = '\x27' then
    match Text.closeQuote? c cs with
    | some (body, rest) =>
      .ok (.quoted (String.ofList (c :: body ++ [c])) (String.ofList (Text.unescape c body)) c,
        rest)
    | none => .error (.unterminatedText c)
  else if let some m := Mark.ofChar? c then
    .ok (.mark m, cs)
  else if let some (row, rest) := numeral? (c :: cs) then
    .ok (.number (String.ofList row), rest)
  else if let some (path, rest) := path? (c :: cs) then
    .ok (ofPath path, rest)
  else
    .error (.unexpected c)

/-! ## What a token takes from the text -/

theorem splitOne_eq (c : Char) (text : List Char) :
    (splitOne c text).1 ++ (splitOne c text).2 = text := by
  cases text with
  | nil => simp [splitOne]
  | cons d ds =>
    by_cases h : d = c
    · simp [splitOne, h]
    · simp [splitOne, h]

theorem splitWhile_eq (p : Char → Bool) (text : List Char) :
    (splitWhile p text).1 ++ (splitWhile p text).2 = text := List.takeWhile_append_dropWhile

theorem splitFraction_eq (text : List Char) :
    (splitFraction text).1 ++ (splitFraction text).2 = text := by
  simp only [splitFraction]
  split
  · rfl
  · rw [List.append_assoc, splitWhile_eq, splitOne_eq]

theorem eq_of_numeral? {text row rest : List Char} (h : numeral? text = some (row, rest)) :
    text = row ++ rest ∧ row ≠ [] := by
  simp only [numeral?] at h
  split at h
  · simp at h
  · next hne =>
    simp only [Option.some.injEq, Prod.mk.injEq] at h
    obtain ⟨rfl, rfl⟩ := h
    constructor
    · rw [List.append_assoc, splitOne_eq, List.append_assoc, splitFraction_eq, List.append_assoc,
        splitWhile_eq, splitOne_eq]
    · intro he
      simp only [List.append_eq_nil_iff] at he
      simp [he.1.1.2] at hne

theorem pathTail_eq (text : List Char) : (pathTail text).1 ++ (pathTail text).2 = text := by
  fun_induction pathTail text with
  | case1 => rfl
  | case2 => rfl
  | case3 => rfl
  | case4 c d cs _ more rest hp ih => simpa [hp] using ih
  | case5 => rfl

theorem eq_of_path? {text path rest : List Char} (h : path? text = some (path, rest)) :
    text = path ++ rest ∧ path ≠ [] := by
  cases text with
  | nil => simp [path?] at h
  | cons c cs =>
    simp only [path?] at h
    split at h
    · simp only [Option.some.injEq, Prod.mk.injEq] at h
      obtain ⟨rfl, rfl⟩ := h
      exact ⟨by simp [pathTail_eq], by simp⟩
    · simp at h

theorem written_ofPath (path : List Char) : (ofPath path).written = String.ofList path := by
  simp only [ofPath]
  split
  · next h => simp [written, h]
  · split
    · next h => simp [written, h]
    · rfl

/-- A token takes at least one character and is written as those it takes. -/
theorem written_of_next {c : Char} {cs rest : List Char} {t : Token}
    (h : next c cs = .ok (t, rest)) :
    c :: cs = t.written.toList ++ rest ∧ t.written.toList ≠ [] := by
  simp only [next] at h
  split at h
  · next hp =>
    split at h
    · next content _ hc =>
      simp only [Except.ok.injEq, Prod.mk.injEq] at h
      obtain ⟨rfl, rfl⟩ := h
      obtain ⟨more, hm⟩ := List.isPrefixOf_iff_prefix.1 hp
      rw [Text.drop_of_rawMarker hm] at hc
      rw [← hm, Text.eq_of_closeRaw? hc]
      simp only [written, String.toList_ofList, Text.rawMarker]
      simp
    · simp at h
  split at h
  · split at h
    · next hc =>
      simp only [Except.ok.injEq, Prod.mk.injEq] at h
      obtain ⟨rfl, rfl⟩ := h
      simp only [written, String.toList_ofList, Text.eq_of_closeQuote? hc]
      simp
    · simp at h
  split at h
  · next hm =>
    simp only [Except.ok.injEq, Prod.mk.injEq] at h
    obtain ⟨rfl, rfl⟩ := h
    simp [written, Mark.char_of_ofChar? hm]
  split at h
  · next hn =>
    simp only [Except.ok.injEq, Prod.mk.injEq] at h
    obtain ⟨rfl, rfl⟩ := h
    simpa only [written, String.toList_ofList] using eq_of_numeral? hn
  split at h
  · next hn =>
    simp only [Except.ok.injEq, Prod.mk.injEq] at h
    obtain ⟨rfl, rfl⟩ := h
    simpa only [written_ofPath, String.toList_ofList] using eq_of_path? hn
  · simp at h

theorem length_of_next {c : Char} {cs rest : List Char} {t : Token}
    (h : next c cs = .ok (t, rest)) : rest.length < (c :: cs).length := by
  rw [(written_of_next h).1, List.length_append]
  have := List.length_pos_iff.2 (written_of_next h).2
  omega

/-- Less text is left behind a token than in front of the blanks before it. -/
theorem length_of_skipBlank_next {text : List Char} {c : Char} {cs rest : List Char} {t : Token}
    (hb : Text.skipBlank text = c :: cs) (hn : next c cs = .ok (t, rest)) :
    rest.length < text.length :=
  Nat.lt_of_lt_of_le (length_of_next hn) (hb ▸ Text.skipBlank_length text)

end Token

/-! ## The tokens of a text -/

/-- The tokens of a text whose first character stands at `offset`. -/
def tokensFrom (offset : Nat) (text : List Char) : Except LexicalError (List Placed) :=
  match _hb : Text.skipBlank text with
  | [] => .ok []
  | c :: cs =>
    let start := offset + Text.byteCount (text.takeWhile Text.isBlank)
    match _hn : Token.next c cs with
    | .error cause => .error ⟨cause, start⟩
    | .ok (token, rest) =>
      let stop := start + Text.byteCount token.written.toList
      (tokensFrom stop rest).map (⟨token, ⟨start, stop⟩⟩ :: ·)
termination_by text.length
decreasing_by exact Token.length_of_skipBlank_next _hb _hn

/-- The tokens of a text. -/
def tokenize (source : String) : Except LexicalError (List Placed) :=
  tokensFrom 0 source.toList

end ObjectSpec
