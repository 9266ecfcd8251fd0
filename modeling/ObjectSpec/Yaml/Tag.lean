import ObjectSpec.Text.Digits
import ObjectSpec.Yaml.Spot
import ObjectSpec.Yaml.Token

/-!
# Anchors, tags and directives

A tag is a handle and a suffix; directives give handles a meaning. Both may hold
escapes for bytes that are no characters of their own.
-/

namespace ObjectSpec.Yaml

/-- The name behind the character that starts an anchor or a reference. -/
def anchorName? (s : Spot) : Option (List Char × Spot) :=
  let name := s.next.run isWordChar
  let t := s.next.after name
  if name.isEmpty then none
  else if spacingOrEnd t.rest ||
      t.rest.head?.any (['?', ':', ',', ']', '\x7d', '%', '@', '\x60'].contains ·) then
    some (name, t)
  else none

/-! ## Tags -/

/-- A character of a tag. Those that bound a flow collection need a verbatim tag. -/
def isTagChar (verbatim : Bool) (c : Char) : Bool :=
  isWordChar c ||
    [';', '/', '?', ':', '@', '&', '=', '+', '$', '.', '%', '!', '~', '*', '\x27', '(',
      ')'].contains c ||
    (verbatim && [',', '[', ']'].contains c)

/-- How many bytes follow the first one of a character. -/
def trailingBytes? (first : Nat) : Option Nat :=
  if first < 0x80 then some 0
  else if 0xC0 ≤ first ∧ first < 0xE0 then some 1
  else if 0xE0 ≤ first ∧ first < 0xF0 then some 2
  else if 0xF0 ≤ first ∧ first < 0xF8 then some 3
  else none

/-- The bytes of a tag whose escapes are resolved, while `missing` bytes of a character are to
come. -/
def tagBytes? (missing : Nat) : List Char → Option (List Char)
  | [] => if missing = 0 then some [] else none
  | '%' :: high :: low :: cs => do
    let byte := 16 * (← Text.hexValue? high) + (← Text.hexValue? low)
    let further ←
      if missing = 0 then trailingBytes? byte
      else if 0x80 ≤ byte ∧ byte < 0xC0 then some (missing - 1)
      else none
    return Char.ofNat byte :: (← tagBytes? further cs)
  | c :: cs => if missing = 0 ∧ c ≠ '%' then (tagBytes? 0 cs).map (c :: ·) else none

/-- The part of a tag that stands here, up to a zero byte, and the place after it. -/
def tagText? (verbatim : Bool) (s : Spot) : Option (List Char × Spot) := do
  let piece := s.run (isTagChar verbatim)
  let bytes ← tagBytes? 0 piece
  return (bytes.takeWhile (· != '\x00'), s.after piece)

/-- As `tagText?`, but there must be something. -/
def someTagText? (verbatim : Bool) (s : Spot) : Option (List Char × Spot) :=
  if (s.run (isTagChar verbatim)).isEmpty then none else tagText? verbatim s

/-- An exclamation mark and the word behind it, which another mark may close. -/
def tagHandle (s : Spot) : List Char × Spot :=
  let word := s.next.run isWordChar
  let t := s.next.after word
  if t.holds '!' then ('!' :: word ++ ['!'], t.next) else ('!' :: word, t)

/-- The handle and the suffix of the tag that starts here, and the place after it. -/
def tag? (inBraces : Bool) (s : Spot) : Option (Token × Spot) := do
  let (handle, suffix, t) ←
    if s.next.holds '<' then do
      let (suffix, t) ← someTagText? true s.next.next
      if !t.holds '>' then none
      some ([], suffix, t.next)
    else do
      let (handle, t) := tagHandle s
      if 1 < handle.length ∧ handle.getLast? = some '!' then do
        let (suffix, t) ← someTagText? false t
        some (handle, suffix, t)
      else do
        let (more, t) ← tagText? false t
        let suffix := handle.drop 1 ++ more
        if suffix.isEmpty then some ([], ['!'], t) else some (['!'], suffix, t)
  if (inBraces && t.holds ',') || spacingOrEnd t.rest then return (.tag handle suffix, t)
  else none

/-! ## Directives -/

/-- A number of at most nine digits, and the place after it. -/
def versionNumber? (s : Spot) : Option (Nat × Spot) :=
  let row := s.run Char.isDigit
  if row.isEmpty ∨ 9 < row.length then none else some (Text.readDigits row, s.after row)

/-- The version in a directive. -/
def version? (s : Spot) : Option (Token × Spot) := do
  let (major, t) ← versionNumber? s
  if !t.holds '.' then none
  let (minor, t) ← versionNumber? t.next
  return (.version major minor, t)

/-- The handle and its meaning in a directive. -/
def handle? (s : Spot) : Option (Token × Spot) := do
  if !s.holds '!' then none
  let (name, t) := tagHandle s
  if name.getLast? ≠ some '!' ∨ !t.rest.head?.any isInlineBlank then none
  let (lead, t) ← someTagText? true (t.afterRun isInlineBlank)
  if spacingOrEnd t.rest then return (.handle name lead, t)
  else none

/-- The directive that starts here, and the place after its line. -/
def directive? (s : Spot) : Option (Token × Spot) := do
  let name := s.next.run isWordChar
  let t := s.next.after name
  if !spacingOrEnd t.rest then none
  let body := t.afterRun isInlineBlank
  let (token, t) ←
    if name = "YAML".toList then version? body
    else if name = "TAG".toList then handle? body
    else none
  return (token, (← t.lineEnd?).next)

end ObjectSpec.Yaml
