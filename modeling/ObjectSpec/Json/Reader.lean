import ObjectSpec.Json.Basic

/-!
# Reading JSON

Each reader takes a value from the front of a text and gives the rest. A value
of `n` characters is nested less than `n` deep, which bounds the recursion.
-/

namespace ObjectSpec.Json

def isSpace (c : Char) : Bool := c == ' ' || c == '\t' || c == '\n' || c == '\r'

def skipSpace (text : List Char) : List Char := text.dropWhile isSpace

/-- A character after spaces. -/
def skipChar? (c : Char) (text : List Char) : Option (List Char) :=
  match skipSpace text with
  | d :: rest => if d = c then some rest else none
  | [] => none

/-- Four hexadecimal digits. -/
def takeUnit (text : List Char) : Option (Nat × List Char) :=
  if text.length < 4 then none
  else (Text.readHex? (text.take 4)).map (·, text.drop 4)

/-- The character of an escape after `\u`: one unit, or two that stand for one character. -/
def takeUnits (text : List Char) : Option (Char × List Char) := do
  let (first, rest) ← takeUnit text
  if 0xD800 ≤ first ∧ first < 0xDC00 then
    if rest.take 2 = ['\\', 'u'] then
      let (second, rest) ← takeUnit (rest.drop 2)
      if 0xDC00 ≤ second ∧ second < 0xE000 then
        some (Char.ofNat (0x10000 + (first - 0xD800) * 0x400 + (second - 0xDC00)), rest)
      else none
    else none
  else if 0xDC00 ≤ first ∧ first < 0xE000 then none
  else some (Char.ofNat first, rest)

/-- The character after a backslash. -/
def takeEscape (c : Char) (rest : List Char) : Option (Char × List Char) :=
  match c with
  | '\x22' => some ('\x22', rest)
  | '\\' => some ('\\', rest)
  | '/' => some ('/', rest)
  | 'b' => some ('\x08', rest)
  | 'f' => some ('\x0c', rest)
  | 'n' => some ('\n', rest)
  | 'r' => some ('\r', rest)
  | 't' => some ('\t', rest)
  | 'u' => takeUnits rest
  | _ => none

/-- The characters up to the closing quote. -/
def takeString : Nat → List Char → Option (List Char × List Char)
  | _, [] => none
  | 0, _ => none
  | fuel + 1, c :: cs =>
    if c = '\x22' then some ([], cs)
    else if c = '\\' then
      match cs with
      | [] => none
      | e :: rest => do
        let (d, rest) ← takeEscape e rest
        let (more, rest) ← takeString fuel rest
        some (d :: more, rest)
    else if c.toNat < 0x20 then none
    else do
      let (more, rest) ← takeString fuel cs
      some (c :: more, rest)

def isNumeralChar (c : Char) : Bool :=
  c.isDigit || c == '-' || c == '+' || c == '.' || c == 'e' || c == 'E'

/-- Items with commas between them, up to and with the closing character. -/
def takeItems {α : Type} (item : List Char → Option (α × List Char)) (close : Char) :
    Nat → List Char → Option (List α × List Char)
  | 0, _ => none
  | fuel + 1, text => do
    let (first, rest) ← item text
    match skipSpace rest with
    | [] => none
    | c :: rest =>
      if c = ',' then
        let (more, rest) ← takeItems item close fuel rest
        some (first :: more, rest)
      else if c = close then some ([first], rest)
      else none

/-- A list, empty if the closing character comes first. -/
def takeList {α : Type} (item : List Char → Option (α × List Char)) (close : Char) (fuel : Nat)
    (text : List Char) : Option (List α × List Char) :=
  match skipChar? close text with
  | some rest => some ([], rest)
  | none => takeItems item close fuel text

/-- A key, a colon and a value. -/
def takeMember (value : List Char → Option (Json × List Char)) (fuel : Nat) (text : List Char) :
    Option ((String × Json) × List Char) := do
  let rest ← skipChar? '\x22' text
  let (key, rest) ← takeString fuel rest
  let rest ← skipChar? ':' rest
  let (j, rest) ← value rest
  some ((String.ofList key, j), rest)

/-- A word, if the text begins with it. -/
def takeWord (word : String) (j : Json) (text : List Char) : Option (Json × List Char) :=
  if word.toList.isPrefixOf text then some (j, text.drop word.length) else none

def takeValue : Nat → List Char → Option (Json × List Char)
  | 0, _ => none
  | fuel + 1, text =>
    match skipSpace text with
    | [] => none
    | c :: cs =>
      if c = '\x22' then
        (takeString fuel cs).map fun (text, rest) => (.string (String.ofList text), rest)
      else if c = '[' then
        (takeList (takeValue fuel) ']' fuel cs).map fun (items, rest) => (.array items, rest)
      else if c = '\x7b' then
        (takeList (takeMember (takeValue fuel) fuel) '\x7d' fuel cs).map
          fun (members, rest) => (.object (Entries.ofList members), rest)
      else if isNumeralChar c then
        some (.number (String.ofList ((c :: cs).takeWhile isNumeralChar)),
          (c :: cs).dropWhile isNumeralChar)
      else
        (takeWord "null" .null (c :: cs)).or
          ((takeWord "true" (.boolean true) (c :: cs)).or
            (takeWord "false" (.boolean false) (c :: cs)))

/-- The value that a text holds, and nothing else. -/
def read? (source : String) : Option Json :=
  let text := source.toList
  match takeValue (text.length + 1) text with
  | some (j, rest) => if (skipSpace rest).isEmpty then some j else none
  | none => none

end ObjectSpec.Json
