import ObjectSpec.Json.Basic

/-!
# Writing JSON

On one line, or with one value to a line and two spaces for each level.
-/

namespace ObjectSpec.Json

/-- A control character in four hexadecimal digits, or one of the short escapes. -/
def escapeChar (c : Char) : List Char :=
  match c with
  | '\x22' => ['\\', '\x22']
  | '\\' => ['\\', '\\']
  | '\x08' => ['\\', 'b']
  | '\x0c' => ['\\', 'f']
  | '\n' => ['\\', 'n']
  | '\r' => ['\\', 'r']
  | '\t' => ['\\', 't']
  | c =>
    if c.toNat < 0x20 then '\\' :: 'u' :: Text.padZeros 4 (Text.writeHex c.toNat) else [c]

def quoteText (text : String) : String :=
  String.ofList ('\x22' :: text.toList.flatMap escapeChar ++ ['\x22'])

mutual

/-- On one line, without blanks. -/
def compact : Json → String
  | .null => "null"
  | .boolean b => if b then "true" else "false"
  | .number numeral => numeral
  | .string text => quoteText text
  | .array items => "[" ++ ",".intercalate (compactList items) ++ "]"
  | .object members => "\x7b" ++ ",".intercalate (compactMembers members) ++ "\x7d"

def compactList : List Json → List String
  | [] => []
  | j :: js => compact j :: compactList js

def compactMembers : List (String × Json) → List String
  | [] => []
  | (key, j) :: ms => (quoteText key ++ ":" ++ compact j) :: compactMembers ms

end

/-- A new line with two spaces for each level. -/
def lineBreak (level : Nat) : String := "\n" ++ String.ofList (List.replicate (2 * level) ' ')

/-- The lines of a container; an empty one is closed at once. -/
def block (openMark closeMark : String) (level : Nat) (lines : List String) : String :=
  if lines.isEmpty then openMark ++ closeMark
  else
    openMark ++ lineBreak (level + 1) ++ ("," ++ lineBreak (level + 1)).intercalate lines ++
      lineBreak level ++ closeMark

mutual

/-- With one value to a line. -/
def pretty (level : Nat) : Json → String
  | .null => "null"
  | .boolean b => if b then "true" else "false"
  | .number numeral => numeral
  | .string text => quoteText text
  | .array items => block "[" "]" level (prettyList (level + 1) items)
  | .object members => block "\x7b" "\x7d" level (prettyMembers (level + 1) members)

def prettyList (level : Nat) : List Json → List String
  | [] => []
  | j :: js => pretty level j :: prettyList level js

def prettyMembers (level : Nat) : List (String × Json) → List String
  | [] => []
  | (key, j) :: ms => (quoteText key ++ ": " ++ pretty level j) :: prettyMembers level ms

end

end ObjectSpec.Json
