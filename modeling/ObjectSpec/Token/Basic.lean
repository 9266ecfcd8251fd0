import ObjectSpec.Text.Position

/-!
# Tokens

The pieces of a spec text. A token keeps the text it was written as, so that
the tokens and the blanks between them make up the whole text.
-/

namespace ObjectSpec

/-- A punctuation mark. -/
inductive Mark
  | openParen
  | closeParen
  | openBracket
  | closeBracket
  | openBrace
  | closeBrace
  | comma
  | colon
deriving DecidableEq

namespace Mark

def char : Mark → Char
  | .openParen => '('
  | .closeParen => ')'
  | .openBracket => '['
  | .closeBracket => ']'
  | .openBrace => '\x7b'
  | .closeBrace => '\x7d'
  | .comma => ','
  | .colon => ':'

def all : List Mark :=
  [.openParen, .closeParen, .openBracket, .closeBracket, .openBrace, .closeBrace, .comma, .colon]

def ofChar? (c : Char) : Option Mark := all.find? fun m => m.char == c

theorem ofChar?_char (m : Mark) : ofChar? m.char = some m := by cases m <;> decide

theorem char_of_ofChar? {c : Char} {m : Mark} (h : ofChar? c = some m) : m.char = c := by
  simpa using List.find?_some h

/-- The mark between single quotes. -/
def description (m : Mark) : String := s!"'{m.char}'"

end Mark

inductive Token
  /-- A dotted path of identifiers. -/
  | name (path : String)
  /-- A numeral, its sign and suffix included. -/
  | number (numeral : String)
  | boolean (value : Bool)
  /-- Quoted text as written, and what it stands for. -/
  | quoted (written value : String) (quote : Char)
  /-- A raw text as written, and what stands between its markers. -/
  | raw (written content : String)
  | mark (m : Mark)
deriving DecidableEq

namespace Token

/-- How `TRUE` and `FALSE` are written. -/
def booleanText (b : Bool) : String := if b then "TRUE" else "FALSE"

/-- The token as it was written. -/
def written : Token → String
  | .name path => path
  | .number numeral => numeral
  | .boolean b => booleanText b
  | .quoted written _ _ => written
  | .raw written _ => written
  | .mark m => String.singleton m.char

/-- The token as messages name it. -/
def description : Token → String
  | .name path => s!"identifier '{path}'"
  | .number numeral => s!"number {numeral}"
  | .boolean b => booleanText b
  | .quoted written _ _ => s!"string {written}"
  | .raw _ _ => "raw text block"
  | .mark m => m.description

/-- The same kind of token, whatever it holds. -/
def sameKind : Token → Token → Bool
  | .name _, .name _ => true
  | .number _, .number _ => true
  | .boolean _, .boolean _ => true
  | .quoted _ _ _, .quoted _ _ _ => true
  | .raw _ _, .raw _ _ => true
  | .mark a, .mark b => a == b
  | _, _ => false

theorem sameKind_mark {t : Token} {m : Mark} : t.sameKind (.mark m) = true ↔ t = .mark m := by
  cases t <;> simp [sameKind]

end Token

/-- A token and the bytes it covers. -/
structure Placed where
  token : Token
  span : Span
deriving DecidableEq

end ObjectSpec
