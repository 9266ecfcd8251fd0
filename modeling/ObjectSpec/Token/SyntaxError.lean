import ObjectSpec.Token.Basic

/-!
# Syntax errors

A syntax error says where, what the grammar allows there and what stands there.
Both are kept as causes; the words are chosen here and nowhere else.
-/

namespace ObjectSpec

/-- What the grammar allows. -/
inductive Expectation
  | value
  | endOfInput
  /-- No deeper nesting than the limit. -/
  | nesting (limit : Nat)
  | typePath
  /-- The opening parenthesis after a type name. -/
  | arguments (typeName : String)
  /-- A comma, or the mark that closes the list. -/
  | separator (close : Mark)
  | key
  | literal
  | rawText
  | token (t : Token)
  | wholeLong
  | wideInteger
  | finiteDouble
  | narrowInteger
  /-- Anything else, in words. -/
  | described (words : String)
deriving DecidableEq

namespace Expectation

def text : Expectation → String
  | .value => "a value"
  | .endOfInput => "end of input"
  | .nesting limit => s!"at most {limit} levels of nesting"
  | .typePath => "a type name"
  | .arguments typeName => s!"'(' after type name '{typeName}'"
  | .separator close => s!"',' or {close.description}"
  | .key => "a string key"
  | .literal => "a literal"
  | .rawText => "a raw text block"
  | .token t => t.description
  | .wholeLong => "a Long without a decimal point"
  | .wideInteger => "a 64-bit integer"
  | .finiteDouble => "a finite floating point number"
  | .narrowInteger => "a 32-bit integer (append L for 64-bit)"
  | .described words => words

end Expectation

/-- What stands there. -/
inductive Finding
  | endOfInput
  | token (t : Token)
  | numeral (written : String)
deriving DecidableEq

namespace Finding

def text : Finding → String
  | .endOfInput => "end of input"
  | .token t => t.description
  | .numeral written => written

end Finding

structure SyntaxError where
  offset : Nat
  expected : Expectation
  found : Finding
deriving DecidableEq

namespace SyntaxError

def message (e : SyntaxError) : String :=
  s!"syntax error at offset {e.offset}: expected {e.expected.text}, found {e.found.text}"

end SyntaxError

end ObjectSpec
