import ObjectSpec.Token.Cursor
import ObjectSpec.Token.Lexer
import ObjectSpec.Tree.Numeral

/-!
# Reading a tree

A value is a construct `name(value, …)`, an array `[value, …]`, a map
`{string: value, …}`, a literal or a raw text. Constructs, arrays and maps may
be nested up to a limit. A text that is nothing but one raw text is one node
that covers the whole text, blanks around it included.

The reader keeps a cursor into the tokens and the depth of the value it is in.
It stops at the first token that no spec could have there.
-/

namespace ObjectSpec

/-- What the reader keeps between two tokens. -/
structure Reader where
  cursor : Cursor
  depth : Nat
deriving DecidableEq

/-- A rule of the grammar: it reads a piece of the tokens, or stops with an error. -/
abbrev Rule (α : Type) : Type := EStateM SyntaxError Reader α

namespace Rule

/-- Stop where the reader is. -/
def refuse {α : Type} (expected : Expectation) : Rule α := fun r =>
  .error (r.cursor.failure expected) r

def peek : Rule (Option Token) := fun r => .ok r.cursor.peek r

def advance : Rule (Option Placed) := fun r =>
  match r.cursor.advance with
  | (t, c) => .ok t { r with cursor := c }

def eat (t : Token) : Rule Bool := fun r =>
  match r.cursor.eat t with
  | (b, c) => .ok b { r with cursor := c }

def expect (t : Token) : Rule Span := fun r =>
  match r.cursor.expect t with
  | (.ok span, c) => .ok span { r with cursor := c }
  | (.error e, c) => .error e { r with cursor := c }

/-- Where the next token starts. -/
def here : Rule Nat := fun r => .ok r.cursor.currentSpan.start r

/-- From `start` to the end of the latest token. -/
def spanFrom (start : Nat) : Rule Span := fun r => .ok ⟨start, r.cursor.lastEnd⟩ r

/-- A rule one level deeper. The level is left again however the rule ends. -/
def nested {α : Type} (limit : Nat) (rule : Rule α) : Rule α := fun r =>
  if limit ≤ r.depth then
    refuse (.nesting limit) r
  else
    match rule { r with depth := r.depth + 1 } with
    | .ok a s => .ok a { s with depth := s.depth - 1 }
    | .error e s => .error e { s with depth := s.depth - 1 }

/-! ## Lists -/

/-- Items with commas between them, up to and with the closing mark. Each turn takes a token, so
as many turns as there are tokens are enough. -/
def items {α : Type} (close : Mark) (item : Rule α) : Nat → Rule (List α)
  | 0 => do
    let _ ← item
    refuse (.separator close)
  | turns + 1 => do
    let first ← item
    if ← eat (.mark .comma) then
      let more ← items close item turns
      return first :: more
    else if ← eat (.mark close) then
      return [first]
    else
      refuse (.separator close)

/-- A list, empty if the closing mark comes first. -/
def list {α : Type} (close : Mark) (item : Rule α) : Rule (List α) := do
  if ← eat (.mark close) then
    return []
  else
    fun r => items close item r.cursor.rest.length r

/-! ## Values -/

def construct (value : Rule Tree) : Rule Tree := do
  let start ← here
  match ← advance with
  | some ⟨.name typeName, _⟩ =>
    unless ← eat (.mark .openParen) do
      refuse (.arguments typeName)
    let args ← list .closeParen value
    return .construct typeName args (← spanFrom start)
  | _ => refuse .typePath

def array (value : Rule Tree) : Rule Tree := do
  let opening ← expect (.mark .openBracket)
  let items ← list .closeBracket value
  return .array items (← spanFrom opening.start)

/-- A key, a colon and a value. -/
def entry (value : Rule Tree) : Rule (String × Tree) := do
  match ← peek with
  | some (.quoted _ key _) =>
    let _ ← advance
    let _ ← expect (.mark .colon)
    return (key, ← value)
  | _ => refuse .key

def map (value : Rule Tree) : Rule Tree := do
  let opening ← expect (.mark .openBrace)
  let entries ← list .closeBrace (entry value)
  return .map entries (← spanFrom opening.start)

def literal : Rule Tree := do
  match ← advance with
  | some ⟨.boolean b, _⟩ => return .literal (.boolean b)
  | some ⟨.quoted _ text _, _⟩ => return .literal (.string text)
  | some ⟨.number numeral, span⟩ =>
    match Literal.ofNumeral numeral.toList with
    | .ok l => return .literal l
    | .error expected => throw ⟨span.start, expected, .numeral numeral⟩
  | some ⟨other, span⟩ => throw ⟨span.start, .literal, .token other⟩
  | none => refuse .literal

def raw : Rule Tree := do
  match ← advance with
  | some ⟨.raw written content, span⟩ => return .raw written content span
  | _ => refuse .rawText

/-- A value whose parts are read by `part`. The next token decides. -/
def valueOf (limit : Nat) (part : Rule Tree) : Rule Tree := do
  match ← peek with
  | some (.name _) => nested limit (construct part)
  | some (.mark .openBracket) => nested limit (array part)
  | some (.mark .openBrace) => nested limit (map part)
  | some (.number _) | some (.boolean _) | some (.quoted _ _ _) => literal
  | some (.raw _ _) => raw
  | _ => refuse .value

/-- A value with at most so many levels in it. -/
def valueWithin (limit : Nat) : Nat → Rule Tree
  | 0 => valueOf limit (refuse .value)
  | levels + 1 => valueOf limit (valueWithin limit levels)

/-- A value, as deep as the limit allows where the reader is. -/
def value (limit : Nat) : Rule Tree := fun r => valueWithin limit (limit - r.depth) r

/-- A value that the text ends after. -/
def spec (limit : Nat) : Rule Tree := do
  let root ← value limit
  if (← peek).isSome then
    refuse .endOfInput
  return root

end Rule

/-- Why a text is no spec. -/
inductive ParseError
  | lexical (e : LexicalError)
  | grammar (e : SyntaxError)
deriving DecidableEq

namespace ParseError

def message : ParseError → String
  | .lexical e => s!"lex error: {e.message}"
  | .grammar e => e.message

/-- The offset where reading stopped. -/
def offset : ParseError → Nat
  | .lexical e => e.offset
  | .grammar e => e.offset

/-- How many characters stand before the error. -/
def charOffset (e : ParseError) (source : String) : Nat :=
  (Text.before source.toList e.offset).length

def location (e : ParseError) (source : String) : Location := Location.locate source e.offset

end ParseError

namespace Tree

/-- How deep a spec may be nested if nothing else is said. -/
def defaultLimit : Nat := 64

/-- The tree of a row of tokens. -/
def ofTokens (limit : Nat) (tokens : List Placed) (finish : Nat) : Except SyntaxError Tree :=
  match Rule.spec limit ⟨Cursor.start tokens finish, 0⟩ with
  | .ok root _ => .ok root
  | .error e _ => .error e

/-- The tree of a text. -/
def parse (limit : Nat) (source : String) : Except ParseError Tree :=
  match tokenize source with
  | .error e => .error (.lexical e)
  | .ok tokens =>
    let finish := Text.byteCount source.toList
    match tokens with
    -- One raw text alone keeps the blanks around it.
    | [⟨.raw _ content, _⟩] => .ok (.raw source content ⟨0, finish⟩)
    | _ => (ofTokens limit tokens finish).mapError .grammar

end Tree

end ObjectSpec
