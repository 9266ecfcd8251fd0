import ObjectSpec.Token.SyntaxError

/-!
# A place in a row of tokens

A cursor stands between the tokens already taken and those still to come. Only
taking a token moves it.
-/

namespace ObjectSpec

structure Cursor where
  /-- The tokens taken, the latest first. -/
  taken : List Placed
  rest : List Placed
  /-- The offset where the text ends. -/
  finish : Nat
deriving DecidableEq

namespace Cursor

/-- In front of all tokens of a text of `finish` bytes. -/
def start (tokens : List Placed) (finish : Nat) : Cursor := ⟨[], tokens, finish⟩

/-- How many tokens have been taken. -/
def position (c : Cursor) : Nat := c.taken.length

def atEnd (c : Cursor) : Bool := c.rest.isEmpty

/-- The next token. -/
def peek (c : Cursor) : Option Token := c.rest.head?.map Placed.token

/-- The span of the next token, or the empty one at the end. -/
def currentSpan (c : Cursor) : Span :=
  match c.rest with
  | [] => ⟨c.finish, c.finish⟩
  | t :: _ => t.span

/-- Where the latest token taken ends. -/
def lastEnd (c : Cursor) : Nat :=
  match c.taken with
  | [] => 0
  | t :: _ => t.span.stop

def found (c : Cursor) : Finding :=
  match c.peek with
  | none => .endOfInput
  | some t => .token t

/-- The error that something else is expected here. -/
def failure (c : Cursor) (expected : Expectation) : SyntaxError :=
  ⟨c.currentSpan.start, expected, c.found⟩

/-- Take the next token. -/
def advance (c : Cursor) : Option Placed × Cursor :=
  match c.rest with
  | [] => (none, c)
  | t :: rest => (some t, ⟨t :: c.taken, rest, c.finish⟩)

/-- Whether the next token is of a kind. -/
def check (c : Cursor) (t : Token) : Bool :=
  match c.peek with
  | none => false
  | some u => u.sameKind t

/-- Take the next token if it is of a kind. -/
def eat (c : Cursor) (t : Token) : Bool × Cursor :=
  if c.check t then (true, c.advance.2) else (false, c)

/-- Take the next token, which must be of a kind, and give its span. -/
def expect (c : Cursor) (t : Token) : Except SyntaxError Span × Cursor :=
  if c.check t then (.ok c.currentSpan, c.advance.2) else (.error (c.failure (.token t)), c)

/-- All tokens, in order. -/
def tokens (c : Cursor) : List Placed := c.taken.reverse ++ c.rest

end Cursor

end ObjectSpec
