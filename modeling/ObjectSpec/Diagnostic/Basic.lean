import ObjectSpec.Json.Basic
import ObjectSpec.Text.Search
import ObjectSpec.Tree.Parser

/-!
# Diagnostics

A message about a spec, for a person: how bad it is, what it is about, where,
and a fix where there is one. A parse error becomes one diagnostic. What it is
about is told by its cause, or, for an error of the grammar, by its words.
-/

namespace ObjectSpec

inductive Severity
  | error
  | warning
deriving DecidableEq

namespace Severity

def name : Severity → String
  | .error => "Error"
  | .warning => "Warning"

/-- The severity in a message. -/
def word : Severity → String
  | .error => "error"
  | .warning => "warning"

end Severity

/-- What a diagnostic is about. -/
inductive Topic
  | grammar
  | unterminatedLiteral
  | unexpectedChar
  | nestingTooDeep
  | unknownType
  | arityMismatch
deriving DecidableEq

namespace Topic

def name : Topic → String
  | .grammar => "SyntaxError"
  | .unterminatedLiteral => "UnterminatedLiteral"
  | .unexpectedChar => "UnexpectedChar"
  | .nestingTooDeep => "NestingTooDeep"
  | .unknownType => "UnknownType"
  | .arityMismatch => "ArityMismatch"

def all : List Topic :=
  [.grammar, .unterminatedLiteral, .unexpectedChar, .nestingTooDeep, .unknownType, .arityMismatch]

def ofName? (name : String) : Option Topic := all.find? fun t => t.name == name

/-- The text has no tree at all. -/
def isHard : Topic → Bool
  | .grammar | .unterminatedLiteral | .unexpectedChar | .nestingTooDeep => true
  | .unknownType | .arityMismatch => false

end Topic

/-- A text to put in place of a range. -/
structure Fix where
  description : String
  replacement : String
  range : LineRange
deriving DecidableEq

structure Diagnostic where
  severity : Severity
  topic : Topic
  message : String
  range : Option LineRange := none
  fix : Option Fix := none
deriving DecidableEq

namespace Diagnostic

def isError (d : Diagnostic) : Bool := d.severity == .error

def isWarning (d : Diagnostic) : Bool := d.severity == .warning

/-- An error that leaves the text without a tree. -/
def isHardError (d : Diagnostic) : Bool := d.isError && d.topic.isHard

/-- One line: the place, the severity, the message, and the fix in parentheses. -/
def text (d : Diagnostic) : String :=
  let place := match d.range with
    | some r => s!"{r.text}: "
    | none => ""
  let fix := match d.fix with
    | some f => s!" ({f.description})"
    | none => ""
  s!"{place}{d.severity.word}: {d.message}{fix}"

/-- A type that no catalog entry has. -/
def unknownType (typeName : String) (range : Option LineRange) : Diagnostic :=
  { severity := .error, topic := .unknownType, message := s!"unknown type '{typeName}'", range }

/-- A known type with a number of arguments that none of its signatures takes. -/
def arityMismatch (typeName : String) (arity : Nat) (accepted : List Nat)
    (range : Option LineRange) : Diagnostic :=
  let counts := ", ".intercalate (accepted.map Text.naturalText)
  { severity := .warning, topic := .arityMismatch
    message := s!"no signature of '{typeName}' takes {arity} argument(s) (accepts {counts})"
    range }

/-! ## JSON form -/

def rangeJson (r : LineRange) : Json :=
  .object [("start_line", .natural r.startLine), ("start_col", .natural r.startColumn),
    ("end_line", .natural r.endLine), ("end_col", .natural r.endColumn)]

def fixJson (f : Fix) : Json :=
  .object [("description", .string f.description), ("replacement", .string f.replacement),
    ("span", rangeJson f.range)]

def toJson (d : Diagnostic) : Json :=
  .object [("severity", .string d.severity.name), ("code", .string d.topic.name),
    ("message", .string d.message), ("span", .option (d.range.map rangeJson)),
    ("suggested_fix", .option (d.fix.map fixJson))]

end Diagnostic

namespace ParseError

/-- The words by which an error is known to be about too deep a nesting. -/
def nestingWords : String := "levels of nesting"

def topic : ParseError → Topic
  | .lexical e =>
    match e.cause with
    | .unterminatedText _ | .unterminatedRaw => .unterminatedLiteral
    | .unexpected _ => .unexpectedChar
  | .grammar e =>
    if Text.contains nestingWords.toList e.expected.text.toList then .nestingTooDeep else .grammar

/-- The error at its place in the text. -/
def diagnostic (e : ParseError) (source : String) : Diagnostic :=
  { severity := .error, topic := e.topic, message := e.message
    range := some (LineRange.ofOffsets source e.offset e.offset) }

end ParseError

end ObjectSpec
