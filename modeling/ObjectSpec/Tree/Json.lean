import ObjectSpec.Json.Basic
import ObjectSpec.Tree.Numeral

/-!
# The JSON form of a tree

Each node is an object whose one key says what kind of node it is. What the key
leads to has its fields as keys; a construct and a span may also be read from
the list of their fields.
-/

namespace ObjectSpec

namespace Span

def toJson (s : Span) : Json := .object [("start", .natural s.start), ("end", .natural s.stop)]

end Span

namespace Json

/-- An integer of 64 bits without a sign. -/
def offset? (j : Json) : Option Nat :=
  j.natural?.bind fun n => if n < UInt64.size then some n else none

def finite? (j : Json) : Option Double :=
  j.double?.bind fun d => if d.isFinite then some d else none

end Json

namespace Span

def ofJson? (j : Json) : Option Span := do
  match ← j.fields? ["start", "end"] with
  | [start, stop] => some ⟨← start.offset?, ← stop.offset?⟩
  | _ => none

end Span

namespace Literal

def toJson : Literal → Json
  | .integer n => .object [("Integer", .integer n.toInt)]
  | .long n => .object [("Long", .integer n.toInt)]
  | .double d => .object [("Double", .double d)]
  | .boolean b => .object [("Boolean", .boolean b)]
  | .string text => .object [("String", .string text)]

def ofJson? (j : Json) : Option Literal := do
  let (kind, value) ← j.single?
  if kind = "Integer" then (value.integer?.bind narrow?).map .integer
  else if kind = "Long" then (value.integer?.bind wide?).map .long
  else if kind = "Double" then value.finite?.map .double
  else if kind = "Boolean" then value.boolean?.map .boolean
  else if kind = "String" then value.string?.map .string
  else none

end Literal

namespace Tree

mutual

def toJson : Tree → Json
  | .literal l => .object [("Literal", l.toJson)]
  | .construct typeName args span =>
    .object [("Construct", .object [("type_name", .string typeName),
      ("args", .array (toJsonList args)), ("span", span.toJson)])]
  | .array items span =>
    .object [("Array", .object [("items", .array (toJsonList items)), ("span", span.toJson)])]
  | .map entries span =>
    .object [("Map", .object [("entries", .array (toJsonEntries entries)), ("span", span.toJson)])]
  | .raw written content span =>
    .object [("RawText", .object [("source", .string written), ("content", .string content),
      ("span", span.toJson)])]

def toJsonList : List Tree → List Json
  | [] => []
  | t :: ts => toJson t :: toJsonList ts

def toJsonEntries : List (String × Tree) → List Json
  | [] => []
  | (key, t) :: es => .array [.string key, toJson t] :: toJsonEntries es

end

/-- A key and a value, the value read by `part`. -/
def entryOfJson? (part : Json → Option Tree) : Json → Option (String × Tree)
  | .array [key, value] => do some (← key.string?, ← part value)
  | _ => none

/-- A node whose parts are read by `part`. -/
def nodeOfJson? (part : Json → Option Tree) (j : Json) : Option Tree := do
  let (kind, body) ← j.single?
  if kind = "Literal" then (Literal.ofJson? body).map .literal
  else if kind = "Construct" then
    match ← body.fields? ["type_name", "args", "span"] with
    | [typeName, args, span] =>
      some (.construct (← typeName.string?) (← (← args.array?).mapM part) (← Span.ofJson? span))
    | _ => none
  else if kind = "Array" then
    match ← body.namedFields? ["items", "span"] with
    | [items, span] => some (.array (← (← items.array?).mapM part) (← Span.ofJson? span))
    | _ => none
  else if kind = "Map" then
    match ← body.namedFields? ["entries", "span"] with
    | [entries, span] =>
      some (.map (← (← entries.array?).mapM (entryOfJson? part)) (← Span.ofJson? span))
    | _ => none
  else if kind = "RawText" then
    match ← body.namedFields? ["source", "content", "span"] with
    | [written, content, span] =>
      some (.raw (← written.string?) (← content.string?) (← Span.ofJson? span))
    | _ => none
  else none

/-- A tree nested at most so deep in JSON. -/
def ofJsonWithin? : Nat → Json → Option Tree
  | 0, _ => none
  | levels + 1, j => nodeOfJson? (ofJsonWithin? levels) j

/-- The tree that a JSON value stands for, if it is the form of one. -/
def ofJson? (j : Json) : Option Tree := ofJsonWithin? j.depth j

end Tree

end ObjectSpec
