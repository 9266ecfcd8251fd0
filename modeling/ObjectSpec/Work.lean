import ObjectSpec.Calendar
import ObjectSpec.Json.Basic
import ObjectSpec.Urn

/-!
# Work

What an object is constructed for: nothing, or one scheduled run of a rule. The
JSON form is read back as the same work.
-/

namespace ObjectSpec

namespace Urn

/-- An identity stands in JSON as its text. -/
def toJson (u : Urn) : Json := .string u.text

def ofJson? (j : Json) : Option Urn := j.string?.bind fun text => (parse text).toOption

end Urn

/-- One run. -/
structure Run where
  /-- The 128 bits of the identifier. -/
  id : Nat
  owner : Urn
  rule : String
  /-- When the run was scheduled. -/
  scheduled : Int
deriving DecidableEq

inductive Work
  | none
  | run (r : Run)
deriving DecidableEq

namespace Run

/-- How many of the 32 hexadecimal digits of an identifier stand in each group. -/
def groups : List Nat := [8, 4, 4, 4, 12]

/-- Cut a row into groups of the given lengths. -/
def cut : List Nat → List Char → List (List Char)
  | [], _ => []
  | n :: ns, row => row.take n :: cut ns (row.drop n)

/-- The identifier as it is written, with hyphens between the groups. -/
def idText (id : Nat) : String :=
  let row := Text.padZeros 32 (Text.writeHex id)
  "-".intercalate ((cut groups row).map String.ofList)

/-- The identifier that is written so. -/
def readId? (source : String) : Option Nat := do
  let id ← Text.readHex? (source.toList.filter (· != '-'))
  if idText id = source then some id else none

def text (r : Run) : String := s!"{r.owner.text}/{r.rule}#{idText r.id}"

def toJson (r : Run) : Json :=
  .object [("id", .string (idText r.id)), ("owner", r.owner.toJson),
    ("rule", .string r.rule), ("scheduled", .string (Time.text r.scheduled))]

def ofJson? (j : Json) : Option Run := do
  match ← j.fields? ["id", "owner", "rule", "scheduled"] with
  | [id, owner, rule, scheduled] =>
    some ⟨← id.string?.bind readId?, ← Urn.ofJson? owner, ← rule.string?,
      ← scheduled.string?.bind Time.read?⟩
  | _ => none

end Run

namespace Work

def isNone (w : Work) : Bool := w == .none

def text : Work → String
  | .none => "none"
  | .run r => r.text

def toJson : Work → Json
  | .none => .string "None"
  | .run r => .object [("Run", r.toJson)]

def ofJson? : Json → Option Work
  | .string "None" => some .none
  | j => do
    let (kind, body) ← j.single?
    if kind = "Run" then (Run.ofJson? body).map .run else none

end Work

end ObjectSpec
