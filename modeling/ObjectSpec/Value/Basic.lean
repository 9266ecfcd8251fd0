import ObjectSpec.Json.Basic
import ObjectSpec.Text.Shown
import ObjectSpec.Tree.Basic

/-!
# Values

What a spec builds: scalars, arrays, maps and objects. An object may have a unit
of work that a scheduler triggers later; the work acts on a state of type `σ`.
-/

namespace ObjectSpec

/-- The kind of a value, an object's being the name of its type. -/
inductive Kind
  | integer
  | long
  | double
  | boolean
  | text
  | array
  | map
  | object (typeName : String)
deriving DecidableEq

namespace Kind

/-- The kind as messages name it. -/
def name : Kind → String
  | .integer => "Integer"
  | .long => "Long"
  | .double => "Double"
  | .boolean => "Boolean"
  | .text => "String"
  | .array => "Array"
  | .map => "Map"
  | .object typeName => typeName

def toJson : Kind → Json
  | .text => .string "Text"
  | .object typeName => .object [("Object", .string typeName)]
  | kind => .string kind.name

/-- The names of several kinds. -/
def names (kinds : List Kind) : String := ", ".intercalate (kinds.map name)

end Kind

/-- A unit of work. It may fail, with a reason in words. -/
abbrev Pulse (σ : Type) : Type := EStateM String σ Unit

/-- An object. Objects are the same if they have the same identity. -/
structure Object (σ : Type) where
  typeName : String
  identity : Nat
  /-- What a plain object holds. -/
  payload : Option Int64 := none
  pulse : Option (Pulse σ) := none

inductive Value (σ : Type)
  | integer (n : Int32)
  | long (n : Int64)
  | double (d : Double)
  | boolean (b : Bool)
  | text (s : String)
  | array (items : List (Value σ))
  /-- The keys are distinct and in the order in which they first came. -/
  | map (entries : List (String × Value σ))
  | object (o : Object σ)

/-- Why a value could not be pulsed. -/
inductive PulseError
  | notAnInstance (typeName : String)
  | failed (typeName reason : String)
deriving DecidableEq

namespace PulseError

def message : PulseError → String
  | .notAnInstance typeName => s!"'{typeName}' does not support pulse"
  | .failed typeName reason => s!"pulse of '{typeName}' failed: {reason}"

end PulseError

namespace Object

variable {σ : Type}

def isInstance (o : Object σ) : Bool := o.pulse.isSome

def same (a b : Object σ) : Bool := a.identity == b.identity

/-- Do the object's unit of work, if it has one. -/
def doPulse (o : Object σ) : EStateM PulseError σ Unit := fun s =>
  match o.pulse with
  | none => .error (.notAnInstance o.typeName) s
  | some work =>
    match work s with
    | .ok _ t => .ok () t
    | .error reason t => .error (.failed o.typeName reason) t

/-- The dump of an object. -/
def shown (o : Object σ) : String :=
  Text.shownRecord "BuiltObject"
    [("type_name", Text.shown o.typeName), ("instance", Text.shownBool o.isInstance)]

end Object

namespace Value

variable {σ : Type}

def kind : Value σ → Kind
  | .integer _ => .integer
  | .long _ => .long
  | .double _ => .double
  | .boolean _ => .boolean
  | .text _ => .text
  | .array _ => .array
  | .map _ => .map
  | .object o => .object o.typeName

/-! ## Views -/

def integer? : Value σ → Option Int32
  | .integer n => some n
  | _ => none

/-- A long, or an integer as a long. -/
def long? : Value σ → Option Int64
  | .long n => some n
  | .integer n => some n.toInt64
  | _ => none

/-- A double, or the double nearest to an integer or a long. -/
def double? : Value σ → Option Double
  | .double d => some d
  | .integer n => some (Double.ofInt n.toInt)
  | .long n => some (Double.ofInt n.toInt)
  | _ => none

def boolean? : Value σ → Option Bool
  | .boolean b => some b
  | _ => none

def text? : Value σ → Option String
  | .text s => some s
  | _ => none

def array? : Value σ → Option (List (Value σ))
  | .array items => some items
  | _ => none

def map? : Value σ → Option (List (String × Value σ))
  | .map entries => some entries
  | _ => none

def object? : Value σ → Option (Object σ)
  | .object o => some o
  | _ => none

/-- Do the unit of work of a value. Only objects can have one. -/
def doPulse : Value σ → EStateM PulseError σ Unit
  | .object o => o.doPulse
  | v => throw (.notAnInstance v.kind.name)

/-! ## Copies -/

mutual

/-- A copy: containers are copied with what is in them, objects are shared. -/
def copy : Value σ → Value σ
  | .array items => .array (copyList items)
  | .map entries => .map (copyEntries entries)
  | scalar => scalar

def copyList : List (Value σ) → List (Value σ)
  | [] => []
  | x :: xs => copy x :: copyList xs

def copyEntries : List (String × Value σ) → List (String × Value σ)
  | [] => []
  | (key, x) :: es => (key, copy x) :: copyEntries es

end

/-! ## Equality -/

mutual

/-- Doubles are compared as numbers, objects by identity, and maps without regard to order. -/
def same : Value σ → Value σ → Bool
  | .integer a, .integer b => a == b
  | .long a, .long b => a == b
  | .double a, .double b => a.same b
  | .boolean a, .boolean b => a == b
  | .text a, .text b => a == b
  | .array xs, .array ys => sameList xs ys
  | .map es, .map fs => es.length == fs.length && sameEntries es fs
  | .object a, .object b => a.same b
  | _, _ => false

def sameList : List (Value σ) → List (Value σ) → Bool
  | [], [] => true
  | x :: xs, y :: ys => same x y && sameList xs ys
  | _, _ => false

/-- Each key on the left leads to an equal value on the right. -/
def sameEntries : List (String × Value σ) → List (String × Value σ) → Bool
  | [], _ => true
  | (key, x) :: es, fs =>
    (match fs.lookup key with
      | some y => same x y
      | none => false) && sameEntries es fs

end

end Value

end ObjectSpec
