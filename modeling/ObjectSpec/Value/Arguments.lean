import ObjectSpec.Value.Basic

/-!
# Arguments of a constructor

The values that a constructor is called with, and typed access to them. An
argument that is missing or of the wrong kind is an error that names its place.
-/

namespace ObjectSpec

/-- What is wrong with an argument. -/
inductive ArgumentFault
  | missing
  | wrongKind (wanted : String) (got : Kind)
  | other (words : String)
deriving DecidableEq

namespace ArgumentFault

def message : ArgumentFault → String
  | .missing => "missing argument"
  | .wrongKind wanted got => s!"expected {wanted}, got {got.name}"
  | .other words => words

end ArgumentFault

/-- Why a constructor made nothing. -/
inductive ConstructorError
  | invalidArgument (typeName : String) (index : Nat) (fault : ArgumentFault)
  | failed (reason : String)
deriving DecidableEq

namespace ConstructorError

def message : ConstructorError → String
  | .invalidArgument typeName index fault =>
    s!"invalid argument {index} for '{typeName}': {fault.message}"
  | .failed reason => reason

end ConstructorError

structure Arguments (σ : Type) where
  /-- The registered name of the type to construct. -/
  typeName : String
  values : List (Value σ)

namespace Arguments

variable {σ : Type}

def size (args : Arguments σ) : Nat := args.values.length

def isEmpty (args : Arguments σ) : Bool := args.values.isEmpty

/-- An argument through a view, `wanted` naming what the view gives. -/
def read {α : Type} (wanted : String) (view : Value σ → Option α) (args : Arguments σ)
    (index : Nat) : Except ConstructorError α :=
  match args.values[index]? with
  | none => .error (.invalidArgument args.typeName index .missing)
  | some v =>
    match view v with
    | none => .error (.invalidArgument args.typeName index (.wrongKind wanted v.kind))
    | some a => .ok a

def integer (args : Arguments σ) (index : Nat) : Except ConstructorError Int32 :=
  args.read "Integer" Value.integer? index

def long (args : Arguments σ) (index : Nat) : Except ConstructorError Int64 :=
  args.read "Long" Value.long? index

def double (args : Arguments σ) (index : Nat) : Except ConstructorError Double :=
  args.read "Double" Value.double? index

def boolean (args : Arguments σ) (index : Nat) : Except ConstructorError Bool :=
  args.read "Boolean" Value.boolean? index

def text (args : Arguments σ) (index : Nat) : Except ConstructorError String :=
  args.read "String" Value.text? index

def array (args : Arguments σ) (index : Nat) : Except ConstructorError (List (Value σ)) :=
  args.read "Array" Value.array? index

def map (args : Arguments σ) (index : Nat) :
    Except ConstructorError (List (String × Value σ)) :=
  args.read "Map" Value.map? index

def object (args : Arguments σ) (index : Nat) : Except ConstructorError (Object σ) :=
  args.read "object" Value.object? index

end Arguments

end ObjectSpec
