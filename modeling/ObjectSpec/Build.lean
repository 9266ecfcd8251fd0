import ObjectSpec.Registry.Basic

/-!
# Building

A tree is built depth first and from left to right, so that constructors run in
the order of the text and each once. The type of a construct is looked up before
its arguments are built; then a signature is selected, the arguments are widened
to it, and its constructor runs. The first failure ends the build.
-/

namespace ObjectSpec

/-- Why a build failed. -/
inductive BuildError
  | notFound (typeName : String)
  | resolution (typeName : String) (kinds : List Kind)
  | construction (e : ConstructorError)
deriving DecidableEq

namespace BuildError

def message : BuildError → String
  | .notFound typeName => s!"type '{typeName}' is not registered"
  | .resolution typeName kinds =>
    s!"no constructor of '{typeName}' accepts ({Kind.names kinds})"
  | .construction e => e.message

/-- The type that the error is about, if it is about one. -/
def typeName? : BuildError → Option String
  | .notFound typeName => some typeName
  | .resolution typeName _ => some typeName
  | .construction (.invalidArgument typeName _ _) => some typeName
  | .construction (.failed _) => none

end BuildError

/-- Other names for types. -/
abbrev Aliases : Type := List (String × String)

namespace Aliases

/-- The name that stands behind a name. It is not looked up again. -/
def resolve (aliases : Aliases) (name : String) : String := (aliases.lookup name).getD name

end Aliases

namespace Value

variable {σ : Type}

def ofLiteral : Literal → Value σ
  | .integer n => .integer n
  | .long n => .long n
  | .double d => .double d
  | .boolean b => .boolean b
  | .string s => .text s

end Value

namespace Tree

variable {σ : Type}

/-- Select a signature for built arguments and run its constructor. -/
def finish (context : Context) (written registered : String) (candidates : List (Signature σ))
    (values : List (Value σ)) : EStateM BuildError σ (Value σ) := fun s =>
  let kinds := values.map Value.kind
  match Overload.select Signature.params candidates kinds with
  | none => .error (.resolution written kinds) s
  | some signature =>
    let args := ⟨registered, List.zipWith Value.widen signature.params values⟩
    match signature.invoke args context s with
    | .ok v t => .ok v t
    | .error e t => .error (.construction e) t

mutual

/-- The value of a tree. -/
def build (registry : Registry σ) (aliases : Aliases) (context : Context) :
    Tree → EStateM BuildError σ (Value σ)
  | .literal l => pure (.ofLiteral l)
  | .construct typeName args _ =>
    match registry.lookup (aliases.resolve typeName) with
    -- Errors name the type as it is written, constructors as it is registered.
    | none => throw (.notFound typeName)
    | some candidates => do
      let values ← buildList registry aliases context args
      finish context typeName (aliases.resolve typeName) candidates values
  | .array items _ => do return .array (← buildList registry aliases context items)
  | .map entries _ => do
    return .map (Entries.ofList (← buildEntries registry aliases context entries))
  | .raw _ content _ => pure (.text content)

def buildList (registry : Registry σ) (aliases : Aliases) (context : Context) :
    List Tree → EStateM BuildError σ (List (Value σ))
  | [] => pure []
  | t :: ts => do
    let v ← build registry aliases context t
    let vs ← buildList registry aliases context ts
    return v :: vs

def buildEntries (registry : Registry σ) (aliases : Aliases) (context : Context) :
    List (String × Tree) → EStateM BuildError σ (List (String × Value σ))
  | [] => pure []
  | (key, t) :: es => do
    let v ← build registry aliases context t
    let vs ← buildEntries registry aliases context es
    return (key, v) :: vs

end

/-- The value of a tree without aliases. -/
def instantiate (registry : Registry σ) (context : Context) (t : Tree) :
    EStateM BuildError σ (Value σ) :=
  t.build registry [] context

end Tree

end ObjectSpec
