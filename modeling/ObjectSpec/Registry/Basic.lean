import ObjectSpec.Catalog.Check
import ObjectSpec.Registry.Signature

/-!
# Registries

A registry has the types that a spec may name, each with its signatures in the
order of their declaration.
-/

namespace ObjectSpec

structure Registry (σ : Type) where
  types : List (String × List (Signature σ)) := []

namespace Registry

variable {σ : Type}

/-- The signatures of a type. -/
def lookup (r : Registry σ) (name : String) : Option (List (Signature σ)) := r.types.lookup name

def contains (r : Registry σ) (name : String) : Bool := (r.lookup name).isSome

/-- The number of types. -/
def size (r : Registry σ) : Nat := r.types.length

def isEmpty (r : Registry σ) : Bool := r.types.isEmpty

/-- The names of the types, by code point. -/
def names (r : Registry σ) : List String :=
  (Entries.keys r.types).mergeSort fun a b => decide (a ≤ b)

/-- The number of parameters of each signature. -/
def arities (r : Registry σ) (name : String) : Option (List Nat) :=
  (r.lookup name).map fun signatures => signatures.map Signature.arity

/-- Add a signature behind those that the type has. -/
def register (r : Registry σ) (name : String) (s : Signature σ) : Registry σ :=
  ⟨Entries.insert name ((r.lookup name).getD [] ++ [s]) r.types⟩

/-- The type has a signature with these parameters, which is the one that will be chosen. -/
def declares (r : Registry σ) (name : String) (params : List Param) : Bool :=
  ((r.lookup name).getD []).any fun s => decide (s.params = params)

/-- The warning that a signature will never be chosen. -/
def duplicateWarning (name : String) (s : Signature σ) : String :=
  s!"Duplicate signature {name}{s.text} registered; the earlier declaration wins"

/-- Register signatures one after the other, with the warnings. -/
def registerAll (r : Registry σ) :
    List (String × Signature σ) → Registry σ × List String
  | [] => (r, [])
  | (name, s) :: rest =>
    let (full, warnings) := (r.register name s).registerAll rest
    (full, if r.declares name s.params then duplicateWarning name s :: warnings else warnings)

/-- The registry as a catalog. -/
def catalog (r : Registry σ) : Catalog := ⟨r.contains, r.names, r.arities⟩

/-- Put a registry into a place for one. Only the first stays; a later one is given back. -/
def install (place : Option (Registry σ)) (r : Registry σ) :
    Except (Registry σ) (Registry σ) × Option (Registry σ) :=
  match place with
  | none => (.ok r, some r)
  | some first => (.error r, some first)

end Registry

end ObjectSpec
