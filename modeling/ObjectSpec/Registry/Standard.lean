import ObjectSpec.Registry.Basic

/-!
# The standard types

Wrappers for scalars. Each is constructed from one argument and is that scalar.
-/

namespace ObjectSpec.Registry

variable {σ : Type}

/-- A constructor of one parameter that reads its argument and changes nothing. -/
def wrapper {α : Type} (kind : Kind) (read : Arguments σ → Nat → Except ConstructorError α)
    (wrap : α → Value σ) : Signature σ :=
  { params := [.only kind]
    constructor := .plain fun args s =>
      match read args 0 with
      | .ok a => .ok (wrap a) s
      | .error e => .error e s }

def standardTypes : List (String × Signature σ) :=
  [("java.lang.String", wrapper .text Arguments.text .text),
    ("java.lang.Integer", wrapper .integer Arguments.integer .integer),
    ("java.lang.Long", wrapper .long Arguments.long .long),
    ("java.lang.Double", wrapper .double Arguments.double .double),
    ("java.lang.Boolean", wrapper .boolean Arguments.boolean .boolean)]

/-- The registry of the standard types alone. -/
def standard : Registry σ := (Registry.registerAll {} standardTypes).1

end ObjectSpec.Registry
