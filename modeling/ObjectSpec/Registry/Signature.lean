import ObjectSpec.Context
import ObjectSpec.Value.Arguments

/-!
# Signatures

A type has constructors with different parameters. Of those with the right
number of parameters, the first that takes every argument as it is wins; if
there is none, the first that takes them with widening. An integer widens to a
long or a double, a long to a double, and anything to `any`.
-/

namespace ObjectSpec

/-- What a parameter takes. -/
inductive Param
  | only (kind : Kind)
  | any
deriving DecidableEq

namespace Param

def name : Param → String
  | .only kind => kind.name
  | .any => "Any"

/-- Without widening. -/
def acceptsExactly : Param → Kind → Bool
  | .only wanted, kind => wanted == kind
  | .any, _ => false

/-- As it is, or widened. -/
def accepts (p : Param) (kind : Kind) : Bool :=
  p.acceptsExactly kind ||
    match p, kind with
    | .only .long, .integer => true
    | .only .double, .integer => true
    | .only .double, .long => true
    | .any, _ => true
    | _, _ => false

end Param

/-- Widen a value to what a parameter takes. -/
def Value.widen {σ : Type} (p : Param) (v : Value σ) : Value σ :=
  match p, v with
  | .only .long, .integer n => .long n.toInt64
  | .only .double, .integer n => .double (Double.ofInt n.toInt)
  | .only .double, .long n => .double (Double.ofInt n.toInt)
  | _, v => v

/-- How a value is made. The state of type `σ` is what constructors may change. -/
inductive Constructor (σ : Type)
  | plain (make : Arguments σ → EStateM ConstructorError σ (Value σ))
  | withContext (make : Arguments σ → Context → EStateM ConstructorError σ (Value σ))

structure Signature (σ : Type) where
  params : List Param
  constructor : Constructor σ

namespace Signature

variable {σ : Type}

def arity (s : Signature σ) : Nat := s.params.length

def takesContext (s : Signature σ) : Bool :=
  match s.constructor with
  | .plain _ => false
  | .withContext _ => true

/-- Make a value, with the context for a constructor that asks for it. -/
def invoke (s : Signature σ) (args : Arguments σ) (context : Context) :
    EStateM ConstructorError σ (Value σ) :=
  match s.constructor with
  | .plain make => make args
  | .withContext make => make args context

def text (s : Signature σ) : String :=
  let params := ", ".intercalate (s.params.map Param.name)
  s!"({params})" ++ if s.takesContext then " +context" else ""

end Signature

namespace Overload

/-- Every parameter takes its argument, in the sense of `ok`. -/
def fits (ok : Param → Kind → Bool) (params : List Param) (kinds : List Kind) : Bool :=
  params.length == kinds.length && (params.zip kinds).all fun (p, k) => ok p k

/-- The candidate for arguments of the given kinds. -/
def select {α : Type} (params : α → List Param) (candidates : List α) (kinds : List Kind) :
    Option α :=
  (candidates.find? fun c => fits Param.acceptsExactly (params c) kinds).or
    (candidates.find? fun c => fits Param.accepts (params c) kinds)

theorem select_mem {α : Type} {params : α → List Param} {candidates : List α} {kinds : List Kind}
    {a : α} (h : select params candidates kinds = some a) : a ∈ candidates := by
  rcases Option.or_eq_some_iff.1 h with h | ⟨-, h⟩
  · exact List.mem_of_find?_eq_some h
  · exact List.mem_of_find?_eq_some h

end Overload

end ObjectSpec
