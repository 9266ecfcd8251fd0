import ObjectSpec.Build

/-!
# The constructors that a build calls

`Tree.calls` lists the constructors that building a tree calls, in order and with what
they are given, as far as the build gets. `Tree.visits` is the way through a tree that
any build takes: each construct is entered, then its arguments are visited, then it is
left. Constructs are left in post-order (`left_visits`).

What a call and a stop of the build are to that way is said by `Proper` and `Stopped`.
Both are put together piece by piece, since what happens in a later piece is what
happens in it alone, from the state that the earlier calls leave (`steps_append`).
-/

namespace ObjectSpec

/-! ## Constructs in order -/

/-- A construct, wherever it stands. -/
structure Site where
  typeName : String
  args : List Tree

inductive Visit
  | enter (site : Site)
  | leave (site : Site)

/-- The constructs that are left, in order. -/
def Visit.left (visits : List Visit) : List Site :=
  visits.filterMap fun v => match v with
    | .enter _ => none
    | .leave site => some site

namespace Tree

mutual

/-- The way through a tree. -/
def visits : Tree → List Visit
  | .literal _ => []
  | .construct typeName args _ =>
    .enter ⟨typeName, args⟩ :: (visitsList args ++ [.leave ⟨typeName, args⟩])
  | .array items _ => visitsList items
  | .map entries _ => visitsEntries entries
  | .raw _ _ _ => []

def visitsList : List Tree → List Visit
  | [] => []
  | t :: ts => visits t ++ visitsList ts

def visitsEntries : List (String × Tree) → List Visit
  | [] => []
  | (_, t) :: es => visits t ++ visitsEntries es

end

mutual

/-- The constructs, the inner before the outer. -/
def postorder : Tree → List Site
  | .literal _ => []
  | .construct typeName args _ => postorderList args ++ [⟨typeName, args⟩]
  | .array items _ => postorderList items
  | .map entries _ => postorderEntries entries
  | .raw _ _ _ => []

def postorderList : List Tree → List Site
  | [] => []
  | t :: ts => postorder t ++ postorderList ts

def postorderEntries : List (String × Tree) → List Site
  | [] => []
  | (_, t) :: es => postorder t ++ postorderEntries es

end

end Tree

namespace Visit

theorem left_append (vs ws : List Visit) : left (vs ++ ws) = left vs ++ left ws :=
  List.filterMap_append

theorem left_enter (site : Site) (vs : List Visit) : left (.enter site :: vs) = left vs := rfl

theorem left_leave (site : Site) (vs : List Visit) : left (.leave site :: vs) = site :: left vs :=
  rfl

end Visit

namespace Tree

mutual

theorem left_visits : ∀ t : Tree, Visit.left t.visits = t.postorder
  | .literal _ => rfl
  | .construct _ args _ => by
    rw [visits, postorder, Visit.left_enter, Visit.left_append, left_visitsList args]
    rfl
  | .array items _ => left_visitsList items
  | .map entries _ => left_visitsEntries entries
  | .raw _ _ _ => rfl

theorem left_visitsList : ∀ ts : List Tree, Visit.left (visitsList ts) = postorderList ts
  | [] => rfl
  | t :: ts => by
    rw [visitsList, postorderList, Visit.left_append, left_visits t, left_visitsList ts]

theorem left_visitsEntries :
    ∀ es : List (String × Tree), Visit.left (visitsEntries es) = postorderEntries es
  | [] => rfl
  | (_, t) :: es => by
    rw [visitsEntries, postorderEntries, Visit.left_append, left_visits t, left_visitsEntries es]

end

end Tree

/-! ## Calls -/

/-- A constructor called for a construct. -/
structure Invocation (σ : Type) where
  site : Site
  signature : Signature σ
  args : Arguments σ
  context : Context

namespace Invocation

variable {σ : Type}

/-- What the call does. -/
def run (call : Invocation σ) : EStateM ConstructorError σ (Value σ) :=
  call.signature.invoke call.args call.context

/-- The state that a call leaves, whether it fails or not. -/
def step (s : σ) (call : Invocation σ) : σ :=
  match call.run s with
  | .ok _ t => t
  | .error _ t => t

/-- The state that calls leave one after the other. -/
def steps (s : σ) (calls : List (Invocation σ)) : σ := calls.foldl step s

theorem steps_append (s : σ) (older newer : List (Invocation σ)) :
    steps s (older ++ newer) = steps (steps s older) newer := List.foldl_append

end Invocation

/-- The calls that come after a piece of a build, if the piece is built. -/
def callsAfter {σ α : Type} (r : EStateM.Result BuildError σ α)
    (next : α → σ → List (Invocation σ)) : List (Invocation σ) :=
  match r with
  | .error _ _ => []
  | .ok a t => next a t

theorem callsAfter_nil {σ α : Type} (r : EStateM.Result BuildError σ α) :
    callsAfter r (fun _ _ => []) = [] := by
  cases r <;> rfl

section Calls
variable {σ : Type} (registry : Registry σ) (aliases : Aliases) (context : Context)

/-- The call for a construct whose arguments have these values, if a signature takes them. -/
def ownCall (site : Site) (candidates : List (Signature σ)) (values : List (Value σ)) :
    List (Invocation σ) :=
  match Overload.select Signature.params candidates (values.map Value.kind) with
  | none => []
  | some signature =>
    [⟨site, signature,
      ⟨aliases.resolve site.typeName, List.zipWith Value.widen signature.params values⟩, context⟩]

namespace Tree

mutual

/-- The calls that building a tree makes in the state `s`, the failing one included. -/
def calls : Tree → σ → List (Invocation σ)
  | .literal _, _ => []
  | .construct typeName args _, s =>
    match registry.lookup (aliases.resolve typeName) with
    | none => []
    | some candidates =>
      callsList args s ++ callsAfter (buildList registry aliases context args s)
        fun values _ => ownCall aliases context ⟨typeName, args⟩ candidates values
  | .array items _, s => callsList items s
  | .map entries _, s => callsEntries entries s
  | .raw _ _ _, _ => []

def callsList : List Tree → σ → List (Invocation σ)
  | [], _ => []
  | t :: ts, s =>
    calls t s ++ callsAfter (build registry aliases context t s) fun _ next => callsList ts next

def callsEntries : List (String × Tree) → σ → List (Invocation σ)
  | [], _ => []
  | (_, t) :: es, s =>
    calls t s ++ callsAfter (build registry aliases context t s) fun _ next => callsEntries es next

end

end Tree

end Calls

end ObjectSpec
