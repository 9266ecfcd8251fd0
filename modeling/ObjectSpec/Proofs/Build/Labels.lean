import ObjectSpec.Proofs.Build.Calls
import ObjectSpec.Proofs.State.Sequence
import ObjectSpec.Proofs.Tree.Retyping

/-!
# What a build sees of a tree

A build looks at no span, and at a type name only through the aliases. So a tree with other spans
and other type names is built alike if the names stand for the same types: to the same value or
the same error but for the name in it, with the same state (`build_relabel`), and by calls of the
same constructors with the same arguments (`calls_relabel`). In trees of one shape only the spans
differ (`build_eq_of_shape`, `calls_eq_of_shape`).
-/

namespace ObjectSpec

/-! ## Other names in calls and errors -/

/-- The call, its construct with the type name `f x` wherever it has `x`, and with `g s` wherever
it has the span `s`. -/
def Invocation.relabel {σ : Type} (f : String → String) (g : Span → Span) (call : Invocation σ) :
    Invocation σ :=
  { call with site := ⟨f call.site.typeName, call.site.args.map (Tree.relabel (fun _ => f) g)⟩ }

/-- The call, its construct without spans. -/
def Invocation.shape {σ : Type} : Invocation σ → Invocation σ :=
  relabel (fun x => x) fun _ => {}

namespace BuildError

/-- The error with the name `f x` if the build gives it the name `x`. What a constructor says is
left as it is. -/
def rename (f : String → String) : BuildError → BuildError
  | .notFound typeName => .notFound (f typeName)
  | .resolution typeName kinds => .resolution (f typeName) kinds
  | .construction e => .construction e

end BuildError

section Errors
variable {ε ε' σ α β : Type} (g : ε → ε')

theorem adaptExcept_bind (x : EStateM ε σ α) (f : α → EStateM ε σ β) :
    (x >>= f).adaptExcept g = x.adaptExcept g >>= fun a => (f a).adaptExcept g := by
  funext s
  cases hx : x s with
  | error e t =>
    have hg : x.adaptExcept g s = .error (g e) t := by rw [EStateM.adaptExcept, hx]
    rw [bind_of_error hg, EStateM.adaptExcept, bind_of_error hx]
  | ok a t =>
    have hg : x.adaptExcept g s = .ok a t := by rw [EStateM.adaptExcept, hx]
    rw [bind_of_ok hg, EStateM.adaptExcept, bind_of_ok hx, EStateM.adaptExcept]

/-- With each name in its place, an error is what it was. -/
theorem adaptExcept_rename_self (x : EStateM BuildError σ α) :
    x.adaptExcept (BuildError.rename fun name => name) = x := by
  funext s
  unfold EStateM.adaptExcept
  cases x s with
  | ok a t => rfl
  | error e t => cases e <;> rfl

theorem callsAfter_adaptExcept (g : BuildError → BuildError) (x : EStateM BuildError σ α) (s : σ)
    (next : α → σ → List (Invocation σ)) :
    callsAfter (x.adaptExcept g s) next = callsAfter (x s) next := by
  unfold EStateM.adaptExcept
  cases x s <;> rfl

theorem map_callsAfter (r : EStateM.Result BuildError σ α) (next : α → σ → List (Invocation σ))
    (h : Invocation σ → Invocation σ) :
    (callsAfter r next).map h = callsAfter r fun a s => (next a s).map h := by
  cases r <;> rfl

end Errors

/-! ## Names that stand for the same types -/

/-- With the other aliases `f x` is the type that `x` is. -/
def Aliases.SameTypes (aliases others : Aliases) (f : String → String) : Prop :=
  ∀ name, others.resolve (f name) = aliases.resolve name

namespace Tree

section Relabelling
variable {σ : Type} (registry : Registry σ) {aliases others : Aliases} (context : Context)
  {f : String → String} (g : Span → Span)

theorem finish_rename (f : String → String) (written registered : String)
    (candidates : List (Signature σ)) (values : List (Value σ)) :
    finish context (f written) registered candidates values =
      (finish context written registered candidates values).adaptExcept (BuildError.rename f) := by
  funext s
  unfold finish EStateM.adaptExcept
  dsimp only
  cases Overload.select Signature.params candidates (values.map Value.kind) with
  | none => rfl
  | some signature =>
    dsimp only
    cases signature.invoke ⟨registered, List.zipWith Value.widen signature.params values⟩
        context s <;> rfl

mutual

/-- A type name is looked up through the aliases and leaves no other trace in a build than the name
in its error. -/
theorem build_relabel (hf : aliases.SameTypes others f) : ∀ t : Tree,
    (t.relabel (fun _ => f) g).build registry others context =
      (t.build registry aliases context).adaptExcept (BuildError.rename f)
  | .literal _ => rfl
  | .construct typeName args _ => by
    rw [relabel, build, build, hf typeName]
    cases registry.lookup (aliases.resolve typeName) with
    | none => rfl
    | some candidates =>
      dsimp only
      rw [adaptExcept_bind, buildList_relabel hf args]
      congr
      funext values
      exact finish_rename context f typeName _ candidates values
  | .array items _ => by
    rw [relabel, build, build, adaptExcept_bind, buildList_relabel hf items]
    rfl
  | .map entries _ => by
    rw [relabel, build, build, adaptExcept_bind, buildEntries_relabel hf entries]
    rfl
  | .raw _ _ _ => rfl

theorem buildList_relabel (hf : aliases.SameTypes others f) : ∀ ts : List Tree,
    buildList registry others context (relabelList (fun _ => f) g ts) =
      (buildList registry aliases context ts).adaptExcept (BuildError.rename f)
  | [] => rfl
  | t :: ts => by
    rw [relabelList, buildList, buildList, adaptExcept_bind, build_relabel hf t]
    congr
    funext v
    rw [adaptExcept_bind, buildList_relabel hf ts]
    rfl

theorem buildEntries_relabel (hf : aliases.SameTypes others f) :
    ∀ es : List (String × Tree),
      buildEntries registry others context (relabelEntries (fun _ => f) g es) =
        (buildEntries registry aliases context es).adaptExcept (BuildError.rename f)
  | [] => rfl
  | (_, t) :: es => by
    rw [relabelEntries, buildEntries, buildEntries, adaptExcept_bind, build_relabel hf t]
    congr
    funext v
    rw [adaptExcept_bind, buildEntries_relabel hf es]
    rfl

end

theorem ownCall_relabel (hf : aliases.SameTypes others f) (typeName : String)
    (args : List Tree) (candidates : List (Signature σ)) (values : List (Value σ)) :
    (ownCall aliases context ⟨typeName, args⟩ candidates values).map (Invocation.relabel f g) =
      ownCall others context ⟨f typeName, relabelList (fun _ => f) g args⟩ candidates values := by
  rw [relabelList_eq, ownCall, ownCall, hf typeName]
  cases Overload.select Signature.params candidates (values.map Value.kind) <;> rfl

mutual

/-- The same constructors are called. -/
theorem calls_relabel (hf : aliases.SameTypes others f) : ∀ (t : Tree) (s : σ),
    (t.relabel (fun _ => f) g).calls registry others context s =
      (t.calls registry aliases context s).map (Invocation.relabel f g)
  | .literal _, _ => rfl
  | .construct typeName args _, s => by
    rw [relabel, calls, calls, hf typeName, callsList_relabel hf args,
      buildList_relabel registry context g hf]
    cases registry.lookup (aliases.resolve typeName) with
    | none => rfl
    | some candidates =>
      simp only [List.map_append, map_callsAfter, ownCall_relabel context g hf,
        callsAfter_adaptExcept]
  | .array items _, s => by rw [relabel, calls, calls, callsList_relabel hf items]
  | .map entries _, s => by rw [relabel, calls, calls, callsEntries_relabel hf entries]
  | .raw _ _ _, _ => rfl

theorem callsList_relabel (hf : aliases.SameTypes others f) : ∀ (ts : List Tree) (s : σ),
    callsList registry others context (relabelList (fun _ => f) g ts) s =
      (callsList registry aliases context ts s).map (Invocation.relabel f g)
  | [], _ => rfl
  | t :: ts, s => by
    rw [relabelList, callsList, callsList, calls_relabel hf t, build_relabel registry context g hf,
      callsAfter_adaptExcept, List.map_append, map_callsAfter]
    simp only [callsList_relabel hf ts]

theorem callsEntries_relabel (hf : aliases.SameTypes others f) :
    ∀ (es : List (String × Tree)) (s : σ),
      callsEntries registry others context (relabelEntries (fun _ => f) g es) s =
        (callsEntries registry aliases context es s).map (Invocation.relabel f g)
  | [], _ => rfl
  | (_, t) :: es, s => by
    rw [relabelEntries, callsEntries, callsEntries, calls_relabel hf t,
      build_relabel registry context g hf, callsAfter_adaptExcept, List.map_append, map_callsAfter]
    simp only [callsEntries_relabel hf es]

end

end Relabelling

/-! ## Trees of one shape -/

section Shape
variable {σ : Type} (registry : Registry σ) (aliases : Aliases) (context : Context)

/-- Trees of one shape are built alike. -/
theorem build_eq_of_shape {t u : Tree} (h : t.shape = u.shape) :
    t.build registry aliases context = u.build registry aliases context := by
  have hshape : ∀ v : Tree,
      v.shape.build registry aliases context = v.build registry aliases context := fun v =>
    (build_relabel registry context (fun _ => {}) (fun _ => rfl) v).trans
      (adaptExcept_rename_self _)
  rw [← hshape t, ← hshape u, h]

/-- For trees of one shape the same constructors are called. -/
theorem calls_eq_of_shape {t u : Tree} (h : t.shape = u.shape) (s : σ) :
    (t.calls registry aliases context s).map Invocation.shape =
      (u.calls registry aliases context s).map Invocation.shape := by
  have hshape : ∀ v : Tree, v.shape.calls registry aliases context s =
      (v.calls registry aliases context s).map Invocation.shape := fun v =>
    calls_relabel registry context (fun _ => {}) (fun _ => rfl) v s
  rw [← hshape t, ← hshape u, h]

end Shape

end Tree

end ObjectSpec
