import ObjectSpec.Proofs.Build.Lookups
import ObjectSpec.Proofs.Registry.Registration

/-!
# A registry that grows

A registry extends another one if it finds whatever the other one finds, with the same signatures
(`Registry.Extends`). A build cannot tell the two apart before it looks up a type that the smaller
one does not have: up to there it makes the same calls (`Grows`). So types that are registered in
addition change nothing but a build that did not find a type, and that one goes on from where it
stopped (`build_registerAll`).
-/

namespace ObjectSpec

/-- Every type of the registry is in the other one, with the same signatures. -/
def Registry.Extends {σ : Type} (registry other : Registry σ) : Prop :=
  ∀ name candidates, registry.lookup name = some candidates → other.lookup name = some candidates

/-- Types that are not in a registry can be registered without a change for those that are. -/
theorem Registry.extends_registerAll {σ : Type} {registry : Registry σ}
    {more : List (String × Signature σ)}
    (h : ∀ name ∈ Entries.keys more, registry.contains name = false) :
    registry.Extends (registry.registerAll more).1 := by
  intro name candidates hlookup
  have hnew : name ∉ Entries.keys more := by
    intro hmem
    have := h name hmem
    rw [contains, hlookup] at this
    cases this
  rw [lookup_registerAll, if_neg hnew, hlookup]

/-- What becomes of the result and the calls of a piece of a build when the registry grows: nothing,
or a piece that did not find a type goes on. -/
inductive Grows {σ α : Type} : EStateM.Result BuildError σ α → List (Invocation σ) →
    EStateM.Result BuildError σ α → List (Invocation σ) → Prop
  | same {r calls} : Grows r calls r calls
  | notFound {name final calls r more} : calls <+: more →
      Grows (.error (.notFound name) final) calls r more

namespace Grows

variable {σ α β : Type} {r r' : EStateM.Result BuildError σ α} {calls more : List (Invocation σ)}

theorem isPrefix_calls (h : Grows r calls r' more) : calls <+: more := by
  cases h with
  | same => exact List.prefix_rfl
  | notFound h => exact h

theorem eq_of_found (h : Grows r calls r' more)
    (hfound : ∀ name final, r ≠ .error (.notFound name) final) : r' = r ∧ more = calls := by
  cases h with
  | same => exact ⟨rfl, rfl⟩
  | notFound _ => exact absurd rfl (hfound _ _)

/-- A piece behind the same calls. -/
theorem behind (h : Grows r calls r' more) (older : List (Invocation σ)) :
    Grows r (older ++ calls) r' (older ++ more) := by
  cases h with
  | same => exact .same
  | notFound h => exact .notFound ((List.prefix_append_right_inj older).2 h)

/-- A piece, and if it is built the one that comes after it. -/
theorem bind {x y : EStateM BuildError σ α} {f g : α → EStateM BuildError σ β} {s : σ}
    {next next' : α → σ → List (Invocation σ)} (h : Grows (x s) calls (y s) more)
    (hf : ∀ a t, Grows (f a t) (next a t) (g a t) (next' a t)) :
    Grows ((x >>= f) s) (calls ++ callsAfter (x s) next) ((y >>= g) s)
      (more ++ callsAfter (y s) next') := by
  generalize hx : x s = r, hy : y s = r' at h
  cases h with
  | same =>
    cases r with
    | ok a t =>
      rw [bind_of_ok hx, bind_of_ok hy]
      exact (hf a t).behind calls
    | error e t =>
      rw [bind_of_error hx, bind_of_error hy]
      exact .same
  | notFound h =>
    rw [bind_of_error hx, callsAfter, List.append_nil]
    exact .notFound (h.trans (List.prefix_append _ _))

/-- What a piece is built to does not matter. -/
theorem map {x y : EStateM BuildError σ α} {s : σ} (h : Grows (x s) calls (y s) more)
    (f : α → β) : Grows ((x >>= fun a => pure (f a)) s) calls
      ((y >>= fun a => pure (f a)) s) more := by
  have hpure : ∀ a t, Grows ((pure (f a) : EStateM BuildError σ β) t) []
      ((pure (f a) : EStateM BuildError σ β) t) [] := fun _ _ => .same
  have hbind := h.bind hpure
  rwa [callsAfter_nil, callsAfter_nil, List.append_nil, List.append_nil] at hbind

end Grows

namespace Tree

variable {σ : Type} {registry other : Registry σ} {aliases : Aliases} {context : Context}

/-- A construct, from what becomes of its arguments. -/
theorem grows_construct (h : registry.Extends other) (typeName : String) (args : List Tree)
    (span : Span) (s : σ)
    (hargs : Grows (buildList registry aliases context args s)
      (callsList registry aliases context args s) (buildList other aliases context args s)
      (callsList other aliases context args s)) :
    Grows (build registry aliases context (.construct typeName args span) s)
      (calls registry aliases context (.construct typeName args span) s)
      (build other aliases context (.construct typeName args span) s)
      (calls other aliases context (.construct typeName args span) s) := by
  rw [build, calls]
  cases hlookup : registry.lookup (aliases.resolve typeName) with
  | none => exact .notFound (List.nil_prefix)
  | some candidates =>
    rw [build, calls, h _ _ hlookup]
    exact hargs.bind fun values t => .same

mutual

theorem grows (h : registry.Extends other) : ∀ (t : Tree) (s : σ),
    Grows (t.build registry aliases context s) (t.calls registry aliases context s)
      (t.build other aliases context s) (t.calls other aliases context s)
  | .literal _, _ => .same
  | .construct typeName args span, s =>
    grows_construct h typeName args span s (growsList h args s)
  | .array items _, s => by
    rw [build, calls, build, calls]
    exact (growsList h items s).map _
  | .map entries _, s => by
    rw [build, calls, build, calls]
    exact (growsEntries h entries s).map _
  | .raw _ _ _, _ => .same

theorem growsList (h : registry.Extends other) : ∀ (ts : List Tree) (s : σ),
    Grows (buildList registry aliases context ts s) (callsList registry aliases context ts s)
      (buildList other aliases context ts s) (callsList other aliases context ts s)
  | [], _ => .same
  | t :: ts, s => by
    rw [buildList, callsList, buildList, callsList]
    exact (grows h t s).bind fun v next => (growsList h ts next).map _

theorem growsEntries (h : registry.Extends other) : ∀ (es : List (String × Tree)) (s : σ),
    Grows (buildEntries registry aliases context es s)
      (callsEntries registry aliases context es s) (buildEntries other aliases context es s)
      (callsEntries other aliases context es s)
  | [], _ => .same
  | (_, t) :: es, s => by
    rw [buildEntries, callsEntries, buildEntries, callsEntries]
    exact (grows h t s).bind fun v next => (growsEntries h es next).map _

end

/-- Registries that find the same signatures cannot be told apart by a build. -/
theorem build_eq_of_lookup (h : ∀ name, registry.lookup name = other.lookup name) (t : Tree)
    (s : σ) : t.build registry aliases context s = t.build other aliases context s ∧
      t.calls registry aliases context s = t.calls other aliases context s := by
  have hforth : registry.Extends other := fun name candidates hc => (h name).symm.trans hc
  have hback : other.Extends registry := fun name candidates hc => (h name).trans hc
  refine ⟨build_congr t s fun c _ => h _, ?_⟩
  have hcalls : t.calls registry aliases context s <+: t.calls other aliases context s :=
    (grows hforth t s).isPrefix_calls
  have hmore : t.calls other aliases context s <+: t.calls registry aliases context s :=
    (grows hback t s).isPrefix_calls
  exact hcalls.eq_of_length (Nat.le_antisymm hcalls.length_le hmore.length_le)

/-- Types that are registered in addition leave every build as it was that did not miss a type: its
result, its state and its calls. A build that missed one first makes the calls that it made. -/
theorem build_registerAll (registry : Registry σ) (more : List (String × Signature σ))
    (h : ∀ name ∈ Entries.keys more, registry.contains name = false) (aliases : Aliases)
    (context : Context) (t : Tree) (s : σ) :
    ((∀ name final, t.build registry aliases context s ≠ .error (.notFound name) final) →
      t.build (registry.registerAll more).1 aliases context s =
          t.build registry aliases context s ∧
        t.calls (registry.registerAll more).1 aliases context s =
          t.calls registry aliases context s) ∧
    ∀ name final, t.build registry aliases context s = .error (.notFound name) final →
      t.calls registry aliases context s <+:
        t.calls (registry.registerAll more).1 aliases context s := by
  have hgrows : Grows (t.build registry aliases context s) (t.calls registry aliases context s)
      (t.build (registry.registerAll more).1 aliases context s)
      (t.calls (registry.registerAll more).1 aliases context s) :=
    grows (Registry.extends_registerAll h) t s
  exact ⟨hgrows.eq_of_found, fun _ _ _ => hgrows.isPrefix_calls⟩

end Tree

/-- A signature without parameters whose constructor counts its calls. -/
def tick : Signature Nat := ⟨[], .plain fun _ n => .ok (.integer (.ofNat n)) (n + 1)⟩

/-- The types `T`, and then `U` and `V`; the tree is `[T(), S()]`, where `S` stands for `U`. -/
theorem Tree.build_registerAll_missingSecond :
    let few : Registry Nat := .ofList [("T", tick)]
    let more := [("U", tick), ("V", tick), ("U", tick)]
    let known : Tree := .construct "T" [] ⟨1, 4⟩
    let both : Tree := .array [known, .construct "S" [] ⟨6, 9⟩] ⟨0, 10⟩
    (∀ name ∈ Entries.keys more, few.contains name = false) ∧
    ((∀ name final, known.build few [("S", "U")] {} 0 ≠ .error (.notFound name) final) ∧
      known.build (few.registerAll more).1 [("S", "U")] {} 0 = known.build few [("S", "U")] {} 0 ∧
      known.calls (few.registerAll more).1 [("S", "U")] {} 0 =
        known.calls few [("S", "U")] {} 0) ∧
    both.build few [("S", "U")] {} 0 = .error (.notFound "S") 1 ∧
    both.calls few [("S", "U")] {} 0 <+:
      both.calls (few.registerAll more).1 [("S", "U")] {} 0 := by
  intro few more known both
  have hnew : ∀ name ∈ Entries.keys more, few.contains name = false := by decide
  have hknown : ∀ name final, known.build few [("S", "U")] {} 0 ≠ .error (.notFound name) final :=
    nofun
  have hboth : both.build few [("S", "U")] {} 0 = .error (.notFound "S") 1 := rfl
  exact ⟨hnew, ⟨hknown, (Tree.build_registerAll few more hnew _ {} known 0).1 hknown⟩, hboth,
    (Tree.build_registerAll few more hnew _ {} both 0).2 _ _ hboth⟩

end ObjectSpec
