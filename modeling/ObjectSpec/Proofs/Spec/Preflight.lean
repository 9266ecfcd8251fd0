import ObjectSpec.Proofs.Build.Lookups
import ObjectSpec.Proofs.Catalog.Finding
import ObjectSpec.Registry.Standard
import ObjectSpec.Spec.Basic

/-!
# A check and a build

A check goes through a tree on its own and builds nothing, but it meets the constructs
in the order in which a build looks up their types. So a type that a build does not
find is the first unknown type that the check reports (`instantiate_notFound`).

Nor does a check give a false alarm: where anything is reported, no build can succeed,
whatever the constructors do (`check_of_instantiate`). What they do is all that a
registry has beyond its `interface`, and a check does not see more than that
(`check_eq_of_interface`).
-/

namespace ObjectSpec

/-! ## What a check can see -/

namespace Registry

variable {σ τ : Type}

/-- The types with the parameters of their signatures: all of a registry but what its
constructors do. -/
def interface (r : Registry σ) : List (String × List (List Param)) :=
  r.types.map fun (name, signatures) => (name, signatures.map Signature.params)

theorem lookup_interface (r : Registry σ) (name : String) :
    r.interface.lookup name = (r.lookup name).map fun ss => ss.map Signature.params := by
  rw [interface, lookup]
  induction r.types with
  | nil => rfl
  | cons entry types ih =>
    obtain ⟨key, signatures⟩ := entry
    rw [List.map_cons, List.lookup_cons, List.lookup_cons, ih]
    cases name == key <;> rfl

theorem keys_interface (r : Registry σ) : Entries.keys r.interface = Entries.keys r.types := by
  rw [Entries.keys, Entries.keys, interface, List.map_map]
  rfl

/-- Registries with one interface make one catalog. -/
theorem catalog_eq_of_interface {r : Registry σ} {q : Registry τ}
    (h : r.interface = q.interface) : r.catalog = q.catalog := by
  have hlookup : ∀ name, (r.lookup name).map (fun ss => ss.map Signature.params) =
      (q.lookup name).map fun ss => ss.map Signature.params := fun name => by
    rw [← lookup_interface, ← lookup_interface, h]
  have hcontains : r.contains = q.contains := by
    funext name
    rw [contains, contains, ← Option.isSome_map, hlookup, Option.isSome_map]
  have hnames : r.names = q.names := by
    rw [names, names, ← keys_interface, ← keys_interface, h]
  have harities : r.arities = q.arities := by
    funext name
    have hlengths : ∀ {ρ : Type} (p : Registry ρ), p.arities name =
        ((p.lookup name).map fun ss => ss.map Signature.params).map (List.map List.length) := by
      intro ρ p
      rw [arities, Option.map_map]
      congr 1
      funext ss
      exact (List.map_map ..).symm
    rw [hlengths, hlengths, hlookup]
  rw [catalog, catalog, hcontains, hnames, harities]

end Registry

/-! ## Findings -/

namespace Spec

variable {σ : Type}

/-- What a check says about a construct. -/
def finding (spec : Spec σ) : Call → Option Diagnostic := spec.catalog.finding spec.source

/-- The constructs that an instance of the spec looks up. -/
def lookups (spec : Spec σ) (context : Context) (s : σ) : List Call :=
  spec.root.lookups spec.registry spec.aliases context s

theorem searched_instantiate (spec : Spec σ) (context : Context) (s : σ) :
    Searched spec.registry spec.aliases spec.root.constructs (spec.lookups context s)
      (spec.instantiate context s) := Tree.search spec.root s

theorem diagnostics_check (spec : Spec σ) :
    spec.check.diagnostics = spec.root.constructs.filterMap spec.finding := rfl

theorem contains_catalog {spec : Spec σ} {call : Call} :
    spec.catalog.contains call.typeName = true ↔ Known spec.registry spec.aliases call := Iff.rfl

theorem finding_of_callable {spec : Spec σ} {call : Call}
    (h : Callable spec.registry spec.aliases call) : spec.finding call = none := by
  have hknown := h.known
  obtain ⟨candidates, hlookup, harity⟩ := h
  refine Catalog.finding_of_accepted (contains_catalog.2 hknown) ?_ harity
  show (spec.registry.lookup _).map _ = _
  rw [hlookup]
  rfl

/-! ## The first unknown type -/

/-- The type that an instance does not find is that of the last construct it looked up. No
construct before it is unknown to the check, so that what the check says about this one is the
first it says about an unknown type; and it names the type as it is written, at its place. -/
theorem instantiate_notFound (spec : Spec σ) (context : Context) (s t : σ) (name : String)
    (h : spec.instantiate context s = .error (.notFound name) t) :
    ∃ older call newer d,
      spec.root.constructs = older ++ call :: newer ∧
      spec.lookups context s = older ++ [call] ∧ call.typeName = name ∧
      spec.check.diagnostics =
        older.filterMap spec.finding ++ d :: newer.filterMap spec.finding ∧
      (∀ e ∈ older.filterMap spec.finding, e.topic ≠ .unknownType) ∧
      d.topic = .unknownType ∧ d.message = s!"unknown type '{name}'" ∧
      d.range = some (Catalog.nameRange spec.source call) ∧ spec.check.isValid = false := by
  have hsearch := spec.searched_instantiate context s
  rw [h] at hsearch
  rw [diagnostics_check]
  generalize hconstructs : spec.root.constructs = constructs at hsearch
  generalize spec.lookups context s = looked at hsearch
  cases hsearch with
  | stopped _ hne => exact absurd rfl (hne name)
  | @notFound older call newer _ holder hcall =>
    have hcontains : spec.catalog.contains call.typeName = false :=
      Bool.eq_false_iff.2 fun hc => hcall (contains_catalog.1 hc)
    obtain ⟨d, hfinding, herror, htopic, hmessage, hrange⟩ :=
      Catalog.finding_of_unknown spec.source hcontains
    have hd : spec.finding call = some d := hfinding
    refine ⟨older, call, newer, d, rfl, rfl, rfl, ?_, ?_, htopic, hmessage, hrange, ?_⟩
    · rw [List.filterMap_append, List.filterMap_cons_some hd]
    · intro e he
      obtain ⟨c, hc, hfinding⟩ := List.mem_filterMap.1 he
      rw [Catalog.topic_of_finding (contains_catalog.2 (holder c hc)) hfinding]
      decide
    · have hmem : call ∈ spec.root.constructs := by rw [hconstructs]; simp
      rw [Catalog.Report.isValid, Bool.not_eq_false', Catalog.Report.hasErrors, List.any_eq_true]
      exact ⟨d, List.mem_filterMap.2 ⟨call, hmem, hd⟩, herror⟩

/-- The second item names a type that the standard types do not have, and two more follow. -/
def unknownSecond : Spec Unit where
  owner := .anonymous
  source := "[Long(1), a.B(C()), D()]"
  root := .array [.construct "Long" [.literal (.integer 1)] ⟨1, 8⟩,
    .construct "a.B" [.construct "C" [] ⟨14, 17⟩] ⟨10, 18⟩, .construct "D" [] ⟨20, 23⟩] ⟨0, 24⟩
  registry := .standard
  aliases := [("Long", "java.lang.Long")]

theorem instantiate_notFound_unknownSecond :
    unknownSecond.instantiate {} () = .error (.notFound "a.B") () ∧
    ∃ older call newer d,
      unknownSecond.root.constructs = older ++ call :: newer ∧
      unknownSecond.lookups {} () = older ++ [call] ∧ call.typeName = "a.B" ∧
      unknownSecond.check.diagnostics =
        older.filterMap unknownSecond.finding ++ d :: newer.filterMap unknownSecond.finding ∧
      (∀ e ∈ older.filterMap unknownSecond.finding, e.topic ≠ .unknownType) ∧
      d.topic = .unknownType ∧ d.message = "unknown type 'a.B'" ∧
      d.range = some (Catalog.nameRange unknownSecond.source call) ∧
      unknownSecond.check.isValid = false := by
  have hbuild : unknownSecond.instantiate {} () = .error (.notFound "a.B") () := by rfl
  exact ⟨hbuild, instantiate_notFound unknownSecond {} () () "a.B" hbuild⟩

/-! ## No false alarm -/

/-- The spec with another registry. -/
def withRegistry {τ : Type} (spec : Spec σ) (registry : Registry τ) : Spec τ :=
  ⟨spec.owner, spec.source, spec.root, registry, spec.aliases⟩

/-- A check sees no more of a registry than its interface. -/
theorem check_eq_of_interface {τ : Type} {spec : Spec σ} {registry : Registry τ}
    (h : registry.interface = spec.registry.interface) :
    (spec.withRegistry registry).check = spec.check := by
  have hregistry := Registry.catalog_eq_of_interface h
  simp only [Registry.catalog, Catalog.mk.injEq] at hregistry
  obtain ⟨hcontains, hnames, harities⟩ := hregistry
  rw [check, check, catalog, catalog]
  simp only [withRegistry, hcontains, hnames, harities]

/-- If an instance succeeds, each construct was called, so that there is nothing to say about it. -/
theorem diagnostics_of_instantiate {spec : Spec σ} {context : Context} {s t : σ} {v : Value σ}
    (h : spec.instantiate context s = .ok v t) : spec.check.diagnostics = [] := by
  have hsearch := spec.searched_instantiate context s
  rw [h] at hsearch
  rw [diagnostics_check, List.filterMap_eq_nil_iff]
  generalize spec.root.constructs = constructs, spec.lookups context s = looked at hsearch ⊢
  cases hsearch with
  | ok hcs => exact fun c hc => finding_of_callable (hcs c hc)

/-- What a check reports of a spec is no false alarm: whatever its registered constructors are
replaced with, no instance of it succeeds in any context and state. -/
theorem check_of_instantiate {τ : Type} (spec : Spec σ) (registry : Registry τ)
    (h : registry.interface = spec.registry.interface) (context : Context) (s : τ) :
    (∀ v t, (spec.withRegistry registry).instantiate context s = .ok v t →
      spec.check.diagnostics = []) ∧
    (spec.check.diagnostics ≠ [] →
      ∃ e t, (spec.withRegistry registry).instantiate context s = .error e t) := by
  have hnone : ∀ v t, (spec.withRegistry registry).instantiate context s = .ok v t →
      spec.check.diagnostics = [] := by
    intro v t hv
    rw [← check_eq_of_interface h]
    exact diagnostics_of_instantiate hv
  refine ⟨hnone, fun hsome => ?_⟩
  cases hr : (spec.withRegistry registry).instantiate context s with
  | error e t => exact ⟨e, t, rfl⟩
  | ok v t => exact absurd (hnone v t hr) hsome

/-- The second item has one argument too many. -/
def oneTooMany : Spec Unit where
  owner := .anonymous
  source := "[java.lang.Long(1L), java.lang.Long(1L, 2L)]"
  root := .array [.construct "java.lang.Long" [.literal (.long 1)] ⟨1, 19⟩,
    .construct "java.lang.Long" [.literal (.long 1), .literal (.long 2)] ⟨21, 43⟩] ⟨0, 44⟩
  registry := .standard
  aliases := []

/-- The standard types, each of which counts its values and makes nothing of its argument. -/
def counting : Registry Nat where
  types := (Registry.standard : Registry Unit).types.map fun (name, signatures) =>
    (name, signatures.map fun s => ⟨s.params, .plain fun _ n => .ok (.boolean true) (n + 1)⟩)

theorem check_of_instantiate_oneTooMany :
    counting.interface = oneTooMany.registry.interface ∧ oneTooMany.check.diagnostics ≠ [] ∧
    ∃ e t, (oneTooMany.withRegistry counting).instantiate {} 0 = .error e t := by
  have hinterface : counting.interface = oneTooMany.registry.interface := by rfl
  have hsome : oneTooMany.check.diagnostics ≠ [] := by decide +kernel
  exact ⟨hinterface, hsome, (check_of_instantiate oneTooMany counting hinterface {} 0).2 hsome⟩

end Spec

end ObjectSpec
