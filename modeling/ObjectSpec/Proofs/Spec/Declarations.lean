import ObjectSpec.Proofs.Build.Growth
import ObjectSpec.Proofs.Entries
import ObjectSpec.Proofs.Spec.Canonical
import ObjectSpec.Proofs.Spec.Preflight

/-!
# The order of declarations

A registry is made by registering signatures, and enumerates its types in an order of its own
(`Registry.MadeOf`). The signatures of one type stay in their order, and that is all that is left of
the order in which signatures were registered: registries with the same ones for each type answer
alike and list the same names. So no text is checked or built differently with them
(`agree_of_declared`).
-/

namespace ObjectSpec

section Declarations
variable {σ : Type}

/-! ## Registries that answer alike -/

namespace Registry

/-- The registry is made by registering the signatures one after the other. In what order it
enumerates its types is left open. -/
def MadeOf (r : Registry σ) (signatures : List (String × Signature σ)) : Prop :=
  r.types.Perm (ofList signatures).types

/-- The registries cannot be told apart. -/
structure Agree (r q : Registry σ) : Prop where
  lookup : ∀ name, r.lookup name = q.lookup name
  contains : ∀ name, r.contains name = q.contains name
  size : r.size = q.size
  arities : ∀ name, r.arities name = q.arities name
  names : r.names = q.names

/-- The names of the registry are those that were registered, each of them once and before the
greater ones. -/
structure Lists (r : Registry σ) (signatures : List (String × Signature σ)) : Prop where
  ascending : r.names.Pairwise (· < ·)
  complete : ∀ name, name ∈ r.names ↔ name ∈ Entries.keys signatures

variable {r q : Registry σ} {signatures : List (String × Signature σ)}

theorem MadeOf.distinct (h : r.MadeOf signatures) : r.Distinct :=
  (h.map Prod.fst).nodup_iff.2 (distinct_ofList signatures)

theorem MadeOf.lookup_eq (h : r.MadeOf signatures) (name : String) :
    r.lookup name = (ofList signatures).lookup name := Entries.lookup_perm h.distinct h name

theorem MadeOf.lists (h : r.MadeOf signatures) : r.Lists signatures where
  ascending := names_ascending h.distinct
  complete name := by rw [mem_names_iff, contains, h.lookup_eq, ← contains, contains_ofList]

/-- All answers of a registry are read off what it finds. -/
theorem agree_of_lookup (hr : r.Distinct) (hq : q.Distinct)
    (h : ∀ name, r.lookup name = q.lookup name) : r.Agree q := by
  have hcontains : ∀ name, r.contains name = q.contains name := fun name => by
    rw [contains, contains, h]
  have hnames : r.names = q.names := names_eq_of_contains hr hq hcontains
  refine ⟨h, hcontains, ?_, fun name => ?_, hnames⟩
  · rw [size_eq_names, size_eq_names, hnames]
  · rw [arities, arities, h]

end Registry

/-! ## Specs that are checked and built alike -/

namespace Spec

structure Agree (spec other : Spec σ) : Prop where
  check : spec.check = other.check
  instantiate : ∀ (context : Context) (s : σ),
    spec.instantiate context s = other.instantiate context s
  calls : ∀ (context : Context) (s : σ), spec.calls context s = other.calls context s

theorem agree_withRegistry {spec : Spec σ} {q : Registry σ} (h : spec.registry.Agree q) :
    spec.Agree (spec.withRegistry q) := by
  have hcatalog : spec.catalog = (spec.withRegistry q).catalog := by
    rw [catalog, catalog]
    simp only [withRegistry, h.contains, h.arities, h.names]
  refine ⟨?_, fun context s => ?_, fun context s => ?_⟩
  · rw [check, check, hcatalog]
    rfl
  · exact (Tree.build_eq_of_lookup h.lookup spec.root s).1
  · exact (Tree.build_eq_of_lookup h.lookup spec.root s).2

end Spec

/-- If the signatures of each type were registered in the same order, the registries agree, and each
lists the names that were registered. With the same settings, a text is made to specs that are
checked and built alike, or it is refused for the same reason. -/
theorem Registry.agree_of_declared (signatures others : List (String × Signature σ))
    (h : ∀ name, declared name signatures = declared name others) (r q : Registry σ)
    (hr : r.MadeOf signatures) (hq : q.MadeOf others) :
    r.Agree q ∧ r.Lists signatures ∧ q.Lists others ∧
    ∀ (settings : Settings) (owner : Urn) (source : String),
      (∃ e, (⟨r, settings⟩ : Repo σ).make owner source = .error e ∧
        (⟨q, settings⟩ : Repo σ).make owner source = .error e) ∨
      ∃ spec other, (⟨r, settings⟩ : Repo σ).make owner source = .ok spec ∧
        (⟨q, settings⟩ : Repo σ).make owner source = .ok other ∧ spec.Agree other := by
  have hagree : r.Agree q := by
    refine agree_of_lookup hr.distinct hq.distinct fun name => ?_
    rw [hr.lookup_eq, hq.lookup_eq, lookup_ofList_congr h]
  refine ⟨hagree, hr.lists, hq.lists, fun settings owner source => ?_⟩
  rw [Repo.make, Repo.make]
  cases Tree.parse settings.maxDepth source with
  | error e => exact .inl ⟨e, rfl, rfl⟩
  | ok root => exact .inr ⟨_, _, rfl, rfl, Spec.agree_withRegistry hagree⟩

end Declarations

/-- The type `B` is registered behind the first signature of `A`, or in front of it; the second
registry enumerates its types from the last to the first. -/
theorem Registry.agree_of_declared_otherOrder :
    let long : Signature Nat := wrapper .long Arguments.long .long
    let behind := [("A", tick), ("B", long), ("A", long)]
    let inFront := [("B", long), ("A", tick), ("A", long)]
    let turned : Registry Nat := ⟨(ofList inFront).types.reverse⟩
    (∀ name, declared name behind = declared name inFront) ∧ (ofList behind).MadeOf behind ∧
    turned.MadeOf inFront ∧ (ofList behind).Agree turned ∧
    ((∃ e, (⟨ofList behind, {}⟩ : Repo Nat).make .anonymous "[B(1), A()]" = .error e ∧
        (⟨turned, {}⟩ : Repo Nat).make .anonymous "[B(1), A()]" = .error e) ∨
      ∃ spec other, (⟨ofList behind, {}⟩ : Repo Nat).make .anonymous "[B(1), A()]" = .ok spec ∧
        (⟨turned, {}⟩ : Repo Nat).make .anonymous "[B(1), A()]" = .ok other ∧
        spec.Agree other) := by
  intro long behind inFront turned
  have hdeclared : ∀ name, declared name behind = declared name inFront := by
    intro name
    by_cases hb : name = "B"
    · subst hb
      rfl
    · have hb' : ¬ "B" = name := fun he => hb he.symm
      simp [declared, behind, inFront, List.filter_cons, hb']
  have hbehind : (ofList behind).MadeOf behind := List.Perm.refl _
  have hturned : turned.MadeOf inFront := List.reverse_perm _
  obtain ⟨hagree, -, -, hmake⟩ := agree_of_declared behind inFront hdeclared _ _ hbehind hturned
  exact ⟨hdeclared, hbehind, hturned, hagree, hmake {} .anonymous _⟩

end ObjectSpec
