import ObjectSpec.Catalog.Check

/-!
# What is found about a construct

A check finds one of two faults in a construct, or nothing (`Catalog.finding_iff`). Whatever is
known of a finding is read off the two.
-/

namespace ObjectSpec.Catalog

/-- The fix for a name that is not known. -/
def fixFor (catalog : Catalog) (source : String) (call : Call) : Option Fix :=
  (catalog.suggest call.typeName).map fun name =>
    ⟨s!"did you mean '{name}'?", name, nameRange source call⟩

/-- What is wrong with a construct. -/
inductive Finds (catalog : Catalog) (source : String) (call : Call) : Diagnostic → Prop
  | unknown : catalog.contains call.typeName = false →
      Finds catalog source call
        { Diagnostic.unknownType call.typeName (some (nameRange source call)) with
          fix := catalog.fixFor source call }
  | arity {accepted} : catalog.contains call.typeName = true →
      catalog.arities call.typeName = some accepted → call.arity ∉ accepted →
      Finds catalog source call
        (.arityMismatch call.typeName call.arity accepted (some (nameRange source call)))

variable {catalog : Catalog} {source : String} {call : Call} {d : Diagnostic}

theorem finding_iff : catalog.finding source call = some d ↔ Finds catalog source call d := by
  constructor
  · intro h
    rw [finding] at h
    split at h
    · next hknown =>
      split at h
      · next accepted harities =>
        split at h
        · cases h
        · next harity =>
          cases h
          exact .arity hknown harities fun hmem => harity (List.contains_iff_mem.2 hmem)
      · cases h
    · next hunknown =>
      cases h
      exact .unknown (Bool.eq_false_iff.2 hunknown)
  · intro h
    cases h with
    | unknown hunknown =>
      rw [finding, hunknown]
      rfl
    | arity hknown harities harity =>
      rw [finding, if_pos hknown, harities]
      exact if_neg fun hmem => harity (List.contains_iff_mem.1 hmem)

namespace Finds

theorem range (h : Finds catalog source call d) : d.range = some (nameRange source call) := by
  cases h <;> rfl

theorem topic_of_known (h : Finds catalog source call d)
    (hknown : catalog.contains call.typeName = true) : d.topic = .arityMismatch := by
  cases h with
  | unknown hunknown =>
    rw [hknown] at hunknown
    cases hunknown
  | arity => rfl

/-- Only an unknown type is an error. -/
theorem isError_iff (h : Finds catalog source call d) :
    d.isError = true ↔ catalog.contains call.typeName = false := by
  cases h with
  | unknown hunknown => exact iff_of_true rfl hunknown
  | arity hknown => exact iff_of_false (fun h => nomatch h) (by simp [hknown])

end Finds

theorem finding_of_unknown (source : String) (h : catalog.contains call.typeName = false) :
    ∃ d, catalog.finding source call = some d ∧ d.isError = true ∧ d.topic = .unknownType ∧
      d.message = s!"unknown type '{call.typeName}'" ∧ d.range = some (nameRange source call) :=
  ⟨_, finding_iff.2 (.unknown h), rfl, rfl, rfl, rfl⟩

theorem topic_of_finding (h : catalog.contains call.typeName = true)
    (hd : catalog.finding source call = some d) : d.topic = .arityMismatch :=
  (finding_iff.1 hd).topic_of_known h

theorem finding_of_accepted (h : catalog.contains call.typeName = true) {accepted : List Nat}
    (ha : catalog.arities call.typeName = some accepted) (hc : call.arity ∈ accepted) :
    catalog.finding source call = none := by
  refine Option.eq_none_iff_forall_ne_some.2 fun d hd => ?_
  cases finding_iff.1 hd with
  | unknown hunknown =>
    rw [h] at hunknown
    cases hunknown
  | arity _ harities harity =>
    obtain rfl := Option.some.inj (ha.symm.trans harities)
    exact harity hc

/-- A fix goes with a type that is not known, and is for its name. -/
theorem suggest_of_fix {f : Fix} (hd : catalog.finding source call = some d)
    (hf : d.fix = some f) : catalog.contains call.typeName = false ∧
      catalog.suggest call.typeName = some f.replacement ∧ f.range = nameRange source call := by
  cases finding_iff.1 hd with
  | unknown hunknown =>
    obtain ⟨name, hname, rfl⟩ := Option.map_eq_some_iff.1 hf
    exact ⟨hunknown, hname, rfl⟩
  | arity => cases hf

end ObjectSpec.Catalog
