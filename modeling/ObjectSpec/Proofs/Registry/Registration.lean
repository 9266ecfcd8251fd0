import ObjectSpec.Registry.Basic

/-!
# What registered signatures make

A registry is told by the signatures that were registered for each of its types: a type has those
that it had before and, behind them, those that were registered for it, in their order
(`lookup_registerAll`). In what order the types came does not show, not even in the names, which
ascend (`names_ascending`).
-/

namespace ObjectSpec.Registry

variable {σ : Type}

/-- The signatures among the registered ones that are for a type, in their order. -/
def declared (name : String) (signatures : List (String × Signature σ)) : List (Signature σ) :=
  (signatures.filter fun entry => entry.1 = name).map Prod.snd

/-- The registry of the registered signatures alone. -/
def ofList (signatures : List (String × Signature σ)) : Registry σ :=
  (registerAll {} signatures).1

/-- No type is entered twice. -/
def Distinct (r : Registry σ) : Prop := (Entries.keys r.types).Nodup

/-! ## Signatures of a type -/

theorem lookup_register (r : Registry σ) (key name : String) (s : Signature σ) :
    (r.register key s).lookup name =
      if name = key then some ((r.lookup key).getD [] ++ [s]) else r.lookup name :=
  Entries.lookup_insert ..

theorem registerAll_cons (r : Registry σ) (key : String) (s : Signature σ)
    (rest : List (String × Signature σ)) :
    (r.registerAll ((key, s) :: rest)).1 = ((r.register key s).registerAll rest).1 := rfl

theorem declared_eq_nil_iff {name : String} {signatures : List (String × Signature σ)} :
    declared name signatures = [] ↔ name ∉ Entries.keys signatures := by
  rw [declared, List.map_eq_nil_iff, List.filter_eq_nil_iff]
  constructor
  · intro h hname
    obtain ⟨s, hs⟩ := Entries.exists_lookup hname
    exact h _ (Entries.mem_of_lookup hs) (decide_eq_true rfl)
  · rintro h ⟨key, s⟩ hmem hkey
    cases of_decide_eq_true hkey
    exact h (Entries.mem_keys hmem)

/-- A type has the signatures that it had and those that are registered for it. -/
theorem lookup_registerAll (r : Registry σ) (signatures : List (String × Signature σ))
    (name : String) : (r.registerAll signatures).1.lookup name =
      if name ∈ Entries.keys signatures then
        some ((r.lookup name).getD [] ++ declared name signatures)
      else r.lookup name := by
  induction signatures generalizing r with
  | nil => rfl
  | cons entry rest ih =>
    obtain ⟨key, s⟩ := entry
    have hkeys : name ∈ Entries.keys ((key, s) :: rest) ↔ name = key ∨ name ∈ Entries.keys rest :=
      List.mem_cons
    rw [registerAll_cons, ih, lookup_register]
    by_cases hname : name = key
    · subst hname
      have hdeclared : declared name ((name, s) :: rest) = s :: declared name rest := by
        simp [declared]
      rw [if_pos rfl, if_pos (hkeys.2 (.inl rfl)), hdeclared]
      by_cases hrest : name ∈ Entries.keys rest
      · simp [hrest]
      · rw [if_neg hrest, declared_eq_nil_iff.2 hrest]
    · have hdeclared : declared name ((key, s) :: rest) = declared name rest := by
        simp [declared, Ne.symm hname]
      rw [if_neg hname, hdeclared]
      simp only [hkeys, hname, false_or]

theorem lookup_ofList (signatures : List (String × Signature σ)) (name : String) :
    (ofList signatures).lookup name =
      if name ∈ Entries.keys signatures then some (declared name signatures) else none :=
  lookup_registerAll {} signatures name

/-- What is found for a type was registered for it. -/
theorem mem_of_lookup_ofList {signatures : List (String × Signature σ)} {name : String}
    {candidates : List (Signature σ)} (h : (ofList signatures).lookup name = some candidates)
    {s : Signature σ} (hs : s ∈ candidates) : (name, s) ∈ signatures := by
  rw [lookup_ofList] at h
  split at h
  · cases h
    obtain ⟨⟨key, _⟩, hentry, rfl⟩ := List.mem_map.1 hs
    obtain ⟨hmem, hkey⟩ := List.mem_filter.1 hentry
    cases of_decide_eq_true hkey
    exact hmem
  · cases h

theorem contains_ofList {signatures : List (String × Signature σ)} {name : String} :
    (ofList signatures).contains name = true ↔ name ∈ Entries.keys signatures := by
  rw [contains, lookup_ofList]
  split <;> simp [*]

/-- The signatures for each type are all that matters for a lookup. -/
theorem lookup_ofList_congr {signatures others : List (String × Signature σ)}
    (h : ∀ name, declared name signatures = declared name others) (name : String) :
    (ofList signatures).lookup name = (ofList others).lookup name := by
  have hkeys : name ∈ Entries.keys signatures ↔ name ∈ Entries.keys others := by
    rw [← Decidable.not_iff_not, ← declared_eq_nil_iff, ← declared_eq_nil_iff, h]
  rw [lookup_ofList, lookup_ofList, h]
  simp only [hkeys]

/-! ## Names -/

theorem distinct_register {r : Registry σ} (h : r.Distinct) (key : String) (s : Signature σ) :
    (r.register key s).Distinct := Entries.nodup_insert h

theorem distinct_registerAll {r : Registry σ} (h : r.Distinct)
    (signatures : List (String × Signature σ)) : (r.registerAll signatures).1.Distinct := by
  induction signatures generalizing r with
  | nil => exact h
  | cons entry rest ih => exact ih (distinct_register h entry.1 entry.2)

theorem distinct_ofList (signatures : List (String × Signature σ)) :
    (ofList signatures).Distinct := distinct_registerAll (r := {}) List.nodup_nil signatures

theorem mem_names_iff {r : Registry σ} {name : String} :
    name ∈ r.names ↔ r.contains name = true := by
  rw [names, List.mem_mergeSort, Entries.mem_keys_iff]
  rfl

theorem names_perm (r : Registry σ) : r.names.Perm (Entries.keys r.types) :=
  List.mergeSort_perm ..

/-- Each name comes once, and those behind it are greater. -/
theorem names_ascending {r : Registry σ} (h : r.Distinct) : r.names.Pairwise (· < ·) := by
  have hsorted : r.names.Pairwise fun a b => decide (a ≤ b) = true := by
    apply List.pairwise_mergeSort
    · intro a b c hab hbc
      exact decide_eq_true (String.le_trans (of_decide_eq_true hab) (of_decide_eq_true hbc))
    · intro a b
      simpa using String.le_total a b
  have hnodup : r.names.Pairwise (· ≠ ·) := r.names_perm.nodup_iff.2 h
  refine (hsorted.and hnodup).imp ?_
  rintro a b ⟨hle, hne⟩
  exact String.not_le.1 fun hba => hne (String.le_antisymm (of_decide_eq_true hle) hba)

/-- Registries that contain the same types name them alike. -/
theorem names_eq_of_contains {r q : Registry σ} (hr : r.Distinct) (hq : q.Distinct)
    (h : ∀ name, r.contains name = q.contains name) : r.names = q.names := by
  have hr' := names_ascending hr
  have hq' := names_ascending hq
  have hperm : r.names.Perm q.names := by
    refine (List.perm_ext_iff_of_nodup ?_ ?_).2 fun name => ?_
    · exact hr'.imp fun hlt => String.ne_of_lt hlt
    · exact hq'.imp fun hlt => String.ne_of_lt hlt
    · rw [mem_names_iff, mem_names_iff, h]
  exact hperm.eq_of_pairwise (fun a b _ _ hab hba => absurd hba (String.lt_asymm hab)) hr' hq'

theorem size_eq_names (r : Registry σ) : r.size = r.names.length := by
  rw [r.names_perm.length_eq, size, Entries.keys, List.length_map]

end ObjectSpec.Registry
