import Mathlib.Data.List.Induction
import Mathlib.Data.List.Nodup
import Mathlib.Data.List.Perm.Subperm
import ObjectSpec.Entries

/-!
# Entries with distinct keys

Entries that are made of pairs have distinct keys: each stands where it first came (`keys_ofList`)
with the value that came last (`lookup_ofList`). Where keys are distinct, a key leads to the value
of its one entry, in whatever order the entries are (`lookup_perm`).
-/

namespace ObjectSpec.Entries

variable {α β : Type}

/-! ## Pairs entered one after the other -/

/-- Each key stays where it first came. -/
theorem keys_ofList (pairs : List (String × α)) :
    keys (ofList pairs) = (keys pairs).eraseDups := by
  induction pairs using List.reverseRecOn with
  | nil => rfl
  | append_singleton pairs pair ih =>
    obtain ⟨key, value⟩ := pair
    have hkeys : keys (pairs ++ [(key, value)]) = keys pairs ++ [key] := by simp [keys]
    rw [ofList_concat, keys_insert, ih, hkeys, List.eraseDups_append]
    by_cases h : key ∈ keys pairs
    · rw [if_pos (List.mem_eraseDups.2 h)]
      simp [List.removeAll, h]
    · rw [if_neg fun hmem => h (List.mem_eraseDups.1 hmem)]
      simp [List.removeAll, h, List.eraseDups_cons]

/-- The last value of a key stays. -/
theorem lookup_ofList (before : List (String × α)) {key : String} (value : α)
    {after : List (String × α)} (h : key ∉ keys after) :
    (ofList (before ++ (key, value) :: after)).lookup key = some value := by
  -- The pairs behind are entered last, and none of them has the key.
  induction after using List.reverseRecOn with
  | nil => rw [ofList_concat, lookup_insert, if_pos rfl]
  | append_singleton after pair ih =>
    obtain ⟨k, v⟩ := pair
    simp only [keys, List.map_append, List.mem_append, not_or] at h
    have hne : key ≠ k := by
      rintro rfl
      exact h.2 List.mem_cons_self
    rw [← List.cons_append, ← List.append_assoc, ofList_concat, lookup_insert, if_neg hne]
    exact ih h.1

example : ofList [("a", 1), ("b", 2), ("a", 3)] = [("a", 3), ("b", 2)] := by decide

theorem nodup_ofList (pairs : List (String × α)) : (keys (ofList pairs)).Nodup := by
  induction pairs using List.reverseRecOn with
  | nil => exact List.nodup_nil
  | append_singleton pairs pair ih =>
    rw [ofList_concat]
    exact nodup_insert ih

/-- Nothing is entered but the pairs. -/
theorem mem_of_mem_ofList {pairs : List (String × α)} {pair : String × α}
    (h : pair ∈ ofList pairs) : pair ∈ pairs := by
  induction pairs using List.reverseRecOn with
  | nil => exact h
  | append_singleton pairs last ih =>
    rw [ofList_concat] at h
    rcases mem_insert h with heq | hmem
    · simp [heq]
    · exact List.mem_append_left _ (ih hmem)

/-! ## Distinct keys -/

section Distinct
variable {es : List (String × α)} {key : String} {v : α}

/-- If keys are distinct, a key leads to the value of each of its entries. -/
theorem lookup_of_mem (hes : (keys es).Nodup) (h : (key, v) ∈ es) : es.lookup key = some v := by
  obtain ⟨w, hw⟩ := exists_lookup (mem_keys h)
  cases List.inj_on_of_nodup_map hes (mem_of_lookup hw) h rfl
  exact hw

/-- Another order of the entries leads to the same values. -/
theorem lookup_perm {fs : List (String × α)} (hes : (keys es).Nodup) (h : es.Perm fs)
    (key : String) : es.lookup key = fs.lookup key := by
  have hfs : (keys fs).Nodup := (h.map Prod.fst).nodup_iff.1 hes
  refine Option.ext fun v => ?_
  constructor
  · intro hv
    exact lookup_of_mem hfs (h.subset (mem_of_lookup hv))
  · intro hv
    exact lookup_of_mem hes (h.symm.subset (mem_of_lookup hv))

/-- Distinct keys that are among as many others are those others. -/
theorem keys_perm {fs : List (String × β)} (hes : (keys es).Nodup)
    (hlength : es.length = fs.length) (hsub : keys es ⊆ keys fs) : (keys es).Perm (keys fs) := by
  apply (List.subperm_of_subset hes hsub).perm_of_length_le
  simp [keys, hlength]

end Distinct

end ObjectSpec.Entries
