/-!
# Entries

Lists of keys with values, in the order in which the keys first came. A key
that comes again takes the new value and stays in its place.
-/

namespace ObjectSpec.Entries

variable {α β : Type}

def keys (es : List (String × α)) : List String := es.map Prod.fst

/-- Give a key a value. -/
def insert (key : String) (value : α) : List (String × α) → List (String × α)
  | [] => [(key, value)]
  | (k, v) :: es => if k = key then (k, value) :: es else (k, v) :: insert key value es

/-- Enter the pairs one after the other. -/
def ofList (pairs : List (String × α)) : List (String × α) :=
  pairs.foldl (fun es (key, value) => insert key value es) []

theorem lookup_insert (key k : String) (value : α) (es : List (String × α)) :
    (insert key value es).lookup k = if k = key then some value else es.lookup k := by
  induction es with
  | nil =>
    by_cases h : k = key
    · simp [insert, h]
    · simp [insert, List.lookup_cons, h, beq_eq_false_iff_ne.2 h]
  | cons e es ih =>
    obtain ⟨k', v⟩ := e
    by_cases h' : k' = key
    · subst h'
      by_cases h : k = k'
      · simp [insert, h]
      · simp [insert, List.lookup_cons, h, beq_eq_false_iff_ne.2 h]
    · by_cases h : k = k'
      · subst h
        simp [insert, h']
      · simp [insert, List.lookup_cons, h', beq_eq_false_iff_ne.2 h, ih]

theorem keys_insert (key : String) (value : α) (es : List (String × α)) :
    keys (insert key value es) = if key ∈ keys es then keys es else keys es ++ [key] := by
  induction es with
  | nil => simp [insert, keys]
  | cons e es ih =>
    obtain ⟨k, v⟩ := e
    by_cases h : k = key
    · simp [insert, keys, h]
    · have h' : ¬ key = k := fun e => h e.symm
      simp only [keys] at ih ⊢
      by_cases hm : key ∈ List.map Prod.fst es
      · simp only [hm, if_true] at ih
        simp [insert, h, ih, hm]
      · simp only [hm, if_false] at ih
        simp [insert, h, h', ih, hm]

theorem nodup_insert {key : String} {value : α} {es : List (String × α)} (h : (keys es).Nodup) :
    (keys (insert key value es)).Nodup := by
  rw [keys_insert]
  split
  · exact h
  · next hkey =>
    refine List.nodup_append.2 ⟨h, List.pairwise_singleton _ key, ?_⟩
    rintro name hname _ hmem rfl
    cases List.mem_singleton.1 hmem
    exact hkey hname

theorem mem_insert {key : String} {value : α} {e : String × α} {es : List (String × α)}
    (h : e ∈ insert key value es) : e = (key, value) ∨ e ∈ es := by
  induction es with
  | nil => exact .inl (List.mem_singleton.1 h)
  | cons first es ih =>
    obtain ⟨k, v⟩ := first
    rw [insert] at h
    split at h
    · next hkey =>
      subst hkey
      exact (List.mem_cons.1 h).imp id (List.mem_cons_of_mem _)
    · rcases List.mem_cons.1 h with rfl | hmem
      · exact .inr List.mem_cons_self
      · exact (ih hmem).imp id (List.mem_cons_of_mem _)

theorem mem_keys_iff {key : String} {es : List (String × α)} :
    key ∈ keys es ↔ (es.lookup key).isSome = true := by
  simp [keys, List.lookup_isSome_iff]

theorem mem_keys {key : String} {v : α} {es : List (String × α)} (h : (key, v) ∈ es) :
    key ∈ keys es := List.mem_map_of_mem h

theorem exists_lookup {key : String} {es : List (String × α)} (h : key ∈ keys es) :
    ∃ v, es.lookup key = some v := Option.isSome_iff_exists.1 (mem_keys_iff.1 h)

theorem mem_of_lookup {key : String} {v : α} {es : List (String × α)}
    (h : es.lookup key = some v) : (key, v) ∈ es := by
  obtain ⟨front, behind, rfl, -⟩ := List.lookup_eq_some_iff.1 h
  simp

theorem ofList_concat (pairs : List (String × α)) (key : String) (value : α) :
    ofList (pairs ++ [(key, value)]) = insert key value (ofList pairs) := by
  rw [ofList, List.foldl_append]
  rfl

end ObjectSpec.Entries
