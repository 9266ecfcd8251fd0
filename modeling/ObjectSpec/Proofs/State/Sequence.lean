/-!
# Two steps in sequence

Reading tokens and building a tree are both steps that change a state and may fail. What
two steps in sequence come to is told here by what the first of them comes to.
-/

namespace ObjectSpec

section Sequence
variable {ε σ α β : Type} {x : EStateM ε σ α} {f : α → EStateM ε σ β} {s t : σ}

theorem bind_of_ok {a : α} (h : x s = .ok a t) : (x >>= f) s = f a t := by
  show EStateM.bind x f s = f a t
  rw [EStateM.bind, h]

theorem bind_of_error {e : ε} (h : x s = .error e t) : (x >>= f) s = .error e t := by
  show EStateM.bind x f s = .error e t
  rw [EStateM.bind, h]

theorem bind_ok {b : β} :
    (x >>= f) s = .ok b t ↔ ∃ a next, x s = .ok a next ∧ f a next = .ok b t := by
  cases hx : x s with
  | ok a next =>
    rw [bind_of_ok hx]
    refine ⟨fun h => ⟨a, next, rfl, h⟩, ?_⟩
    rintro ⟨_, _, h, h'⟩
    cases h
    exact h'
  | error e next =>
    rw [bind_of_error hx]
    refine ⟨fun h => (nomatch h), ?_⟩
    rintro ⟨_, _, h, -⟩
    cases h

theorem bind_error {e : ε} (h : (x >>= f) s = .error e t) :
    x s = .error e t ∨ ∃ a next, x s = .ok a next ∧ f a next = .error e t := by
  cases hx : x s with
  | ok a next =>
    rw [bind_of_ok hx] at h
    exact .inr ⟨a, next, rfl, h⟩
  | error e' next =>
    rw [bind_of_error hx] at h
    cases h
    exact .inl rfl

theorem pure_ok {a b : α} : (pure a : EStateM ε σ α) s = .ok b t ↔ a = b ∧ s = t := by
  show EStateM.Result.ok a s = _ ↔ _
  simp

theorem bind_congr {y : EStateM ε σ α} {g : α → EStateM ε σ β} (h : x s = y s)
    (hf : ∀ a t, y s = .ok a t → f a t = g a t) : (x >>= f) s = (y >>= g) s := by
  cases hy : y s with
  | error e t => rw [bind_of_error (h.trans hy), bind_of_error hy]
  | ok a t => rw [bind_of_ok (h.trans hy), bind_of_ok hy, hf a t hy]

end Sequence

end ObjectSpec
