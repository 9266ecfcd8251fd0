import Mathlib.Data.List.Forall2
import Mathlib.Data.List.Nodup
import ObjectSpec.Registry.Signature

/-!
# The choice among overloads

The first candidate that takes the arguments as they are is chosen and, without one, the
first that takes them widened (`select_eq_some_iff`). There is one list of parameters at
most that takes given arguments as they are (`takes_exactly_iff`), so candidates with
different parameters may then stand in any order. All that follows for lists of candidates
is put together in `Choice`.

Candidates are of any type. They can carry their places, so that equal ones are told apart.
-/

namespace ObjectSpec.Overload

/-! ## Candidates that take the arguments -/

/-- There is a parameter for each argument, which takes it in the sense of `ok`. -/
def Takes (ok : Param → Kind → Bool) (params : List Param) (kinds : List Kind) : Prop :=
  List.Forall₂ (fun p k => ok p k = true) params kinds

theorem fits_iff {ok : Param → Kind → Bool} {params : List Param} {kinds : List Kind} :
    fits ok params kinds = true ↔ Takes ok params kinds := by
  rw [fits, Takes, List.forall₂_iff_zip, Bool.and_eq_true, beq_iff_eq, List.all_eq_true]
  simp only [Prod.forall]

theorem Takes.length_eq {ok : Param → Kind → Bool} {params : List Param} {kinds : List Kind}
    (h : Takes ok params kinds) : params.length = kinds.length := List.Forall₂.length_eq h

theorem Takes.getElem? {ok : Param → Kind → Bool} {params : List Param} {kinds : List Kind}
    (h : Takes ok params kinds) {i : Nat} {p : Param} {k : Kind} (hp : params[i]? = some p)
    (hk : kinds[i]? = some k) : ok p k = true := by
  have hzip : (params.zip kinds)[i]? = some (p, k) := List.getElem?_zip_eq_some.2 ⟨hp, hk⟩
  exact (List.forall₂_iff_zip.1 h).2 (List.mem_of_getElem? hzip)

/-- What is taken as it is can be taken widened as well. -/
theorem Takes.widened {params : List Param} {kinds : List Kind}
    (h : Takes Param.acceptsExactly params kinds) : Takes Param.accepts params kinds := by
  refine List.Forall₂.imp (fun p k hpk => ?_) h
  unfold Param.accepts
  rw [hpk, Bool.true_or]

theorem acceptsExactly_iff {p : Param} {k : Kind} : p.acceptsExactly k = true ↔ p = .only k := by
  cases p with
  | only wanted => rw [Param.acceptsExactly, beq_iff_eq, Param.only.injEq]
  | any => simp [Param.acceptsExactly]

/-- The parameters that take arguments as they are can be read off the arguments. -/
theorem takes_exactly_iff {params : List Param} {kinds : List Kind} :
    Takes Param.acceptsExactly params kinds ↔ params = kinds.map Param.only := by
  rw [Takes, ← List.forall₂_eq_eq_eq, List.forall₂_map_right_iff]
  simp only [acceptsExactly_iff]

/-! ## The first of several -/

/-- The first member with the property `P`. -/
def First {α : Type} (P : α → Prop) (as : List α) (a : α) : Prop :=
  ∃ older newer, as = older ++ a :: newer ∧ P a ∧ ∀ b ∈ older, ¬ P b

section Candidates
variable {α : Type} {ok : Param → Kind → Bool} {params : α → List Param} {candidates : List α}
  {kinds : List Kind} {c : α}

theorem find?_fits :
    candidates.find? (fun a => fits ok (params a) kinds) = some c ↔
      First (fun a => Takes ok (params a) kinds) candidates c := by
  simp only [List.find?_eq_some_iff_append, Bool.not_eq_true', ← Bool.not_eq_true, fits_iff]
  constructor
  · rintro ⟨hc, older, newer, hcs, holder⟩
    exact ⟨older, newer, hcs, hc, holder⟩
  · rintro ⟨older, newer, hcs, hc, holder⟩
    exact ⟨hc, older, newer, hcs, holder⟩

theorem find?_fits_none :
    candidates.find? (fun a => fits ok (params a) kinds) = none ↔
      ∀ a ∈ candidates, ¬ Takes ok (params a) kinds := by
  simp only [List.find?_eq_none, fits_iff]

theorem select_eq_none_iff :
    select params candidates kinds = none ↔
      ∀ a ∈ candidates, ¬ Takes Param.accepts (params a) kinds := by
  rw [select, Option.or_eq_none_iff, find?_fits_none, find?_fits_none]
  exact ⟨And.right, fun h => ⟨fun a ha hexact => h a ha hexact.widened, h⟩⟩

theorem select_eq_some_iff :
    select params candidates kinds = some c ↔
      First (fun a => Takes Param.acceptsExactly (params a) kinds) candidates c ∨
      (∀ a ∈ candidates, ¬ Takes Param.acceptsExactly (params a) kinds) ∧
        First (fun a => Takes Param.accepts (params a) kinds) candidates c := by
  rw [select, Option.or_eq_some_iff, find?_fits, find?_fits_none, find?_fits]

/-- Whatever is chosen takes the arguments. -/
theorem takes_of_select (h : select params candidates kinds = some c) :
    Takes Param.accepts (params c) kinds := by
  rcases select_eq_some_iff.1 h with ⟨_, _, _, hc, _⟩ | ⟨_, _, _, _, hc, _⟩
  · exact hc.widened
  · exact hc

theorem select_of_exact (h : ∃ a ∈ candidates, Takes Param.acceptsExactly (params a) kinds) :
    ∃ a ∈ candidates, select params candidates kinds = some a ∧
      Takes Param.acceptsExactly (params a) kinds := by
  obtain ⟨a, ha, hexact⟩ := h
  cases hs : select params candidates kinds with
  | none => exact absurd hexact.widened (select_eq_none_iff.1 hs a ha)
  | some b =>
    refine ⟨b, select_mem hs, rfl, ?_⟩
    rcases select_eq_some_iff.1 hs with ⟨_, _, _, hb, _⟩ | ⟨hnone, _⟩
    · exact hb
    · exact absurd hexact (hnone a ha)

/-! ## Other lists of candidates -/

/-- A member that is like an earlier one is never found. -/
theorem find?_skip {p : α → Bool} {older newer : List α} (h : ∃ b ∈ older, p b = p c) :
    (older ++ c :: newer).find? p = (older ++ newer).find? p := by
  rw [List.find?_append, List.find?_append]
  cases hf : older.find? p with
  | some b => rfl
  | none =>
    obtain ⟨b, hb, heq⟩ := h
    have hnot := List.find?_eq_none.1 hf b hb
    rw [heq] at hnot
    rw [List.find?_cons_of_neg hnot]

/-- With parameters that an earlier candidate has, a candidate might as well be left out. -/
theorem select_skip {older newer : List α} (h : ∃ b ∈ older, params b = params c) :
    select params (older ++ c :: newer) kinds = select params (older ++ newer) kinds := by
  obtain ⟨b, hb, heq⟩ := h
  rw [select, select, find?_skip ⟨b, hb, by rw [heq]⟩, find?_skip ⟨b, hb, by rw [heq]⟩]

/-- More candidates at the end change the choice only if one of them takes the arguments as they
are and none did before. -/
theorem select_append (h : select params candidates kinds = some c) (more : List α) :
    select params (candidates ++ more) kinds = some c ∨
      (∀ a ∈ candidates, ¬ Takes Param.acceptsExactly (params a) kinds) ∧
        ∃ d ∈ more, Takes Param.acceptsExactly (params d) kinds ∧
          select params (candidates ++ more) kinds = some d := by
  rw [select] at h
  rw [select, List.find?_append, List.find?_append]
  cases hold : candidates.find? fun a => fits Param.acceptsExactly (params a) kinds with
  | some b =>
    rw [hold] at h
    exact .inl h
  | none =>
    rw [hold, Option.none_or] at h
    rw [Option.none_or, h]
    cases hnew : more.find? fun a => fits Param.acceptsExactly (params a) kinds with
    | none => exact .inl rfl
    | some d =>
      have hd := List.find?_some hnew
      exact .inr ⟨find?_fits_none.1 hold, d, List.mem_of_find?_eq_some hnew, fits_iff.1 hd, rfl⟩

/-- Where parameters differ, their order does not matter for arguments taken as they are. -/
theorem select_perm (hparams : (candidates.map params).Nodup)
    (hexact : ∃ a ∈ candidates, Takes Param.acceptsExactly (params a) kinds) {others : List α}
    (h : others.Perm candidates) :
    select params others kinds = select params candidates kinds := by
  obtain ⟨a, ha, hselect, hta⟩ := select_of_exact hexact
  have hothers : ∃ d ∈ others, Takes Param.acceptsExactly (params d) kinds :=
    ⟨a, h.mem_iff.2 ha, hta⟩
  obtain ⟨b, hb, hselect', htb⟩ := select_of_exact hothers
  have hsame : params b = params a :=
    (takes_exactly_iff.1 htb).trans (takes_exactly_iff.1 hta).symm
  rw [hselect, hselect', List.inj_on_of_nodup_map hparams (h.mem_iff.1 hb) ha hsame]

end Candidates

/-! ## The choice -/

/-- What is chosen among candidates, and among lists of candidates that are like them. -/
structure Choice {α : Type} (params : α → List Param) (candidates : List α)
    (kinds : List Kind) : Prop where
  /-- None is chosen if none with as many parameters takes all arguments. -/
  none_iff : select params candidates kinds = none ↔
    ∀ a ∈ candidates, ¬ Takes Param.accepts (params a) kinds
  /-- The first that takes the arguments as they are or, without one, the first that takes them. -/
  some_iff : ∀ c, select params candidates kinds = some c ↔
    First (fun a => Takes Param.acceptsExactly (params a) kinds) candidates c ∨
    (∀ a ∈ candidates, ¬ Takes Param.acceptsExactly (params a) kinds) ∧
      First (fun a => Takes Param.accepts (params a) kinds) candidates c
  /-- One with the parameters of an earlier one is never chosen: the others decide. -/
  duplicate : ∀ older c newer, candidates = older ++ c :: newer →
    (∃ b ∈ older, params b = params c) →
    select params candidates kinds = select params (older ++ newer) kinds ∧
      ∀ a, select params candidates kinds = some a → a ∈ older ++ newer
  /-- Another choice among more candidates is a new one that takes the arguments as they are. -/
  append : ∀ c more, select params candidates kinds = some c →
    select params (candidates ++ more) kinds = some c ∨
      (∀ a ∈ candidates, ¬ Takes Param.acceptsExactly (params a) kinds) ∧
        ∃ d ∈ more, Takes Param.acceptsExactly (params d) kinds ∧
          select params (candidates ++ more) kinds = some d
  /-- If parameters differ and one takes the arguments as they are, the order does not matter. -/
  perm : (candidates.map params).Nodup →
    (∃ a ∈ candidates, Takes Param.acceptsExactly (params a) kinds) →
    ∀ others, others.Perm candidates →
      select params others kinds = select params candidates kinds

theorem select_choice {α : Type} (params : α → List Param) (candidates : List α)
    (kinds : List Kind) : Choice params candidates kinds where
  none_iff := select_eq_none_iff
  some_iff _ := select_eq_some_iff
  duplicate := by
    rintro older c newer rfl hb
    have hskip : select params (older ++ c :: newer) kinds = select params (older ++ newer) kinds :=
      select_skip hb
    refine ⟨hskip, fun a ha => ?_⟩
    rw [hskip] at ha
    exact select_mem ha
  append _ more h := select_append h more
  perm hparams hexact _ h := select_perm hparams hexact h

/-- The last one takes an integer as it is, the others widen it. -/
example : select id [[.only .double], [.any], [.only .integer]] [.integer] =
    some [.only .integer] := by decide

end ObjectSpec.Overload
