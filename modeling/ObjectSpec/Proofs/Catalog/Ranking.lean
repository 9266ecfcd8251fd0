import Mathlib.Data.List.Basic
import ObjectSpec.Proofs.Catalog.Finding

/-!
# Which name is suggested

A catalog favours, for an unknown name, the names that are similar enough and that no other name
beats. There may be several of one score, and it is the last of them that is suggested
(`Catalog.suggest_eq`). Which names are favoured does not depend on the order of the catalog's
names, so that with another order a check may have other names in its fixes, and nothing else
(`Catalog.Reordered.check_eq_iff`).
-/

namespace ObjectSpec

open Text (similarity)

/-! ## The order of scores -/

namespace Double

theorem atMost_iff {a b : Double} : a.atMost b = true ↔ a.magnitude ≤ b.magnitude :=
  decide_eq_true_iff

theorem atMost_refl (a : Double) : a.atMost a = true := atMost_iff.2 (Nat.le_refl _)

theorem atMost_trans {a b c : Double} (hab : a.atMost b = true) (hbc : b.atMost c = true) :
    a.atMost c = true := atMost_iff.2 (Nat.le_trans (atMost_iff.1 hab) (atMost_iff.1 hbc))

theorem atMost_of_not {a b : Double} (h : ¬ a.atMost b = true) : b.atMost a = true :=
  atMost_iff.2 (Nat.le_of_not_le fun hle => h (atMost_iff.2 hle))

end Double

namespace Catalog

/-! ## The last of the best -/

theorem best_eq_none {cs : List (String × Double)} (h : best cs = none) : cs = [] := by
  cases cs with
  | nil => rfl
  | cons c cs =>
    rw [best] at h
    split at h
    · split at h <;> cases h
    · cases h

/-- The candidates behind the best one have lower scores, and none has a higher one. -/
theorem best_split {score : String → Double} {names : List String} {c : String × Double}
    (h : best (names.map fun k => (k, score k)) = some c) :
    ∃ older k newer, names = older ++ k :: newer ∧ c = (k, score k) ∧
      (∀ other ∈ names, (score other).atMost (score k) = true) ∧
      ∀ other ∈ newer, ¬ (score k).atMost (score other) = true := by
  induction names generalizing c with
  | nil => cases h
  | cons first names ih =>
    rw [List.map_cons, best] at h
    cases hbest : best (names.map fun k => (k, score k)) with
    | none =>
      rw [hbest] at h
      cases h
      obtain rfl := List.map_eq_nil_iff.1 (best_eq_none hbest)
      exact ⟨[], first, [], rfl, rfl, by simp [Double.atMost_refl], by simp⟩
    | some d =>
      obtain ⟨older, k, newer, hnames, rfl, htop, hnewer⟩ := ih hbest
      rw [hbest] at h
      dsimp only at h
      split at h
      · next hfirst =>
        cases h
        refine ⟨first :: older, k, newer, by rw [hnames]; rfl, rfl, ?_, hnewer⟩
        exact List.forall_mem_cons.2 ⟨hfirst, htop⟩
      · next hfirst =>
        cases h
        -- The first one beats the best of the others, so it beats each of them.
        have hbeats : ∀ other ∈ names, ¬ (score first).atMost (score other) = true :=
          fun other hother hle => hfirst (Double.atMost_trans hle (htop other hother))
        refine ⟨[], first, names, rfl, rfl, ?_, hbeats⟩
        exact List.forall_mem_cons.2 ⟨Double.atMost_refl _,
          fun other hother => Double.atMost_of_not (hbeats other hother)⟩

/-- What comes last in a list with a property. -/
theorem getLast?_filter {α : Type} {p : α → Bool} {older newer : List α} {a : α}
    (ha : p a = true) (hnewer : ∀ b ∈ newer, ¬ p b = true) :
    ((older ++ a :: newer).filter p).getLast? = some a := by
  rw [List.filter_append, List.filter_cons_of_pos ha, List.filter_eq_nil_iff.2 hnewer,
    List.getLast?_append, List.getLast?_singleton]
  rfl

theorem best_eq (score : String → Double) (names : List String) :
    (best (names.map fun k => (k, score k))).map Prod.fst =
      (names.filter fun k => names.all fun other => (score other).atMost (score k)).getLast? := by
  cases hbest : best (names.map fun k => (k, score k)) with
  | none =>
    rw [List.map_eq_nil_iff.1 (best_eq_none hbest)]
    rfl
  | some c =>
    obtain ⟨older, k, newer, hsplit, rfl, htop, hnewer⟩ := best_split hbest
    have hk : k ∈ names := by simp [hsplit]
    have hlast : ((older ++ k :: newer).filter fun k =>
        names.all fun other => (score other).atMost (score k)).getLast? = some k :=
      getLast?_filter (List.all_eq_true.2 htop) fun other hother hall =>
        hnewer other hother (List.all_eq_true.1 hall k hk)
    rw [← hsplit] at hlast
    exact hlast.symm

/-! ## Favoured names -/

/-- The known name is similar enough to be suggested, and no other one is more similar. -/
def favours (catalog : Catalog) (name known : String) : Bool :=
  threshold.atMost (similarity name known) &&
    catalog.names.all fun other => (similarity name other).atMost (similarity name known)

variable {catalog : Catalog} {name known : String}

theorem favours_iff : catalog.favours name known = true ↔
    threshold.atMost (similarity name known) = true ∧
      ∀ other ∈ catalog.names, (similarity name other).atMost (similarity name known) = true := by
  rw [favours, Bool.and_eq_true, List.all_eq_true]

/-- A name that is similar enough need only be compared with others that are. -/
theorem favours_iff_of_enough {enough : List String} (henough : enough = catalog.names.filter
      fun k => threshold.atMost (similarity name k)) : catalog.favours name known = true ↔
    (enough.all fun other => (similarity name other).atMost (similarity name known)) = true ∧
      threshold.atMost (similarity name known) = true := by
  rw [favours_iff, List.all_eq_true, and_comm, and_congr_left_iff]
  intro hknown
  constructor
  · exact fun h other hother => h other (List.mem_filter.1 (henough ▸ hother)).1
  · intro h other hother
    by_cases hother' : threshold.atMost (similarity name other) = true
    · exact h other (henough ▸ List.mem_filter.2 ⟨hother, hother'⟩)
    · exact Double.atMost_trans (Double.atMost_of_not hother') hknown

/-- The last favoured name is suggested. -/
theorem suggest_eq (catalog : Catalog) (name : String) :
    catalog.suggest name = (catalog.names.filter (catalog.favours name)).getLast? := by
  have hscored : catalog.suggest name = (best ((catalog.names.filter fun k =>
      threshold.atMost (similarity name k)).map fun k => (k, similarity name k))).map Prod.fst := by
    simp only [suggest, List.filter_map, Function.comp_def]
  rw [hscored, best_eq, List.filter_filter]
  refine congrArg List.getLast? (List.filter_congr fun k _ => Bool.eq_iff_iff.2 ?_)
  rw [Bool.and_eq_true]
  exact (favours_iff_of_enough rfl).symm

theorem favours_of_suggest (h : catalog.suggest name = some known) :
    known ∈ catalog.names ∧ catalog.favours name known = true := by
  rw [suggest_eq] at h
  exact List.mem_filter.1 (List.mem_of_getLast? h)

end Catalog

/-! ## Another order of the names -/

/-- All of a diagnostic but the name that it suggests. -/
def Diagnostic.unnamed (d : Diagnostic) : Diagnostic :=
  { d with fix := d.fix.map fun f => ⟨"", "", f.range⟩ }

namespace Catalog

/-- All of a report but the names that it suggests. -/
def Report.unnamed (r : Report) : Report :=
  { r with diagnostics := r.diagnostics.map Diagnostic.unnamed }

/-- The catalogs know the same types and list the same names, each in an order of its own. -/
structure Reordered (catalog other : Catalog) : Prop where
  contains : catalog.contains = other.contains
  arities : catalog.arities = other.arities
  names : catalog.names.Perm other.names

namespace Reordered

variable {catalog other : Catalog} {source : String} {call : Call}

theorem favours_eq (h : catalog.Reordered other) : catalog.favours = other.favours := by
  funext name known
  refine Bool.eq_iff_iff.2 ?_
  simp only [favours_iff, h.names.mem_iff]

theorem isSome_suggest (h : catalog.Reordered other) (name : String) :
    (catalog.suggest name).isSome = (other.suggest name).isSome := by
  have hperm : (catalog.names.filter (catalog.favours name)).Perm
      (other.names.filter (other.favours name)) := by
    rw [h.favours_eq]
    exact h.names.filter _
  rw [Bool.eq_iff_iff, suggest_eq, suggest_eq, List.getLast?_isSome, List.getLast?_isSome,
    ← List.length_pos_iff, ← List.length_pos_iff, hperm.length_eq]

theorem contains_eq (h : catalog.Reordered other) {name : String} {known : Bool}
    (hknown : catalog.contains name = known) : other.contains name = known := by
  rw [← h.contains, hknown]

theorem finding_of_known (h : catalog.Reordered other) (source : String)
    (hknown : catalog.contains call.typeName = true) :
    catalog.finding source call = other.finding source call := by
  rw [finding, finding, if_pos hknown, if_pos (h.contains_eq hknown), h.arities]

theorem unnamed_finding (h : catalog.Reordered other) (source : String) (call : Call) :
    (catalog.finding source call).map Diagnostic.unnamed =
      (other.finding source call).map Diagnostic.unnamed := by
  cases hknown : catalog.contains call.typeName with
  | true => rw [h.finding_of_known source hknown]
  | false =>
    rw [finding_iff.2 (.unknown hknown), finding_iff.2 (.unknown (h.contains_eq hknown))]
    have hfix : (catalog.fixFor source call).map (fun f => Fix.mk "" "" f.range) =
        (other.fixFor source call).map fun f => Fix.mk "" "" f.range := by
      have hsome := h.isSome_suggest call.typeName
      rw [fixFor, fixFor]
      cases hs : catalog.suggest call.typeName <;> cases ho : other.suggest call.typeName <;>
        simp_all
    simp only [Option.map_some, Diagnostic.unnamed, hfix]

/-- In another order, a check differs in the suggested names alone. -/
theorem unnamed_check (h : catalog.Reordered other) (source : String) (tree : Tree) :
    (catalog.check source tree).unnamed = (other.check source tree).unnamed := by
  have hdiagnostics : (tree.constructs.filterMap (catalog.finding source)).map Diagnostic.unnamed =
      (tree.constructs.filterMap (other.finding source)).map Diagnostic.unnamed := by
    rw [List.map_filterMap, List.map_filterMap]
    exact List.filterMap_congr fun call _ => h.unnamed_finding source call
  simp only [check, Report.unnamed, hdiagnostics, h.contains]

theorem finding_eq_iff (h : catalog.Reordered other)
    (hunknown : catalog.contains call.typeName = false) :
    catalog.finding source call = other.finding source call ↔
      catalog.suggest call.typeName = other.suggest call.typeName := by
  rw [finding_iff.2 (.unknown hunknown), finding_iff.2 (.unknown (h.contains_eq hunknown))]
  constructor
  · intro heq
    have hfix : catalog.fixFor source call = other.fixFor source call :=
      congrArg Diagnostic.fix (Option.some.inj heq)
    exact Option.map_injective (fun a b hab => congrArg Fix.replacement hab) hfix
  · intro heq
    rw [fixFor, fixFor, heq]

end Reordered

/-- Functions that give nothing for the same elements give the same for each if they do for all. -/
theorem filterMap_inj {α β : Type} {f g : α → Option β} {as : List α}
    (hsome : ∀ a ∈ as, (f a).isSome = (g a).isSome) :
    as.filterMap f = as.filterMap g ↔ ∀ a ∈ as, f a = g a := by
  refine ⟨fun h => ?_, List.filterMap_congr⟩
  induction as with
  | nil => simp
  | cons a as ih =>
    obtain ⟨ha, has⟩ := List.forall_mem_cons.1 hsome
    cases hf : f a with
    | none =>
      rw [hf] at ha
      have hg : g a = none :=
        Option.isNone_iff_eq_none.1 (Option.isSome_eq_false_iff.1 ha.symm)
      rw [List.filterMap_cons_none hf, List.filterMap_cons_none hg] at h
      exact List.forall_mem_cons.2 ⟨hf.trans hg.symm, ih has h⟩
    | some b =>
      rw [hf] at ha
      obtain ⟨c, hg⟩ := Option.isSome_iff_exists.1 ha.symm
      rw [List.filterMap_cons_some hf, List.filterMap_cons_some hg] at h
      obtain ⟨rfl, hrest⟩ := List.cons.inj h
      exact List.forall_mem_cons.2 ⟨hf.trans hg.symm, ih has hrest⟩

/-- In another order, a check is the same just if the same name is suggested for each unknown
one. -/
theorem Reordered.check_eq_iff {catalog other : Catalog} (h : catalog.Reordered other)
    (source : String) (tree : Tree) :
    catalog.check source tree = other.check source tree ↔ ∀ call ∈ tree.constructs,
      catalog.contains call.typeName = false →
        catalog.suggest call.typeName = other.suggest call.typeName := by
  have hsome : ∀ call ∈ tree.constructs, (catalog.finding source call).isSome =
      (other.finding source call).isSome := fun call _ => by
    rw [← Option.isSome_map, h.unnamed_finding, Option.isSome_map]
  have hcheck : catalog.check source tree = other.check source tree ↔
      tree.constructs.filterMap (catalog.finding source) =
        tree.constructs.filterMap (other.finding source) := by
    rw [check, check, h.contains, Report.mk.injEq]
    simp only [and_true]
  rw [hcheck, filterMap_inj hsome]
  refine forall₂_congr fun call _ => ?_
  cases hknown : catalog.contains call.typeName with
  | true => simp [h.finding_of_known source hknown]
  | false => simp [h.finding_eq_iff hknown]

end Catalog

end ObjectSpec
