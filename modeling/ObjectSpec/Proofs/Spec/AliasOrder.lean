import ObjectSpec.Proofs.Catalog.Ranking
import ObjectSpec.Proofs.Entries
import ObjectSpec.Proofs.Spec.Suggestion

/-!
# The order of aliases

Aliases are a set of pairs, and the order in which they are enumerated should not matter. A check
suggests the last of the favoured names, though, and the aliases come last in the catalog in the
order in which they are enumerated. So of several favoured aliases it is the order that decides
which of them is suggested (`Spec.Undecided`). Nothing else in a report depends on the order
(`Spec.check_withAliases`).
-/

namespace ObjectSpec.Spec

section Aliases
variable {σ : Type}

def withAliases (spec : Spec σ) (aliases : Aliases) : Spec σ := { spec with aliases }

/-- More than one alias is favoured for the name. -/
def Undecided (spec : Spec σ) (name : String) : Prop :=
  ∃ a ∈ Entries.keys spec.aliases, ∃ b ∈ Entries.keys spec.aliases, a ≠ b ∧
    spec.catalog.favours name a = true ∧ spec.catalog.favours name b = true

variable {spec : Spec σ} {others : Aliases}

theorem resolve_perm {aliases : Aliases} (hkeys : (Entries.keys aliases).Nodup)
    (h : others.Perm aliases) : others.resolve = aliases.resolve := by
  funext name
  rw [Aliases.resolve, Aliases.resolve, Entries.lookup_perm hkeys h.symm]

theorem reordered_withAliases (hkeys : (Entries.keys spec.aliases).Nodup)
    (h : others.Perm spec.aliases) :
    (spec.withAliases others).catalog.Reordered spec.catalog where
  contains := by
    simp only [catalog, withAliases, resolve_perm hkeys h]
  arities := by
    simp only [catalog, withAliases, resolve_perm hkeys h]
  names := (h.map Prod.fst).append_left spec.registry.names

/-- Each favoured alias is suggested if it comes last. -/
theorem exists_suggest (hkeys : (Entries.keys spec.aliases).Nodup) {name known : String}
    (hknown : known ∈ Entries.keys spec.aliases) (hfavours : spec.catalog.favours name known = true) :
    ∃ others, others.Perm spec.aliases ∧
      (spec.withAliases others).catalog.suggest name = some known := by
  obtain ⟨target, htarget⟩ := Entries.exists_lookup hknown
  obtain ⟨older, newer, hsplit⟩ := List.append_of_mem (Entries.mem_of_lookup htarget)
  have hperm : (older ++ newer ++ [(known, target)]).Perm spec.aliases := by
    rw [hsplit, List.append_assoc]
    exact (List.perm_append_singleton _ newer).append_left older
  have hnames : (spec.withAliases (older ++ newer ++ [(known, target)])).catalog.names =
      spec.registry.names ++ Entries.keys (older ++ newer) ++ known :: [] := by
    show spec.registry.names ++ Entries.keys (older ++ newer ++ [(known, target)]) = _
    rw [Entries.keys, List.map_append, List.append_assoc]
    rfl
  rw [← (reordered_withAliases hkeys hperm).favours_eq] at hfavours
  refine ⟨_, hperm, ?_⟩
  rw [Catalog.suggest_eq, hnames]
  exact Catalog.getLast?_filter hfavours (List.forall_mem_nil _)

/-- If one alias at most is favoured, the order does not matter. -/
theorem suggest_withAliases (hkeys : (Entries.keys spec.aliases).Nodup)
    (h : others.Perm spec.aliases) {name : String} (hdecided : ¬ spec.Undecided name) :
    (spec.withAliases others).catalog.suggest name = spec.catalog.suggest name := by
  have hperm : (Entries.keys others).Perm (Entries.keys spec.aliases) := h.map Prod.fst
  have hone : ∀ a b : String, a ∈ (Entries.keys others).filter (spec.catalog.favours name) →
      b ∈ (Entries.keys spec.aliases).filter (spec.catalog.favours name) → a = b := by
    intro a b ha hb
    obtain ⟨hamem, hafav⟩ := List.mem_filter.1 ha
    obtain ⟨hbmem, hbfav⟩ := List.mem_filter.1 hb
    by_contra hne
    exact hdecided ⟨a, hperm.subset hamem, b, hbmem, hne, hafav, hbfav⟩
  -- Equal names are in order, whatever order that is.
  have htrivial : ∀ names : List String, names.Pairwise fun _ _ => True :=
    fun names => List.pairwise_of_forall fun _ _ => trivial
  have hfavoured : (Entries.keys others).filter (spec.catalog.favours name) =
      (Entries.keys spec.aliases).filter (spec.catalog.favours name) :=
    List.Perm.eq_of_pairwise (fun a b ha hb _ _ => hone a b ha hb) (htrivial _) (htrivial _)
      (hperm.filter _)
  rw [Catalog.suggest_eq, Catalog.suggest_eq, (reordered_withAliases hkeys h).favours_eq]
  show ((spec.registry.names ++ Entries.keys others).filter _).getLast? =
    ((spec.registry.names ++ Entries.keys spec.aliases).filter _).getLast?
  rw [List.filter_append, List.filter_append, hfavoured]

/-- Another order of the aliases changes nothing in a report but suggested names, and no order
changes these just if there is no unknown name for which more than one alias is favoured. -/
theorem check_withAliases (spec : Spec σ) (hkeys : (Entries.keys spec.aliases).Nodup) :
    (∀ others, others.Perm spec.aliases →
      (spec.withAliases others).check.unnamed = spec.check.unnamed) ∧
    ((∀ others, others.Perm spec.aliases → (spec.withAliases others).check = spec.check) ↔
      ∀ call ∈ spec.root.constructs, spec.catalog.contains call.typeName = false →
        ¬ spec.Undecided call.typeName) := by
  have hcheck : ∀ others, others.Perm spec.aliases →
      ((spec.withAliases others).check = spec.check ↔ ∀ call ∈ spec.root.constructs,
        spec.catalog.contains call.typeName = false →
          (spec.withAliases others).catalog.suggest call.typeName =
            spec.catalog.suggest call.typeName) := by
    intro others h
    have hreordered := reordered_withAliases hkeys h
    rw [← hreordered.contains]
    exact hreordered.check_eq_iff spec.source spec.root
  refine ⟨fun others h => (reordered_withAliases hkeys h).unnamed_check spec.source spec.root, ?_⟩
  constructor
  · rintro hall call hcall hunknown ⟨a, ha, b, hb, hne, hafav, hbfav⟩
    -- Either of the two is suggested in some order.
    obtain ⟨first, hfirst, hsuggesta⟩ := exists_suggest hkeys ha hafav
    obtain ⟨second, hsecond, hsuggestb⟩ := exists_suggest hkeys hb hbfav
    have heqa := (hcheck first hfirst).1 (hall first hfirst) call hcall hunknown
    have heqb := (hcheck second hsecond).1 (hall second hsecond) call hcall hunknown
    rw [hsuggesta] at heqa
    rw [hsuggestb, ← heqa] at heqb
    exact hne (Option.some.inj heqb).symm
  · intro hdecided others h
    exact (hcheck others h).2 fun call hcall hunknown =>
      suggest_withAliases hkeys h (hdecided call hcall hunknown)

end Aliases

/-- Two aliases, and an unknown name that is like one of them. -/
def oneFavoured : Spec Unit where
  owner := .anonymous
  source := "Lnog(1)"
  root := .construct "Lnog" [.literal (.integer 1)] ⟨0, 7⟩
  registry := oneLong
  aliases := [("Long", "com.example.Long"), ("Size", "com.example.Long")]

theorem check_withAliases_oneFavoured :
    (Entries.keys oneFavoured.aliases).Nodup ∧
    ∀ others, others.Perm oneFavoured.aliases →
      (oneFavoured.withAliases others).check = oneFavoured.check := by
  have hkeys : (Entries.keys oneFavoured.aliases).Nodup := by decide
  have hsize : oneFavoured.catalog.favours "Lnog" "Size" = false := by
    rw [catalog_oneLong rfl]
    decide +kernel
  refine ⟨hkeys, (check_withAliases oneFavoured hkeys).2.2 fun call hcall _ => ?_⟩
  cases List.mem_singleton.1 hcall
  have hlong : ∀ k ∈ Entries.keys oneFavoured.aliases,
      oneFavoured.catalog.favours "Lnog" k = true → k = "Long" := by
    intro k hk hfavours
    rcases List.mem_cons.1 hk with rfl | hk
    · rfl
    · cases List.mem_singleton.1 hk
      rw [hsize] at hfavours
      cases hfavours
  rintro ⟨a, ha, b, hb, hne, hafav, hbfav⟩
  exact hne ((hlong a ha hafav).trans (hlong b hb hbfav).symm)

/-- Two aliases, and an unknown name that is as much like the one as like the other. -/
def twoFavoured : Spec Unit where
  owner := .anonymous
  source := "Lonx(1)"
  root := .construct "Lonx" [.literal (.integer 1)] ⟨0, 7⟩
  registry := oneLong
  aliases := [("Lonk", "com.example.Long"), ("Lonp", "com.example.Long")]

/-- The alias that comes last is suggested. -/
theorem check_twoFavoured :
    let aliases := [("Lonk", "com.example.Long"), ("Lonp", "com.example.Long")]
    let others := [("Lonp", "com.example.Long"), ("Lonk", "com.example.Long")]
    let unknown := Diagnostic.unknownType "Lonx" (some ⟨1, 1, 1, 5⟩)
    (⟨oneLong, { aliases }⟩ : Repo Unit).make .anonymous "Lonx(1)" = .ok twoFavoured ∧
    (⟨oneLong, { aliases := others }⟩ : Repo Unit).make .anonymous "Lonx(1)" =
      .ok (twoFavoured.withAliases others) ∧
    (Entries.keys aliases).Nodup ∧ others.Perm aliases ∧
    twoFavoured.check.diagnostics =
      [{ unknown with fix := some ⟨"did you mean 'Lonp'?", "Lonp", ⟨1, 1, 1, 5⟩⟩ }] ∧
    (twoFavoured.withAliases others).check.diagnostics =
      [{ unknown with fix := some ⟨"did you mean 'Lonk'?", "Lonk", ⟨1, 1, 1, 5⟩⟩ }] ∧
    (twoFavoured.withAliases others).check ≠ twoFavoured.check := by
  intro aliases others unknown
  have htokens : tokenize "Lonx(1)" = .ok [⟨.name "Lonx", ⟨0, 4⟩⟩, ⟨.mark .openParen, ⟨4, 5⟩⟩,
      ⟨.number "1", ⟨5, 6⟩⟩, ⟨.mark .closeParen, ⟨6, 7⟩⟩] :=
    tokenize_of_toOption (by decide +kernel)
  have hparse : Tree.parse 64 "Lonx(1)" = .ok twoFavoured.root := by
    rw [Tree.parse, htokens]
    rfl
  have hlonp : twoFavoured.check.diagnostics =
      [{ unknown with fix := some ⟨"did you mean 'Lonp'?", "Lonp", ⟨1, 1, 1, 5⟩⟩ }] := by
    rw [check, catalog_oneLong rfl]
    decide +kernel
  have hlonk : (twoFavoured.withAliases others).check.diagnostics =
      [{ unknown with fix := some ⟨"did you mean 'Lonk'?", "Lonk", ⟨1, 1, 1, 5⟩⟩ }] := by
    rw [check, catalog_oneLong rfl]
    decide +kernel
  refine ⟨Repo.make_ok.2 ⟨_, hparse, rfl⟩, Repo.make_ok.2 ⟨_, hparse, rfl⟩, by decide,
    List.Perm.swap _ _ _, hlonp, hlonk, fun heq => ?_⟩
  rw [heq, hlonp] at hlonk
  exact absurd hlonk (by decide)

end ObjectSpec.Spec
