import ObjectSpec.Proofs.Catalog.Ranking
import ObjectSpec.Proofs.Grammar.Names
import ObjectSpec.Proofs.Registry.Registration
import ObjectSpec.Proofs.Spec.Preflight

/-!
# Suggested names

A check suggests, for a type that it does not know, a name of its own catalog, whatever
the similarity of two names may be. The catalog knows each of its names, except an alias
of a type that is not registered: such an alias is `Dangling`, and it is among the names
although nothing can be made with it (`contains_iff_of_mem`). Any other suggested name
can be used: with it in place of the type name the diagnostic is gone (`fix_usable`).
-/

namespace ObjectSpec

open Text (byteCount)

/-! ## What is suggested -/

namespace Catalog

theorem mem_names_of_suggest {catalog : Catalog} {name suggested : String}
    (h : catalog.suggest name = some suggested) : suggested ∈ catalog.names :=
  (favours_of_suggest h).1

variable {catalog : Catalog} {source : String} {call : Call}

theorem diagnostics_of_constructs (catalog : Catalog) (source : String) {t : Tree}
    {older newer : List Call} (h : t.constructs = older ++ call :: newer) :
    (catalog.check source t).diagnostics =
      older.filterMap (catalog.finding source) ++ (catalog.finding source call).toList ++
        newer.filterMap (catalog.finding source) := by
  rw [check, h]
  dsimp only
  rw [List.filterMap_append, List.append_assoc, List.filterMap_cons]
  cases catalog.finding source call <;> rfl

end Catalog

/-- What a diagnostic says, wherever it says it. -/
def Diagnostic.content (d : Diagnostic) :
    Severity × Topic × String × Option (String × String) :=
  (d.severity, d.topic, d.message, d.fix.map fun f => (f.description, f.replacement))

/-- What there is to say about a construct does not depend on its place. -/
theorem Catalog.content_finding (catalog : Catalog) (source edited : String) (call : Call)
    (s : Span) : (catalog.finding source { call with span := s }).map Diagnostic.content =
      (catalog.finding edited call).map Diagnostic.content := by
  rw [finding, finding]
  dsimp only
  split
  · split
    · split <;> rfl
    · rfl
  · simp [Diagnostic.content, Diagnostic.unknownType, Option.map_map, Function.comp_def]

/-- Constructs that differ in their places only have the same said about them. -/
theorem Catalog.content_check {catalog : Catalog} {source edited : String} {t u : Tree}
    (h : t.shape = u.shape) : (catalog.check source t).diagnostics.map Diagnostic.content =
      (catalog.check edited u).diagnostics.map Diagnostic.content := by
  have hplaced : ∀ (source : String) (calls : List Call),
      (calls.filterMap (catalog.finding source)).map Diagnostic.content =
        (calls.map Call.shape).filterMap fun c =>
          (catalog.finding "" c).map Diagnostic.content := by
    intro source calls
    rw [List.map_filterMap, List.filterMap_map]
    refine List.filterMap_congr fun c _ => ?_
    exact (catalog.content_finding "" source c {}).symm
  rw [check, check, hplaced, hplaced, Tree.constructs_of_shape h]

/-! ## The names of a catalog -/

namespace Spec

variable {σ : Type}

/-- An alias of a type that is not registered. -/
def Dangling (spec : Spec σ) (name : String) : Prop :=
  ∃ target, spec.aliases.lookup name = some target ∧ spec.registry.contains target = false

/-- Of the names in its own list, the catalog does not know the dangling ones. -/
theorem contains_iff_of_mem {spec : Spec σ} {name : String} (h : name ∈ spec.catalog.names) :
    spec.catalog.contains name = true ↔ ¬ spec.Dangling name := by
  have hcontains : spec.catalog.contains name =
      spec.registry.contains ((spec.aliases.lookup name).getD name) := rfl
  rw [hcontains, Dangling]
  cases halias : spec.aliases.lookup name with
  | some target => simp
  | none =>
    -- The name is no alias, so it is there as that of a registered type.
    rcases List.mem_append.1 h with hname | hkey
    · simp [Registry.mem_names_iff.1 hname]
    · rw [Entries.mem_keys_iff, halias] at hkey
      cases hkey

/-! ## The fix -/

/-- Every diagnostic is about a construct, and those around it about the constructs around it. -/
theorem exists_call {spec : Spec σ} {before after : List Diagnostic} {d : Diagnostic}
    (h : spec.check.diagnostics = before ++ d :: after) : ∃ older call newer,
      spec.root.constructs = older ++ call :: newer ∧ older.filterMap spec.finding = before ∧
      spec.finding call = some d ∧ newer.filterMap spec.finding = after := by
  rw [diagnostics_check] at h
  obtain ⟨first, rest, hcalls, hfirst, hrest⟩ := List.filterMap_eq_append_iff.1 h
  obtain ⟨silent, call, newer, rfl, hsilent, hcall, hafter⟩ := List.filterMap_eq_cons_iff.1 hrest
  refine ⟨first ++ silent, call, newer, by rw [hcalls, List.append_assoc], ?_, hcall, hafter⟩
  rw [List.filterMap_append, hfirst, List.filterMap_eq_nil_iff.2 hsilent, List.append_nil]

/-- The text `edited` is `source` with `name` in place of the type name of the construct. -/
def Replaces (source : String) (call : Call) (name edited : String) : Prop :=
  ∃ front rest : String, source = front ++ call.typeName ++ rest ∧
    byteCount front.toList = call.span.start ∧ edited = front ++ name ++ rest

/-- With `name` in place of the type name of `call`, what is said between `before` and `after` is
`now`, which is no more than that the type takes other numbers of arguments. This holds of the tree,
and of the text if the name can be written there. -/
structure Remedy (repo : Repo σ) (spec : Spec σ) (call : Call) (name : String)
    (before : List Diagnostic) (now : Option Diagnostic) (after : List Diagnostic)
    (text : String) : Prop where
  known : spec.catalog.contains name = true
  differs : name ≠ call.typeName
  mild : ∀ d ∈ now, d.topic = .arityMismatch
  tree : (spec.catalog.check spec.source
    (spec.root.retype (renameAt call.span.start name))).diagnostics = before ++ now.toList ++ after
  replaces : Replaces spec.source call name text
  read : Token.IsTypeName name → ∃ edited, repo.make spec.owner text = .ok edited ∧
    edited.check.diagnostics.map Diagnostic.content =
      (before ++ now.toList ++ after).map Diagnostic.content

/-- A fix that is not a dangling alias is a known type. It goes with a construct of an unknown type,
and removes what is said about it. -/
theorem fix_usable (repo : Repo σ) (owner : Urn) (source : String) (spec : Spec σ)
    (before after : List Diagnostic) (d : Diagnostic) (f : Fix)
    (hmake : repo.make owner source = .ok spec)
    (hd : spec.check.diagnostics = before ++ d :: after) (hf : d.fix = some f)
    (hdangling : ¬ spec.Dangling f.replacement) :
    ∃ call now text, call ∈ spec.root.constructs ∧
      spec.catalog.contains call.typeName = false ∧ spec.finding call = some d ∧
      f.range = Catalog.nameRange source call ∧
      Remedy repo spec call f.replacement before now after text := by
  obtain ⟨root, hparse, hspec⟩ := Repo.make_ok.1 hmake
  obtain rfl : spec.source = source := by rw [hspec]
  obtain rfl : spec.root = root := by rw [hspec]
  obtain rfl : spec.owner = owner := by rw [hspec]
  obtain ⟨older, call, newer, hcalls, hbefore, hfinding, hafter⟩ := exists_call hd
  have hmem : call ∈ spec.root.constructs := by
    rw [hcalls]
    simp
  obtain ⟨hunknown, hsuggest, hrange⟩ := Catalog.suggest_of_fix hfinding hf
  have hknown := (contains_iff_of_mem (Catalog.mem_names_of_suggest hsuggest)).2 hdangling
  have hdiffers : f.replacement ≠ call.typeName := by
    intro hsame
    rw [hsame, hunknown] at hknown
    cases hknown
  have htree := Catalog.diagnostics_of_constructs spec.catalog spec.source
    (Tree.constructs_replace hparse hcalls f.replacement)
  rw [show older.filterMap (spec.catalog.finding spec.source) = before from hbefore,
    show newer.filterMap (spec.catalog.finding spec.source) = after from hafter] at htree
  obtain ⟨front, rest, htext, hfront, hread⟩ := Tree.parse_replace hparse hmem
  refine ⟨call, _, _, hmem, hunknown, hfinding, hrange, hknown, hdiffers,
    fun e he => Catalog.topic_of_finding hknown he, htree, ⟨front, rest, htext, hfront, rfl⟩,
    fun hname => ?_⟩
  obtain ⟨edited, hedited, hshape⟩ := hread f.replacement hname
  refine ⟨_, Repo.make_ok.2 ⟨edited, hedited, rfl⟩, ?_⟩
  -- Both texts are checked against one catalog.
  have hcatalog : spec.catalog =
      (Spec.mk spec.owner spec.source edited repo.registry repo.settings.aliases).catalog := by
    rw [hspec]
    rfl
  rw [← htree, hcatalog]
  exact Catalog.content_check hshape

/-- A registry with one type, and the name of that type alone is suggested. -/
def oneLong : Registry Unit :=
  ⟨[("com.example.Long", [Registry.wrapper .long Arguments.long .long])]⟩

theorem names_oneLong : oneLong.names = ["com.example.Long"] := List.mergeSort_singleton _

theorem catalog_oneLong {spec : Spec Unit} (h : spec.registry = oneLong) :
    spec.catalog = ⟨spec.catalog.contains, "com.example.Long" :: Entries.keys spec.aliases,
      spec.catalog.arities⟩ := by
  rw [catalog, h, names_oneLong]
  rfl

/-- Two letters of an alias are interchanged, and a second type name is like no other. -/
def swappedLetters : Spec Unit where
  owner := .anonymous
  source := "[Lnog(1), D()]"
  root := .array [.construct "Lnog" [.literal (.integer 1)] ⟨1, 8⟩, .construct "D" [] ⟨10, 13⟩]
    ⟨0, 14⟩
  registry := oneLong
  aliases := [("Long", "com.example.Long")]

theorem fix_usable_swappedLetters :
    let repo : Repo Unit := ⟨oneLong, { aliases := [("Long", "com.example.Long")] }⟩
    let fix : Fix := ⟨"did you mean 'Long'?", "Long", ⟨1, 2, 1, 6⟩⟩
    let first := { Diagnostic.unknownType "Lnog" (some ⟨1, 2, 1, 6⟩) with fix := some fix }
    let second := Diagnostic.unknownType "D" (some ⟨1, 11, 1, 12⟩)
    repo.make .anonymous "[Lnog(1), D()]" = .ok swappedLetters ∧
    swappedLetters.check.diagnostics = [] ++ first :: [second] ∧ first.fix = some fix ∧
    ¬ swappedLetters.Dangling "Long" ∧
    ∃ call now text, call ∈ swappedLetters.root.constructs ∧
      swappedLetters.catalog.contains call.typeName = false ∧
      swappedLetters.finding call = some first ∧
      fix.range = Catalog.nameRange "[Lnog(1), D()]" call ∧
      Remedy repo swappedLetters call "Long" [] now [second] text := by
  intro repo fix first second
  have htokens : tokenize "[Lnog(1), D()]" = .ok [⟨.mark .openBracket, ⟨0, 1⟩⟩,
      ⟨.name "Lnog", ⟨1, 5⟩⟩, ⟨.mark .openParen, ⟨5, 6⟩⟩, ⟨.number "1", ⟨6, 7⟩⟩,
      ⟨.mark .closeParen, ⟨7, 8⟩⟩, ⟨.mark .comma, ⟨8, 9⟩⟩, ⟨.name "D", ⟨10, 11⟩⟩,
      ⟨.mark .openParen, ⟨11, 12⟩⟩, ⟨.mark .closeParen, ⟨12, 13⟩⟩,
      ⟨.mark .closeBracket, ⟨13, 14⟩⟩] := tokenize_of_toOption (by decide +kernel)
  have hmake : repo.make .anonymous "[Lnog(1), D()]" = .ok swappedLetters := by
    refine Repo.make_ok.2 ⟨swappedLetters.root, ?_, rfl⟩
    rw [Tree.parse, htokens]
    rfl
  have hcheck : swappedLetters.check.diagnostics = [] ++ first :: [second] := by
    rw [check, catalog_oneLong rfl]
    decide +kernel
  have hlive : ¬ swappedLetters.Dangling "Long" := by
    rintro ⟨target, htarget, hnone⟩
    cases htarget
    cases hnone
  exact ⟨hmake, hcheck, rfl, hlive,
    fix_usable repo .anonymous "[Lnog(1), D()]" swappedLetters [] [second] first fix hmake hcheck
      rfl hlive⟩

/-- An alias whose target is misspelled. -/
def misspelledTarget : Spec Unit where
  owner := .anonymous
  source := "Lng(1)"
  root := .construct "Lng" [.literal (.integer 1)] ⟨0, 6⟩
  registry := oneLong
  aliases := [("Lng", "com.example.Lnog")]

/-- A dangling alias is suggested in its own place. -/
theorem fix_misspelledTarget :
    let repo : Repo Unit := ⟨oneLong, { aliases := [("Lng", "com.example.Lnog")] }⟩
    let fix : Fix := ⟨"did you mean 'Lng'?", "Lng", ⟨1, 1, 1, 4⟩⟩
    repo.make .anonymous "Lng(1)" = .ok misspelledTarget ∧
    misspelledTarget.check.diagnostics =
      [{ Diagnostic.unknownType "Lng" (some ⟨1, 1, 1, 4⟩) with fix := some fix }] ∧
    misspelledTarget.catalog.contains fix.replacement = false := by
  intro repo fix
  have htokens : tokenize "Lng(1)" = .ok [⟨.name "Lng", ⟨0, 3⟩⟩, ⟨.mark .openParen, ⟨3, 4⟩⟩,
      ⟨.number "1", ⟨4, 5⟩⟩, ⟨.mark .closeParen, ⟨5, 6⟩⟩] :=
    tokenize_of_toOption (by decide +kernel)
  refine ⟨Repo.make_ok.2 ⟨misspelledTarget.root, ?_, rfl⟩, ?_, by decide +kernel⟩
  · rw [Tree.parse, htokens]
    rfl
  · rw [check, catalog_oneLong rfl]
    decide +kernel

end Spec

end ObjectSpec
