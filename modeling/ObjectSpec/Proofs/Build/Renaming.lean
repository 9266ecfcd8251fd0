import ObjectSpec.Proofs.Build.Failure
import ObjectSpec.Proofs.Build.Labels

/-!
# Aliases rename the types of a tree once

Building a tree with aliases is building the tree in which each type name is replaced by
the one that stands behind it, with no aliases: the same constructors are called with the
same arguments, and the value and the state are the same (`build_rename`). A failing build
fails at the same construct with the same error, but for the name in it, which is the one
that the tree has there (`build_aliases`).
-/

namespace ObjectSpec

/-! ## The renamed tree -/

/-- The call, its construct with the type name `f x` wherever it has `x`. -/
def Invocation.rename {σ : Type} (f : String → String) : Invocation σ → Invocation σ :=
  relabel f fun s => s

/-- The name behind a name is not looked up again. -/
theorem Aliases.sameTypes_resolve (aliases : Aliases) : aliases.SameTypes [] aliases.resolve :=
  fun _ => rfl

section Renaming
variable {σ : Type} {registry : Registry σ} {aliases : Aliases} {context : Context}

theorem Tree.rename_construct (f : String → String) (typeName : String) (args : List Tree)
    (span : Span) : (construct typeName args span).rename f =
      construct (f typeName) (args.map (rename f)) span :=
  congrArg (construct (f typeName) · span) (relabelList_eq _ _ args)

theorem Tree.parts_rename (f : String → String) (t : Tree) :
    (t.rename f).parts = t.parts.map (rename f) := parts_relabel _ _ t

theorem Tree.build_rename (t : Tree) : (t.rename aliases.resolve).build registry [] context =
    (t.build registry aliases context).adaptExcept (BuildError.rename aliases.resolve) :=
  build_relabel registry context _ aliases.sameTypes_resolve t

/-! ## Failures of the renamed tree -/

theorem buildList_rename_ok {ts : List Tree} {s next : σ} {values : List (Value σ)}
    (h : Tree.buildList registry aliases context ts s = .ok values next) :
    Tree.buildList registry [] context (ts.map (Tree.rename aliases.resolve)) s =
      .ok values next := by
  have hbuild := Tree.buildList_relabel registry context (fun s => s) aliases.sameTypes_resolve ts
  rw [Tree.relabelList_eq] at hbuild
  exact (congrFun hbuild s).trans (by rw [EStateM.adaptExcept, h])

theorem Entered.rename {node : Tree} (h : Entered registry aliases node) :
    Entered registry [] (node.rename aliases.resolve) := by
  cases node with
  | construct typeName args span => exact h
  | _ => trivial

/-- The renamed tree fails where the tree fails. -/
theorem FailsAt.rename {t : Tree} {s final : σ} {way : List Nat} {e : BuildError}
    (h : FailsAt registry aliases context t s way e final) :
    FailsAt registry [] context (t.rename aliases.resolve) s way
      (e.rename aliases.resolve) final := by
  induction h with
  | lookup hlookup => exact .lookup hlookup
  | selection hlookup hargs hselect =>
    rw [Tree.rename_construct]
    exact .selection hlookup (buildList_rename_ok hargs) hselect
  | construction hlookup hargs hselect hinvoke =>
    rw [Tree.rename_construct]
    exact .construction hlookup (buildList_rename_ok hargs) hselect hinvoke
  | @part node t older newer _ _ _ _ _ _ hnode hparts holder _ ih =>
    have hrenamed : (node.rename aliases.resolve).parts =
        older.map (Tree.rename aliases.resolve) ++
          t.rename aliases.resolve :: newer.map (Tree.rename aliases.resolve) := by
      rw [Tree.parts_rename, hparts, List.map_append, List.map_cons]
    have hpart := FailsAt.part hnode.rename hrenamed (buildList_rename_ok holder) ih
    rwa [List.length_map] at hpart

/-- The name of a construct that the build gives its error. What a constructor says is its own. -/
def BuildError.writtenName? : BuildError → Option String
  | .notFound typeName => some typeName
  | .resolution typeName _ => some typeName
  | .construction _ => none

/-- The build names the construct that fails as the tree has it. -/
theorem FailsAt.writtenName {t : Tree} {s final : σ} {way : List Nat} {e : BuildError}
    (h : FailsAt registry aliases context t s way e final) :
    ∃ typeName args span, t.at? way = some (.construct typeName args span) ∧
      ∀ name ∈ e.writtenName?, name = typeName := by
  obtain ⟨typeName, args, span, before, hat, hfails⟩ := h.construct
  refine ⟨typeName, args, span, hat, ?_⟩
  cases hfails with
  | lookup => exact fun name hname => (Option.some.inj hname).symm
  | selection => exact fun name hname => (Option.some.inj hname).symm
  | construction => exact fun name hname => nomatch hname

/-- With aliases a tree is built as the tree with the names behind them is built without: by the
same calls, to the same value and state. If the build fails, both fail at one construct with one
error, but that the build with aliases names the construct as the tree has it. -/
theorem Tree.build_aliases (registry : Registry σ) (aliases : Aliases) (context : Context)
    (t : Tree) (s : σ) :
    (t.rename aliases.resolve).calls registry [] context s =
      (t.calls registry aliases context s).map (Invocation.rename aliases.resolve) ∧
    match t.build registry aliases context s with
    | .ok v final => (t.rename aliases.resolve).build registry [] context s = .ok v final
    | .error e final =>
      (t.rename aliases.resolve).build registry [] context s =
        .error (e.rename aliases.resolve) final ∧
      ∃ way typeName args span, t.at? way = some (.construct typeName args span) ∧
        (∀ name ∈ e.writtenName?, name = typeName) ∧
        (∀ other, FailsAt registry aliases context t s other e final ↔ other = way) ∧
        ∀ other, FailsAt registry [] context (t.rename aliases.resolve) s other
          (e.rename aliases.resolve) final ↔ other = way := by
  refine ⟨calls_relabel registry context _ aliases.sameTypes_resolve t s, ?_⟩
  rw [build_rename, EStateM.adaptExcept]
  cases hbuild : t.build registry aliases context s with
  | ok v final => rfl
  | error e final =>
    obtain ⟨way, hway⟩ := build_error_iff.1 hbuild
    obtain ⟨typeName, args, span, hat, hname⟩ := hway.writtenName
    exact ⟨rfl, way, typeName, args, span, hat, hname, hway.iff_eq, hway.rename.iff_eq⟩

end Renaming

end ObjectSpec
