import ObjectSpec.Settings.Basic
import ObjectSpec.Tree.Render

/-!
# Specs

A repository makes specs: it reads the text once and keeps the tree, the text
and the owner with it. A spec can be checked without building anything, and
built any number of times.
-/

namespace ObjectSpec

structure Repo (σ : Type) where
  registry : Registry σ
  settings : Settings := {}

/-- A text that was read, with what it takes to build it. -/
structure Spec (σ : Type) where
  owner : Urn
  source : String
  root : Tree
  registry : Registry σ
  aliases : Aliases

namespace Repo

variable {σ : Type}

/-- Read a text for an owner. -/
def make (repo : Repo σ) (owner : Urn) (source : String) : Except ParseError (Spec σ) :=
  (Tree.parse repo.settings.maxDepth source).map fun root =>
    ⟨owner, source, root, repo.registry, repo.settings.aliases⟩

theorem make_ok {repo : Repo σ} {owner : Urn} {source : String} {spec : Spec σ} :
    repo.make owner source = .ok spec ↔ ∃ root,
      Tree.parse repo.settings.maxDepth source = .ok root ∧
      spec = ⟨owner, source, root, repo.registry, repo.settings.aliases⟩ := by
  rw [make]
  cases Tree.parse repo.settings.maxDepth source with
  | error e => simp [Except.map]
  | ok root => simp [Except.map, eq_comm]

end Repo

namespace Spec

variable {σ : Type}

/-- The canonical text. -/
def text (spec : Spec σ) : String := spec.root.render

/-- Build a new value. -/
def instantiate (spec : Spec σ) (context : Context) : EStateM BuildError σ (Value σ) :=
  spec.root.build spec.registry spec.aliases context

/-- The registry seen through the aliases. The aliases are suggested after the types. -/
def catalog (spec : Spec σ) : Catalog where
  contains name := spec.registry.contains (spec.aliases.resolve name)
  names := spec.registry.names ++ Entries.keys spec.aliases
  arities name := spec.registry.arities (spec.aliases.resolve name)

/-- Find the constructs that cannot be built. -/
def check (spec : Spec σ) : Catalog.Report := spec.catalog.check spec.source spec.root

end Spec

end ObjectSpec
