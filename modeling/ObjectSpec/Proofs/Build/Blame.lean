import ObjectSpec.Proofs.Build.Failure
import ObjectSpec.Proofs.Token.Splitting
import ObjectSpec.Registry.Standard
import ObjectSpec.Tree.Parser

/-!
# The type that an error names

An error of a build may name a type. The builder names the construct that fails as the
text has it. A constructor that refuses an argument names the type it was called for,
which is the registered one. With aliases these are two names
(`typeName_of_build_error`).
-/

namespace ObjectSpec

/-! ## Constructors that name their own type -/

/-- An argument that cannot be read is one of the type that the arguments are for. -/
theorem Arguments.read_error {σ α : Type} {wanted : String} {view : Value σ → Option α}
    {args : Arguments σ} {index : Nat} {e : ConstructorError}
    (h : args.read wanted view index = .error e) :
    ∃ place fault, e = .invalidArgument args.typeName place fault := by
  rw [read] at h
  cases hv : args.values[index]? with
  | none =>
    rw [hv] at h
    cases h
    exact ⟨index, _, rfl⟩
  | some v =>
    rw [hv] at h
    dsimp only at h
    cases ha : view v with
    | none =>
      rw [ha] at h
      cases h
      exact ⟨index, _, rfl⟩
    | some a =>
      rw [ha] at h
      cases h

section Naming
variable {σ : Type}

/-- Whenever it refuses an argument, it names the type that it was called for. -/
def Signature.NamesOwnType (signature : Signature σ) : Prop :=
  ∀ args context s typeName index fault final,
    signature.invoke args context s = .error (.invalidArgument typeName index fault) final →
    typeName = args.typeName

def Registry.NamesOwnTypes (registry : Registry σ) : Prop :=
  ∀ name signatures, registry.lookup name = some signatures →
    ∀ signature ∈ signatures, signature.NamesOwnType

/-- So does a constructor that reads its arguments and can fail at nothing else. -/
theorem Signature.namesOwnType_of_read {α : Type} {params : List Param}
    {read : Arguments σ → Except ConstructorError α} {make : α → Value σ}
    (hread : ∀ args e, read args = .error e →
      ∃ index fault, e = .invalidArgument args.typeName index fault) :
    Signature.NamesOwnType ⟨params, .plain fun args s =>
      match read args with
      | .ok a => .ok (make a) s
      | .error e => .error e s⟩ := by
  intro args context s typeName index fault final h
  dsimp only [invoke] at h
  cases hr : read args with
  | ok a =>
    rw [hr] at h
    cases h
  | error e =>
    rw [hr] at h
    obtain ⟨_, _, rfl⟩ := hread args e hr
    cases h
    rfl

theorem Registry.namesOwnTypes_of_forall {types : List (String × List (Signature σ))}
    (h : ∀ entry ∈ types, ∀ signature ∈ entry.2, signature.NamesOwnType) :
    Registry.NamesOwnTypes ⟨types⟩ := by
  intro name signatures hlookup
  exact h (name, signatures) (Entries.mem_of_lookup hlookup)

theorem Registry.standard_namesOwnTypes : (standard : Registry σ).NamesOwnTypes := by
  show NamesOwnTypes ⟨standardTypes.map fun e => (e.1, [e.2])⟩
  apply namesOwnTypes_of_forall
  simp only [standardTypes, List.map_cons, List.map_nil, List.forall_mem_cons, List.not_mem_nil,
    false_implies, implies_true, and_true]
  refine ⟨?_, ?_, ?_, ?_, ?_⟩ <;>
    exact Signature.namesOwnType_of_read fun _ _ => Arguments.read_error

end Naming

/-! ## Errors of a build -/

section Blame
variable {σ : Type} {registry : Registry σ} {aliases : Aliases} {context : Context}

/-- The name in the error of a construct that fails itself. -/
theorem FailsAt.typeName {typeName name : String} {args : List Tree} {span : Span} {s final : σ}
    {e : BuildError} (hregistry : registry.NamesOwnTypes)
    (h : FailsAt registry aliases context (.construct typeName args span) s [] e final)
    (hname : e.typeName? = some name) :
    ((∀ c, e ≠ .construction c) ∧ name = typeName) ∨
      (∃ c, e = .construction c) ∧ name = aliases.resolve typeName := by
  cases h with
  | lookup => exact .inl ⟨nofun, (Option.some.inj hname).symm⟩
  | selection => exact .inl ⟨nofun, (Option.some.inj hname).symm⟩
  | @construction _ _ _ _ _ _ _ signature c _ hlookup _ hselect hinvoke =>
    refine .inr ⟨⟨c, rfl⟩, ?_⟩
    cases c with
    | failed reason => cases hname
    | invalidArgument registered index fault =>
      cases hname
      exact hregistry _ _ hlookup signature (Overload.select_mem hselect) _ _ _ _ _ _ _ hinvoke

/-- If the error of a build names a type, one construct failed. Its type is named as the tree has
it, unless it is its constructor that made nothing: then the name is the one behind it. -/
theorem Tree.typeName_of_build_error {t : Tree} {s final : σ} {e : BuildError} {name : String}
    (hregistry : registry.NamesOwnTypes)
    (h : t.build registry aliases context s = .error e final) (hname : e.typeName? = some name) :
    ∃ way typeName args span,
      (∀ other, FailsAt registry aliases context t s other e final ↔ other = way) ∧
      t.at? way = some (.construct typeName args span) ∧
      (name = typeName ↔ (∀ c, e ≠ .construction c) ∨ aliases.resolve typeName = typeName) ∧
      (name ≠ typeName → name = aliases.resolve typeName) := by
  obtain ⟨way, hway⟩ := build_error_iff.1 h
  obtain ⟨typeName, args, span, before, hat, hfails⟩ := hway.construct
  refine ⟨way, typeName, args, span, hway.iff_eq, hat, ?_⟩
  rcases hfails.typeName hregistry hname with ⟨he, rfl⟩ | ⟨⟨c, rfl⟩, rfl⟩
  · exact ⟨⟨fun _ => .inl he, fun _ => rfl⟩, fun hne => absurd rfl hne⟩
  · refine ⟨⟨.inr, fun hor => ?_⟩, fun _ => rfl⟩
    rcases hor with he | hsame
    · exact absurd rfl (he c)
    · exact hsame

end Blame

/-- One type, which is an integer but takes anything. -/
def readers : Registry Unit where
  types := [("a.B", [{ Registry.wrapper .integer Arguments.integer .integer with params := [.any] }])]

theorem readers_namesOwnTypes : readers.NamesOwnTypes := by
  apply Registry.namesOwnTypes_of_forall
  simp only [List.forall_mem_cons, List.not_mem_nil, false_implies, implies_true, and_true]
  exact Signature.namesOwnType_of_read fun _ _ => Arguments.read_error

/-- The spec `B("x", 1)` -/
def twoArguments : Tree :=
  .construct "B" [.literal (.string "x"), .literal (.integer 1)] ⟨0, 9⟩

theorem Tree.typeName_of_build_error_twoArguments :
    readers.NamesOwnTypes ∧
    twoArguments.build readers [("B", "a.B")] {} () =
      .error (.resolution "B" [.text, .integer]) () ∧
    (BuildError.resolution "B" [.text, .integer]).typeName? = some "B" ∧
    ∃ way typeName args span,
      (∀ other, FailsAt readers [("B", "a.B")] {} twoArguments () other
        (.resolution "B" [.text, .integer]) () ↔ other = way) ∧
      twoArguments.at? way = some (.construct typeName args span) ∧
      ("B" = typeName ↔ (∀ c, BuildError.resolution "B" [.text, .integer] ≠ .construction c) ∨
        Aliases.resolve [("B", "a.B")] typeName = typeName) ∧
      ("B" ≠ typeName → "B" = Aliases.resolve [("B", "a.B")] typeName) := by
  have hbuild : twoArguments.build readers [("B", "a.B")] {} () =
      .error (.resolution "B" [.text, .integer]) () := by rfl
  exact ⟨readers_namesOwnTypes, hbuild, rfl,
    typeName_of_build_error readers_namesOwnTypes hbuild rfl⟩

/-- The spec `B("x")` -/
def shortCall : Tree := .construct "B" [.literal (.string "x")] ⟨0, 6⟩

/-- The constructor is given a text, and its error names `a.B`, which the tree has nowhere. -/
theorem Tree.typeName_of_build_error_shortCall :
    parse 64 "B(\"x\")" = .ok shortCall ∧ readers.NamesOwnTypes ∧
    ∃ e, shortCall.build readers [("B", "a.B")] {} () = .error e () ∧
      e.typeName? = some "a.B" ∧
      ∀ way args span, FailsAt readers [("B", "a.B")] {} shortCall () way e () →
        shortCall.at? way ≠ some (.construct "a.B" args span) := by
  have htokens : tokenize "B(\"x\")" = .ok [⟨.name "B", ⟨0, 1⟩⟩, ⟨.mark .openParen, ⟨1, 2⟩⟩,
      ⟨.quoted "\"x\"" "x" '\x22', ⟨2, 5⟩⟩, ⟨.mark .closeParen, ⟨5, 6⟩⟩] :=
    tokenize_of_toOption (by decide +kernel)
  have hparse : parse 64 "B(\"x\")" = .ok shortCall := by
    rw [parse, htokens]
    rfl
  have hbuild : shortCall.build readers [("B", "a.B")] {} () =
      .error (.construction (.invalidArgument "a.B" 0 (.wrongKind "Integer" .text))) () := by rfl
  refine ⟨hparse, readers_namesOwnTypes, _, hbuild, rfl, fun way args span hway hat => ?_⟩
  have hroot : FailsAt readers [("B", "a.B")] {} shortCall () []
      (.construction (.invalidArgument "a.B" 0 (.wrongKind "Integer" .text))) () :=
    .construction rfl rfl rfl rfl
  obtain rfl := hway.way_unique hroot
  exact absurd (Tree.construct.inj (Option.some.inj hat)).1 (by decide)

end ObjectSpec
