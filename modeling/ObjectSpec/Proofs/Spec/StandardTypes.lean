import ObjectSpec.Proofs.Build.Failure
import ObjectSpec.Proofs.Registry.Registration
import ObjectSpec.Proofs.Spec.Canonical
import ObjectSpec.Proofs.Value.Equality
import ObjectSpec.Proofs.Value.Widening

/-!
# Specs of the standard types

A constructor of a standard type reads the one argument that it was selected for, so it makes
nothing but a scalar, and that always. Constructors of this sort (`Signature.MakesData`) turn the
literals of a text into data, in which there is no object and each double is finite
(`Value.IsData`), and neither the context nor the state has a part in it (`Settled`). So it is with
every spec of the standard types (`instantiate_standard`).
-/

namespace ObjectSpec

section Data
variable {σ α β : Type}

/-! ## Data -/

namespace Value

/-- It is no object. If it is a double it is finite, and if it is a map its keys are distinct. -/
def Plain : Value σ → Prop
  | .double d => d.isFinite = true
  | .map entries => (Entries.keys entries).Nodup
  | .object _ => False
  | _ => True

/-- There is nothing in the value, at any depth, but what is plain. -/
def IsData (v : Value σ) : Prop := v.Throughout Plain

theorem Plain.distinctKeys {v : Value σ} (h : v.Plain) : v.DistinctKeys := by
  cases v with
  | map entries => exact h
  | _ => trivial

theorem Plain.notNaN {v : Value σ} (h : v.Plain) : v.NotNaN := by
  cases v with
  | double d =>
    have hlt : d.magnitude < Double.infinity := of_decide_eq_true h
    exact decide_eq_false (Nat.lt_asymm hlt)
  | _ => trivial

theorem IsData.same_self {v : Value σ} (h : v.IsData) : v.same v = true := by
  have hkeyed : v.Keyed := h.imp fun _ => Plain.distinctKeys
  have hnumeric : v.Numeric := h.imp fun _ => Plain.notNaN
  exact (same_self_iff hkeyed).2 hnumeric

theorem isData_ofLiteral {l : Literal} (h : ∀ d, l = .double d → d.isFinite = true) :
    (ofLiteral l : Value σ).IsData := by
  cases l with
  | double d => exact (throughout_leaf rfl).2 (h d rfl)
  | _ => exact (throughout_leaf rfl).2 trivial

/-- The map of the entries that are built, though a key may come again. -/
theorem isData_map_ofList {entries : List (String × Value σ)} (h : ∀ e ∈ entries, e.2.IsData) :
    (map (Entries.ofList entries)).IsData :=
  throughout_map.2 ⟨Entries.nodup_ofList entries, fun e he => h e (Entries.mem_of_mem_ofList he)⟩

/-- An integer or a long is not widened beyond the finite doubles. -/
theorem IsData.widen {v : Value σ} (h : v.IsData) {wanted : Kind}
    (hwanted : (Param.only wanted).accepts v.kind = true) : (v.widen (.only wanted)).IsData := by
  rcases Param.accepts_only.1 hwanted with rfl | hwidens
  · rwa [widen_self]
  · cases v with
    | integer n =>
      cases hwidens with
      | integerToLong => exact (throughout_leaf rfl).2 trivial
      | integerToDouble => exact (throughout_leaf rfl).2 (Double.value_ofInt32 n).1
    | long n =>
      cases hwidens with
      | longToDouble =>
        have hle : n.toInt ≤ 2 ^ 63 - 1 := n.toInt_le
        have hge := n.le_toInt
        exact (throughout_leaf rfl).2 (Double.isFinite_ofInt (by omega))
    | _ => cases hwidens

end Value

/-! ## Results that are settled -/

/-- Whatever the context and the state, the result is the same and the state is kept. The result
is a value with a property, or one of the errors that are not a constructor's. -/
inductive Settled (P : α → Prop) (x : Context → EStateM BuildError σ α) : Prop
  | value {a} : P a → (∀ context s, x context s = .ok a s) → Settled P x
  | notFound {name} : (∀ context s, x context s = .error (.notFound name) s) → Settled P x
  | resolution {name kinds} :
      (∀ context s, x context s = .error (.resolution name kinds) s) → Settled P x

namespace Settled

variable {P : α → Prop} {Q : β → Prop} {x : Context → EStateM BuildError σ α}

theorem bind {f : Context → α → EStateM BuildError σ β} (h : Settled P x)
    (hf : ∀ a, P a → Settled Q fun context => f context a) :
    Settled Q fun context => x context >>= f context := by
  cases h with
  | value ha hx =>
    have hnext : ∀ context s, (x context >>= f context) s = f context _ s :=
      fun context s => bind_of_ok (hx context s)
    cases hf _ ha with
    | value hb hf => exact .value hb fun context s => (hnext context s).trans (hf context s)
    | notFound hf => exact .notFound fun context s => (hnext context s).trans (hf context s)
    | resolution hf => exact .resolution fun context s => (hnext context s).trans (hf context s)
  | notFound hx => exact .notFound fun context s => bind_of_error (hx context s)
  | resolution hx => exact .resolution fun context s => bind_of_error (hx context s)

theorem map {f : α → β} (h : Settled P x) (hf : ∀ a, P a → Q (f a)) :
    Settled Q fun context => x context >>= fun a => pure (f a) :=
  h.bind fun a ha => .value (hf a ha) fun _ _ => rfl

theorem imp {P' : α → Prop} (h : Settled P x) (hP : ∀ a, P a → P' a) : Settled P' x := by
  cases h with
  | value ha hx => exact .value (hP _ ha) hx
  | notFound hx => exact .notFound hx
  | resolution hx => exact .resolution hx

end Settled

/-! ## Constructors that make data -/

/-- Of data that it takes it makes data, and it does nothing else. -/
def Signature.MakesData (signature : Signature σ) : Prop :=
  ∀ typeName values, Overload.Takes Param.accepts signature.params (values.map Value.kind) →
    (∀ v ∈ values, v.IsData) → ∃ made : Value σ, made.IsData ∧
      ∀ context s, signature.invoke (signature.arguments typeName values) context s = .ok made s

def Registry.MakesData (registry : Registry σ) : Prop :=
  ∀ name signatures, registry.lookup name = some signatures →
    ∀ signature ∈ signatures, signature.MakesData

/-- A wrapper makes the argument again that it reads. -/
theorem Registry.wrapper_makesData {kind : Kind}
    {read : Arguments σ → Nat → Except ConstructorError α} {wrap : α → Value σ}
    (h : ∀ typeName v, v.kind = kind → ∃ a, read ⟨typeName, [v]⟩ 0 = .ok a ∧ wrap a = v) :
    (wrapper kind read wrap).MakesData := by
  intro typeName values htakes hdata
  obtain ⟨v, rfl⟩ : ∃ v, values = [v] :=
    List.length_eq_one_iff.1 ((List.length_map _).symm.trans htakes.length_eq.symm)
  have htaken : (Param.only kind).accepts v.kind = true := htakes.getElem? (i := 0) rfl rfl
  obtain ⟨a, hread, hwrap⟩ := h typeName _ (Value.view_widen htaken).1
  refine ⟨v.widen (.only kind), (hdata v List.mem_cons_self).widen htaken, fun context s => ?_⟩
  show (wrapper kind read wrap).invoke ⟨typeName, [v.widen (.only kind)]⟩ context s = _
  simp only [Signature.invoke, wrapper, hread, hwrap]

theorem Registry.standard_makesData : (standard : Registry σ).MakesData := by
  have hall : ∀ e ∈ standardTypes, (e.2 : Signature σ).MakesData := by
    simp only [standardTypes, List.forall_mem_cons, List.not_mem_nil, false_implies, implies_true,
      and_true]
    refine ⟨?_, ?_, ?_, ?_, ?_⟩ <;> refine wrapper_makesData fun typeName v hv => ?_
    -- A value of the kind of the parameter is that scalar, and no other value is of this kind.
    all_goals cases v <;> first | exact ⟨_, rfl, rfl⟩ | cases hv
  intro name candidates hlookup signature hmem
  exact hall (name, signature) (mem_of_lookup_ofList hlookup hmem)

/-! ## Builds -/

namespace Tree

variable {registry : Registry σ} {aliases : Aliases}

theorem settled_finish (written registered : String) {candidates : List (Signature σ)}
    {values : List (Value σ)} (hcandidates : ∀ signature ∈ candidates, signature.MakesData)
    (hvalues : ∀ v ∈ values, v.IsData) :
    Settled Value.IsData fun context => finish context written registered candidates values := by
  cases hselect : Overload.select Signature.params candidates (values.map Value.kind) with
  | none =>
    have hfinish : ∀ (context : Context) (s : σ),
        finish context written registered candidates values s =
          .error (.resolution written (values.map Value.kind)) s := fun context s => by
      rw [finish]
      simp only [hselect]
    exact .resolution hfinish
  | some signature =>
    obtain ⟨made, hmade, hinvoke⟩ := hcandidates signature (Overload.select_mem hselect) registered
      values (Overload.takes_of_select hselect) hvalues
    refine .value hmade fun context s => ?_
    rw [finish_of_select hselect, EStateM.adaptExcept, hinvoke]

theorem settled_buildList {ts : List Tree} (h : ∀ t ∈ ts, Settled Value.IsData fun context =>
      t.build registry aliases context) :
    Settled (fun values => ∀ v ∈ values, v.IsData) fun context =>
      buildList registry aliases context ts := by
  induction ts with
  | nil => exact .value (List.forall_mem_nil _) fun _ _ => rfl
  | cons t ts ih =>
    obtain ⟨ht, hts⟩ := List.forall_mem_cons.1 h
    simp only [buildList]
    exact ht.bind fun v hv => (ih hts).map fun values hvalues => List.forall_mem_cons.2 ⟨hv, hvalues⟩

theorem settled_buildEntries {entries : List (String × Tree)}
    (h : ∀ e ∈ entries, Settled Value.IsData fun context => e.2.build registry aliases context) :
    Settled (fun pairs => ∀ e ∈ pairs, e.2.IsData) fun context =>
      buildEntries registry aliases context entries := by
  simp only [funext (buildEntries_eq entries)]
  exact (settled_buildList (List.forall_mem_map.2 h)).map fun values hvalues e he =>
    hvalues e.2 (List.of_mem_zip he).2

theorem settled_raw (written content : String) (span : Span) :
    Settled Value.IsData fun context =>
      (raw written content span).build registry aliases context := by
  have hdata : (Value.text content : Value σ).IsData := (Value.throughout_leaf rfl).2 trivial
  simp only [build]
  exact .value hdata fun _ _ => rfl

/-- If constructors make data, so does the build of a tree, unless a type is not found or no
signature of it takes the arguments. -/
theorem settled_build (hregistry : registry.MakesData) {t : Tree} (ht : t.WellFormed) :
    Settled Value.IsData fun context => t.build registry aliases context := by
  induction ht with
  | @literal l h =>
    simp only [build]
    exact .value (Value.isData_ofLiteral h) fun _ _ => rfl
  | @construct typeName args span _ _ ih =>
    simp only [build]
    cases hlookup : registry.lookup (aliases.resolve typeName) with
    | none => exact .notFound fun _ _ => rfl
    | some candidates =>
      exact (settled_buildList ih).bind fun values hvalues =>
        settled_finish _ _ (hregistry _ _ hlookup) hvalues
  | @array items span _ ih =>
    simp only [build]
    exact (settled_buildList ih).map fun values hvalues => Value.throughout_array.2 ⟨trivial, hvalues⟩
  | @map entries span _ ih =>
    simp only [build]
    exact (settled_buildEntries ih).map fun pairs hpairs => Value.isData_map_ofList hpairs
  | @raw written content span _ => exact settled_raw written content span

end Tree

/-! ## Specs -/

/-- Whatever the aliases, an instance of a spec of the standard types is data that equals itself, or
a type is not found, or no signature takes the arguments. In every context it is the same. -/
theorem Spec.instantiate_standard (settings : Settings) (owner : Urn) (source : String)
    (spec : Spec σ) (h : (⟨.standard, settings⟩ : Repo σ).make owner source = .ok spec) :
    Settled (fun v => v.IsData ∧ v.same v = true) spec.instantiate := by
  obtain ⟨root, hparse, rfl⟩ := Repo.make_ok.1 h
  have hroot : Settled Value.IsData fun context =>
      root.build (.standard : Registry σ) settings.aliases context := by
    rcases Tree.wellFormed_of_parse hparse with ⟨content, span, rfl⟩ | hwf
    · exact Tree.settled_raw source content span
    · exact Tree.settled_build Registry.standard_makesData hwf
  exact hroot.imp fun v hv => ⟨hv, hv.same_self⟩

end Data

/-- The key comes twice, and the long is widened to a double. -/
theorem Spec.instantiate_standard_widened :
    let settings : Settings := { aliases := [("D", "java.lang.Double")] }
    let source := "\x7b'k': 1, 'k': D(7L)\x7d"
    ∃ spec : Spec Unit, (⟨.standard, settings⟩ : Repo Unit).make .anonymous source = .ok spec ∧
      Settled (fun v => v.IsData ∧ v.same v = true) spec.instantiate ∧
      ∀ context, spec.instantiate context () =
        .ok (.map [("k", .double ⟨0x401C000000000000⟩)]) () := by
  intro settings source
  have htokens : tokenize source = .ok [⟨.mark .openBrace, ⟨0, 1⟩⟩,
      ⟨.quoted "'k'" "k" '\x27', ⟨1, 4⟩⟩, ⟨.mark .colon, ⟨4, 5⟩⟩, ⟨.number "1", ⟨6, 7⟩⟩,
      ⟨.mark .comma, ⟨7, 8⟩⟩, ⟨.quoted "'k'" "k" '\x27', ⟨9, 12⟩⟩, ⟨.mark .colon, ⟨12, 13⟩⟩,
      ⟨.name "D", ⟨14, 15⟩⟩, ⟨.mark .openParen, ⟨15, 16⟩⟩, ⟨.number "7L", ⟨16, 18⟩⟩,
      ⟨.mark .closeParen, ⟨18, 19⟩⟩, ⟨.mark .closeBrace, ⟨19, 20⟩⟩] :=
    tokenize_of_toOption (by decide +kernel)
  have hparse : Tree.parse 64 source = .ok (.map [("k", .literal (.integer 1)),
      ("k", .construct "D" [.literal (.long 7)] ⟨14, 19⟩)] ⟨0, 20⟩) := by
    rw [Tree.parse, htokens]
    rfl
  have hmake : (⟨.standard, settings⟩ : Repo Unit).make .anonymous source =
      .ok ⟨.anonymous, source, _, .standard, settings.aliases⟩ := Repo.make_ok.2 ⟨_, hparse, rfl⟩
  refine ⟨_, hmake, Spec.instantiate_standard settings .anonymous source _ hmake, fun context => ?_⟩
  have hdouble : Double.ofInt (7 : Int64).toInt = ⟨0x401C000000000000⟩ := by decide +kernel
  rw [← hdouble]
  rfl

end ObjectSpec
