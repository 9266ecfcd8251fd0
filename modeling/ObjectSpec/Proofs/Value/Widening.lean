import ObjectSpec.Build
import ObjectSpec.Proofs.Double.Whole
import ObjectSpec.Proofs.Registry.Selection

/-!
# Arguments of a selected constructor

What widens to what is said in three places: by the parameters that take an argument, by
the widening itself and by the views of a value. They agree, so that a constructor which
was selected for its arguments can read each of them as what it declares
(`readable_of_select`). A widened integer is the same number as before.
-/

namespace ObjectSpec

section Widening
variable {σ : Type}

/-! ## Reading by kind -/

/-- What the views and accessors for a kind give. -/
abbrev Kind.Content (σ : Type) : Kind → Type
  | .integer => Int32
  | .long => Int64
  | .double => Double
  | .boolean => Bool
  | .text => String
  | .array => List (Value σ)
  | .map => List (String × Value σ)
  | .object _ => Object σ

/-- The view for a kind. -/
def Value.view (v : Value σ) : (kind : Kind) → Option (kind.Content σ)
  | .integer => v.integer?
  | .long => v.long?
  | .double => v.double?
  | .boolean => v.boolean?
  | .text => v.text?
  | .array => v.array?
  | .map => v.map?
  | .object _ => v.object?

/-- The accessor for a kind. -/
def Arguments.readAs (args : Arguments σ) (index : Nat) :
    (kind : Kind) → Except ConstructorError (kind.Content σ)
  | .integer => args.integer index
  | .long => args.long index
  | .double => args.double index
  | .boolean => args.boolean index
  | .text => args.text index
  | .array => args.array index
  | .map => args.map index
  | .object _ => args.object index

theorem Arguments.read_ok {α : Type} {wanted : String} {view : Value σ → Option α}
    {args : Arguments σ} {index : Nat} {v : Value σ} {a : α}
    (hv : args.values[index]? = some v) (ha : view v = some a) :
    args.read wanted view index = .ok a := by
  rw [read, hv]
  dsimp only
  rw [ha]

/-- An argument with a view can be read. -/
theorem Arguments.readAs_ok {args : Arguments σ} {index : Nat} {v : Value σ} {kind : Kind}
    {a : kind.Content σ} (hv : args.values[index]? = some v) (ha : v.view kind = some a) :
    args.readAs index kind = .ok a := by
  cases kind <;> exact read_ok hv ha

/-! ## What widens -/

/-- A value of the one kind is widened to the other. -/
inductive Widens : Kind → Kind → Prop
  | integerToLong : Widens .integer .long
  | integerToDouble : Widens .integer .double
  | longToDouble : Widens .long .double

theorem Param.accepts_only {wanted kind : Kind} :
    (Param.only wanted).accepts kind = true ↔ wanted = kind ∨ Widens kind wanted := by
  constructor
  · intro h
    unfold accepts at h
    rcases Bool.or_eq_true_iff.1 h with h | h
    · exact .inl (by simpa [acceptsExactly] using h)
    · split at h
      · next hp _ =>
        cases hp
        exact .inr .integerToLong
      · next hp _ =>
        cases hp
        exact .inr .integerToDouble
      · next hp _ =>
        cases hp
        exact .inr .longToDouble
      · next hp _ => cases hp
      · cases h
  · rintro (rfl | h)
    · simp [accepts, acceptsExactly]
    · cases h <;> rfl

theorem Value.widen_any (v : Value σ) : v.widen .any = v := rfl

/-- A value of the kind that is wanted stays as it is. -/
theorem Value.widen_self (v : Value σ) : v.widen (.only v.kind) = v := by cases v <;> rfl

theorem Value.view_self (v : Value σ) : ∃ a, v.view v.kind = some a := by
  cases v <;> exact ⟨_, rfl⟩

/-- A widened value is of the kind that is wanted, and it looks as it did before. -/
theorem Value.view_widen {v : Value σ} {wanted : Kind}
    (h : (Param.only wanted).accepts v.kind = true) :
    (v.widen (.only wanted)).kind = wanted ∧
      ∃ a, v.view wanted = some a ∧ (v.widen (.only wanted)).view wanted = some a := by
  rcases Param.accepts_only.1 h with rfl | hw
  · obtain ⟨a, ha⟩ := v.view_self
    exact ⟨by rw [widen_self], a, ha, by rw [widen_self, ha]⟩
  · cases v with
    | integer n => cases hw <;> exact ⟨rfl, _, rfl, rfl⟩
    | long n => cases hw; exact ⟨rfl, _, rfl, rfl⟩
    | _ => cases hw

/-! ## Integers -/

theorem Value.widen_integer_long (n : Int32) :
    ∃ m, (Value.integer n : Value σ).widen (.only .long) = .long m ∧ m.toInt = n.toInt :=
  ⟨n.toInt64, rfl, Int32.toInt_toInt64 n⟩

theorem Double.value_ofInt32 (n : Int32) :
    (ofInt n.toInt).isFinite = true ∧ (ofInt n.toInt).value = n.toInt := by
  have hle : n.toInt ≤ 2 ^ 31 - 1 := n.toInt_le
  have hge := n.le_toInt
  exact value_ofInt (by omega)

/-- The double of an integer is that number, also if it is a long in between. -/
theorem Value.widen_integer_double (n : Int32) :
    ∃ d, (Value.integer n : Value σ).widen (.only .double) = .double d ∧ d.isFinite = true ∧
      d.value = n.toInt ∧
      ((Value.integer n : Value σ).widen (.only .long)).widen (.only .double) = .double d := by
  obtain ⟨hfinite, hvalue⟩ := Double.value_ofInt32 n
  refine ⟨Double.ofInt n.toInt, rfl, hfinite, hvalue, ?_⟩
  show Value.double (Double.ofInt n.toInt64.toInt) = _
  rw [Int32.toInt_toInt64]

/-! ## Arguments of a selected signature -/

/-- The arguments that the constructor is called with. -/
def Signature.arguments (s : Signature σ) (typeName : String) (values : List (Value σ)) :
    Arguments σ := ⟨typeName, List.zipWith Value.widen s.params values⟩

/-- It is these that a build calls it with. -/
theorem Tree.finish_of_select {context : Context} {written registered : String}
    {candidates : List (Signature σ)} {values : List (Value σ)} {signature : Signature σ}
    (h : Overload.select Signature.params candidates (values.map Value.kind) = some signature) :
    finish context written registered candidates values =
      (signature.invoke (signature.arguments registered values) context).adaptExcept
        BuildError.construction := by
  funext s
  rw [finish]
  dsimp only
  rw [h]
  dsimp only
  rw [EStateM.adaptExcept, Signature.arguments]
  cases signature.invoke ⟨registered, List.zipWith Value.widen signature.params values⟩ context s <;>
    rfl

/-- What a constructor gets for one argument: the value itself for a parameter that takes anything,
and else a value of the wanted kind, which can be read and reads like the argument. -/
structure Readable (given got : Arguments σ) (i : Nat) (p : Param) (v w : Value σ) : Prop where
  any : p = .any → w = v
  exactly : ∀ kind, p = .only kind → p.acceptsExactly w.kind = true
  reads : ∀ kind, p = .only kind →
    ∃ a, got.readAs i kind = .ok a ∧ given.readAs i kind = .ok a
  /-- A widened integer is the same number, and the same double if it was a long in between. -/
  long : ∀ n, v = .integer n → p = .only .long → ∃ m, w = .long m ∧ m.toInt = n.toInt
  double : ∀ n, v = .integer n → p = .only .double →
    ∃ d, w = .double d ∧ d.isFinite = true ∧ d.value = n.toInt ∧
      (v.widen (.only .long)).widen (.only .double) = .double d

theorem readable_widen {given got : Arguments σ} {i : Nat} {p : Param} {v : Value σ}
    (hp : p.accepts v.kind = true) (hgiven : given.values[i]? = some v)
    (hgot : got.values[i]? = some (v.widen p)) : Readable given got i p v (v.widen p) where
  any := by
    rintro rfl
    exact v.widen_any
  exactly := by
    rintro kind rfl
    rw [Overload.acceptsExactly_iff, (Value.view_widen hp).1]
  reads := by
    rintro kind rfl
    obtain ⟨-, a, hv, hw⟩ := Value.view_widen hp
    exact ⟨a, Arguments.readAs_ok hgot hw, Arguments.readAs_ok hgiven hv⟩
  long := by
    rintro n rfl rfl
    exact Value.widen_integer_long n
  double := by
    rintro n rfl rfl
    exact Value.widen_integer_double n

/-- A constructor that was selected for the values gets one argument for each of them and of its
parameters, and can read it as what the parameter declares. -/
theorem readable_of_select (candidates : List (Signature σ)) (values : List (Value σ))
    (signature : Signature σ)
    (h : Overload.select Signature.params candidates (values.map Value.kind) = some signature)
    (typeName : String) :
    (∀ context written, Tree.finish context written typeName candidates values =
      (signature.invoke (signature.arguments typeName values) context).adaptExcept
        BuildError.construction) ∧
    signature.arity = values.length ∧
    (signature.arguments typeName values).size = values.length ∧
    ∀ i p v, signature.params[i]? = some p → values[i]? = some v →
      ∃ w, (signature.arguments typeName values).values[i]? = some w ∧
        Readable ⟨typeName, values⟩ (signature.arguments typeName values) i p v w := by
  have htakes := Overload.takes_of_select h
  have harity : signature.params.length = values.length := by
    rw [htakes.length_eq, List.length_map]
  refine ⟨fun _ _ => Tree.finish_of_select h, harity, ?_, fun i p v hp hv => ?_⟩
  · show (List.zipWith Value.widen signature.params values).length = _
    rw [List.length_zipWith, harity, Nat.min_self]
  · have hw : (List.zipWith Value.widen signature.params values)[i]? = some (v.widen p) := by
      rw [List.getElem?_zipWith, hp, hv]
    have hkind : p.accepts v.kind = true :=
      htakes.getElem? hp (by rw [List.getElem?_map, hv]; rfl)
    exact ⟨v.widen p, hw, readable_widen hkind hv hw⟩

end Widening

/-- A signature for a double and anything. -/
def doubleAndAny : Signature Unit :=
  ⟨[.only .double, .any], .plain fun _ s => .ok (.boolean true) s⟩

def integerAndText : List (Value Unit) := [.integer (-7), .text "x"]

/-- Behind a signature for two integers, which does not take the text, this one is selected. -/
theorem readable_of_select_integerAndText :
    Overload.select Signature.params
      [⟨[.only .integer, .only .integer], .plain fun _ s => .ok (.boolean false) s⟩, doubleAndAny]
      (integerAndText.map Value.kind) = some doubleAndAny ∧
    doubleAndAny.arity = 2 ∧ (doubleAndAny.arguments "a.B" integerAndText).size = 2 ∧
    ∃ w, (doubleAndAny.arguments "a.B" integerAndText).values[0]? = some w ∧
      Readable ⟨"a.B", integerAndText⟩ (doubleAndAny.arguments "a.B" integerAndText) 0
        (.only .double) (.integer (-7)) w := by
  have hselect : Overload.select Signature.params
      [⟨[.only .integer, .only .integer], .plain fun _ s => .ok (.boolean false) s⟩, doubleAndAny]
      (integerAndText.map Value.kind) = some doubleAndAny := by rfl
  obtain ⟨-, harity, hsize, hreads⟩ :=
    readable_of_select _ integerAndText doubleAndAny hselect "a.B"
  exact ⟨hselect, harity, hsize, hreads 0 _ _ rfl rfl⟩

end ObjectSpec
