import ObjectSpec.Proofs.Entries
import ObjectSpec.Value.Basic

/-!
# Equality of values

Values are equal just if one of the cases of `Matches` holds (`Value.same_iff`), and the laws of
equality are read off these cases. A map is compared from the left: each of its keys must lead to an
equal value on the right. Since keys are distinct (`Value.Keyed`), maps of one length that are
equal from the left have the same keys (`Entries.keys_perm`), and are equal from the right.

A value equals itself unless a double in it is no number. The order of entries does not matter, at
any depth (`Value.Reordered`), be there such doubles or not.
-/

namespace ObjectSpec

/-! ## Doubles -/

namespace Double

theorem same_iff {a b : Double} :
    a.same b = true ↔ a.isNaN = false ∧ b.isNaN = false ∧
      (a = b ∨ a.magnitude = 0 ∧ b.magnitude = 0) := by
  have hbits : a.bits = b.bits ↔ a = b := by
    cases a
    cases b
    simp
  simp [same, hbits, and_assoc]

theorem same_symm {a b : Double} (h : a.same b = true) : b.same a = true := by
  rw [same_iff] at *
  obtain ⟨ha, hb, h⟩ := h
  exact ⟨hb, ha, h.imp Eq.symm And.symm⟩

theorem same_trans {a b c : Double} (hab : a.same b = true) (hbc : b.same c = true) :
    a.same c = true := by
  rw [same_iff] at *
  obtain ⟨ha, -, hab⟩ := hab
  obtain ⟨-, hc, hbc⟩ := hbc
  refine ⟨ha, hc, ?_⟩
  rcases hab with rfl | ⟨ha0, hb0⟩
  · exact hbc
  · rcases hbc with rfl | ⟨-, hc0⟩
    · exact .inr ⟨ha0, hb0⟩
    · exact .inr ⟨ha0, hc0⟩

theorem same_self_iff {a : Double} : a.same a = true ↔ a.isNaN = false := by
  rw [same_iff]
  constructor
  · exact fun h => h.1
  · exact fun h => ⟨h, h, .inl rfl⟩

end Double

namespace Value

variable {σ : Type}

/-! ## What is in a value -/

/-- What stands right in a value. -/
def parts : Value σ → List (Value σ)
  | .array items => items
  | .map entries => entries.map Prod.snd
  | _ => []

theorem mem_parts_map {entries : List (String × Value σ)} {key : String} {x : Value σ}
    (h : (key, x) ∈ entries) : x ∈ (map entries).parts := List.mem_map_of_mem h

/-- What is true of a value if it is of its parts is true of all values. -/
theorem inductParts {P : Value σ → Prop} (step : ∀ v, (∀ part ∈ v.parts, P part) → P v)
    (v : Value σ) : P v := by
  have leaf : ∀ v : Value σ, v.parts = [] → P v := fun v h => step v (by simp [h])
  refine @Value.rec σ P (fun vs => ∀ v ∈ vs, P v) (fun es => ∀ e ∈ es, P e.2) (fun e => P e.2)
    (fun _ => leaf _ rfl) (fun _ => leaf _ rfl) (fun _ => leaf _ rfl) (fun _ => leaf _ rfl)
    (fun _ => leaf _ rfl) ?_ ?_ (fun _ => leaf _ rfl) ?_ ?_ ?_ ?_ (fun _ _ h => h) v
  · exact fun items h => step _ h
  · intro entries h
    apply step
    intro part hpart
    obtain ⟨e, he, rfl⟩ := List.mem_map.1 hpart
    exact h e he
  · simp
  · exact fun v vs hv hvs => List.forall_mem_cons.2 ⟨hv, hvs⟩
  · simp
  · exact fun e es he hes => List.forall_mem_cons.2 ⟨he, hes⟩

/-- The value is the other one, or stands in it at some depth. -/
inductive Occurs (u : Value σ) : Value σ → Prop
  | here : Occurs u u
  | part {v part} : part ∈ v.parts → Occurs u part → Occurs u v

/-- Whatever is in the value has a property. -/
def Throughout (P : Value σ → Prop) (v : Value σ) : Prop := ∀ u, Occurs u v → P u

theorem throughout_iff {P : Value σ → Prop} {v : Value σ} :
    v.Throughout P ↔ P v ∧ ∀ part ∈ v.parts, part.Throughout P := by
  constructor
  · intro h
    exact ⟨h v .here, fun part hpart u hu => h u (.part hpart hu)⟩
  · rintro ⟨hself, hparts⟩ u hu
    cases hu with
    | here => exact hself
    | part hpart hu => exact hparts _ hpart u hu

theorem throughout_leaf {P : Value σ → Prop} {v : Value σ} (h : v.parts = []) :
    v.Throughout P ↔ P v := by
  rw [throughout_iff, h]
  simp

theorem throughout_array {P : Value σ → Prop} {items : List (Value σ)} :
    (array items).Throughout P ↔ P (.array items) ∧ ∀ x ∈ items, x.Throughout P := throughout_iff

theorem throughout_map {P : Value σ → Prop} {entries : List (String × Value σ)} :
    (map entries).Throughout P ↔ P (.map entries) ∧ ∀ e ∈ entries, e.2.Throughout P := by
  rw [throughout_iff, parts, List.forall_mem_map]

theorem Throughout.imp {P Q : Value σ → Prop} {v : Value σ} (h : v.Throughout P)
    (hPQ : ∀ u, P u → Q u) : v.Throughout Q := fun u hu => hPQ u (h u hu)

/-- If it is a map, its keys are distinct. -/
def DistinctKeys : Value σ → Prop
  | .map entries => (Entries.keys entries).Nodup
  | _ => True

/-- If it is a double, it is a number. -/
def NotNaN : Value σ → Prop
  | .double d => d.isNaN = false
  | _ => True

/-- The keys of each map in the value are distinct. -/
def Keyed (v : Value σ) : Prop := v.Throughout DistinctKeys

/-- Each double in the value is a number. -/
def Numeric (v : Value σ) : Prop := v.Throughout NotNaN

theorem Keyed.part {v part : Value σ} (h : v.Keyed) (hpart : part ∈ v.parts) : part.Keyed :=
  (throughout_iff.1 h).2 part hpart

theorem Keyed.nodup {entries : List (String × Value σ)} (h : (map entries).Keyed) :
    (Entries.keys entries).Nodup := (throughout_iff.1 h).1

/-! ## The cases of equality -/

/-- When values are equal, one case for each kind. -/
inductive Matches : Value σ → Value σ → Prop
  | integer (n) : Matches (.integer n) (.integer n)
  | long (n) : Matches (.long n) (.long n)
  | double {a b} : a.same b = true → Matches (.double a) (.double b)
  | boolean (b) : Matches (.boolean b) (.boolean b)
  | text (s) : Matches (.text s) (.text s)
  | array {xs ys} : xs.length = ys.length →
      (∀ (i : Nat) (x y : Value σ), xs[i]? = some x → ys[i]? = some y → x.same y = true) →
      Matches (.array xs) (.array ys)
  | map {es fs} : es.length = fs.length →
      (∀ key x, (key, x) ∈ es → ∃ y, fs.lookup key = some y ∧ x.same y = true) →
      Matches (.map es) (.map fs)
  | object {a b} : a.identity = b.identity → Matches (.object a) (.object b)

theorem sameList_iff {xs ys : List (Value σ)} :
    sameList xs ys = true ↔ xs.length = ys.length ∧
      ∀ (i : Nat) (x y : Value σ), xs[i]? = some x → ys[i]? = some y → x.same y = true := by
  induction xs generalizing ys with
  | nil => cases ys <;> simp [sameList]
  | cons x xs ih =>
    cases ys with
    | nil => simp [sameList]
    | cons y ys =>
      rw [sameList, Bool.and_eq_true, ih]
      constructor
      · rintro ⟨hxy, hlength, h⟩
        refine ⟨by simp [hlength], fun i a b ha hb => ?_⟩
        cases i with
        | zero =>
          cases ha
          cases hb
          exact hxy
        | succ i => exact h i a b ha hb
      · rintro ⟨hlength, h⟩
        exact ⟨h 0 x y rfl rfl, Nat.succ.inj hlength, fun i => h (i + 1)⟩

theorem sameEntries_iff {es fs : List (String × Value σ)} :
    sameEntries es fs = true ↔
      ∀ key x, (key, x) ∈ es → ∃ y, fs.lookup key = some y ∧ x.same y = true := by
  induction es with
  | nil => simp [sameEntries]
  | cons e es ih =>
    obtain ⟨key, x⟩ := e
    rw [sameEntries, Bool.and_eq_true, ih]
    constructor
    · rintro ⟨hhead, htail⟩ k z hmem
      rcases List.mem_cons.1 hmem with heq | hmem
      · cases heq
        cases hlookup : fs.lookup key with
        | none =>
          rw [hlookup] at hhead
          cases hhead
        | some y =>
          rw [hlookup] at hhead
          exact ⟨y, rfl, hhead⟩
      · exact htail k z hmem
    · intro h
      obtain ⟨y, hlookup, hsame⟩ := h key x List.mem_cons_self
      refine ⟨?_, fun k z hmem => h k z (List.mem_cons_of_mem _ hmem)⟩
      rw [hlookup]
      exact hsame

theorem same_iff {v w : Value σ} : v.same w = true ↔ Matches v w := by
  constructor
  · intro h
    unfold same at h
    split at h
    · cases beq_iff_eq.1 h
      exact .integer _
    · cases beq_iff_eq.1 h
      exact .long _
    · exact .double h
    · cases beq_iff_eq.1 h
      exact .boolean _
    · cases beq_iff_eq.1 h
      exact .text _
    · obtain ⟨hlength, hitems⟩ := sameList_iff.1 h
      exact .array hlength hitems
    · obtain ⟨hlength, hentries⟩ := Bool.and_eq_true_iff.1 h
      exact .map (beq_iff_eq.1 hlength) (sameEntries_iff.1 hentries)
    · exact .object (beq_iff_eq.1 h)
    · cases h
  · intro h
    cases h with
    | integer n => simp [same]
    | long n => simp [same]
    | double h => simpa [same] using h
    | boolean b => simp [same]
    | text s => simp [same]
    | array hlength h => rw [same, sameList_iff.2 ⟨hlength, h⟩]
    | map hlength h => simp [same, hlength, sameEntries_iff.2 h]
    | object h => simp [same, Object.same, h]

/-! ## Symmetry and transitivity -/

/-- If maps of one length are equal from the left, each entry on the right has an equal value on
the left. -/
theorem exists_left {es fs : List (String × Value σ)} (hes : (Entries.keys es).Nodup)
    (hfs : (Entries.keys fs).Nodup) (hlength : es.length = fs.length)
    (h : ∀ key x, (key, x) ∈ es → ∃ y, fs.lookup key = some y ∧ x.same y = true) {key : String}
    {y : Value σ} (hy : (key, y) ∈ fs) : ∃ x, (key, x) ∈ es ∧ x.same y = true := by
  have hsub : Entries.keys es ⊆ Entries.keys fs := by
    intro k hk
    obtain ⟨x, hx⟩ := Entries.exists_lookup hk
    obtain ⟨z, hz, -⟩ := h k x (Entries.mem_of_lookup hx)
    exact Entries.mem_keys (Entries.mem_of_lookup hz)
  -- There are as many distinct keys on the left, so no key is on the right alone.
  have hkeys : (Entries.keys es).Perm (Entries.keys fs) := Entries.keys_perm hes hlength hsub
  obtain ⟨x, hx⟩ := Entries.exists_lookup (hkeys.symm.subset (Entries.mem_keys hy))
  obtain ⟨z, hz, hsame⟩ := h key x (Entries.mem_of_lookup hx)
  rw [Entries.lookup_of_mem hfs hy] at hz
  cases hz
  exact ⟨x, Entries.mem_of_lookup hx, hsame⟩

theorem same_symm {v w : Value σ} (hv : v.Keyed) (hw : w.Keyed) (h : v.same w = true) :
    w.same v = true := by
  induction v using inductParts generalizing w with
  | step v ih =>
    rw [same_iff] at h ⊢
    cases h with
    | integer n => exact .integer n
    | long n => exact .long n
    | double h => exact .double (Double.same_symm h)
    | boolean b => exact .boolean b
    | text s => exact .text s
    | array hlength h =>
      refine .array hlength.symm fun i y x hy hx => ?_
      have hxpart := List.mem_of_getElem? hx
      have hypart := List.mem_of_getElem? hy
      exact ih x hxpart (hv.part hxpart) (hw.part hypart) (h i x y hx hy)
    | map hlength h =>
      refine .map hlength.symm fun key y hy => ?_
      obtain ⟨x, hx, hsame⟩ := exists_left hv.nodup hw.nodup hlength h hy
      have hxpart := mem_parts_map hx
      have hypart := mem_parts_map hy
      exact ⟨x, Entries.lookup_of_mem hv.nodup hx,
        ih x hxpart (hv.part hxpart) (hw.part hypart) hsame⟩
    | object h => exact .object h.symm

theorem same_comm {v w : Value σ} (hv : v.Keyed) (hw : w.Keyed) : v.same w = w.same v :=
  Bool.eq_iff_iff.2 ⟨same_symm hv hw, same_symm hw hv⟩

theorem same_trans {v w u : Value σ} (hvw : v.same w = true) (hwu : w.same u = true) :
    v.same u = true := by
  induction v using inductParts generalizing w u with
  | step v ih =>
    rw [same_iff] at *
    cases hvw with
    | integer n => exact hwu
    | long n => exact hwu
    | double hab =>
      cases hwu with
      | double hbc => exact .double (Double.same_trans hab hbc)
    | boolean b => exact hwu
    | text s => exact hwu
    | @array xs ys hlength h =>
      cases hwu with
      | array hlength' h' =>
        refine .array (hlength.trans hlength') fun i x z hx hz => ?_
        -- The item in the middle stands at the same index.
        have hi : i < ys.length := by
          rw [← hlength]
          exact (List.getElem?_eq_some_iff.1 hx).1
        have hy : ys[i]? = some ys[i] := List.getElem?_eq_getElem hi
        exact ih x (List.mem_of_getElem? hx) (h i x _ hx hy) (h' i _ z hy hz)
    | map hlength h =>
      cases hwu with
      | map hlength' h' =>
        refine .map (hlength.trans hlength') fun key x hx => ?_
        obtain ⟨y, hy, hxy⟩ := h key x hx
        obtain ⟨z, hz, hyz⟩ := h' key y (Entries.mem_of_lookup hy)
        exact ⟨z, hz, ih x (mem_parts_map hx) hxy hyz⟩
    | object hab =>
      cases hwu with
      | object hbc => exact .object (hab.trans hbc)

/-! ## A value and its copy -/

theorem copyList_eq {xs : List (Value σ)} (h : ∀ x ∈ xs, x.copy = x) : copyList xs = xs := by
  induction xs with
  | nil => rfl
  | cons x xs ih =>
    obtain ⟨hx, hxs⟩ := List.forall_mem_cons.1 h
    rw [copyList, hx, ih hxs]

theorem copyEntries_eq {es : List (String × Value σ)} (h : ∀ e ∈ es, e.2.copy = e.2) :
    copyEntries es = es := by
  induction es with
  | nil => rfl
  | cons e es ih =>
    obtain ⟨he, hes⟩ := List.forall_mem_cons.1 h
    rw [copyEntries, he, ih hes]

theorem copy_eq (v : Value σ) : v.copy = v := by
  induction v using inductParts with
  | step v ih =>
    cases v with
    | array items =>
      have hitems : copyList items = items := copyList_eq ih
      rw [copy, hitems]
    | map entries => rw [copy, copyEntries_eq fun e he => ih e.2 (mem_parts_map he)]
    | _ => rfl

/-- A value equals itself just if each double in it is a number. -/
theorem same_self_iff {v : Value σ} (h : v.Keyed) : v.same v = true ↔ v.Numeric := by
  induction v using inductParts with
  | step v ih =>
    have hparts : (∀ part ∈ v.parts, part.same part = true) ↔ ∀ part ∈ v.parts, part.Numeric :=
      forall₂_congr fun part hpart => ih part hpart (h.part hpart)
    rw [Numeric, throughout_iff]
    show _ ↔ NotNaN v ∧ ∀ part ∈ v.parts, part.Numeric
    rw [← hparts]
    cases v with
    | double d => simp [same, NotNaN, parts, Double.same_self_iff]
    | array items =>
      rw [same, sameList_iff]
      constructor
      · rintro ⟨-, hsame⟩
        refine ⟨trivial, fun x hx => ?_⟩
        obtain ⟨i, hi⟩ := List.getElem?_of_mem hx
        exact hsame i x x hi hi
      · rintro ⟨-, hsame⟩
        refine ⟨rfl, fun i x y hx hy => ?_⟩
        rw [hx] at hy
        cases hy
        exact hsame x (List.mem_of_getElem? hx)
    | map entries =>
      rw [same, Bool.and_eq_true, sameEntries_iff]
      constructor
      · rintro ⟨-, hsame⟩
        refine ⟨trivial, fun x hx => ?_⟩
        obtain ⟨⟨key, _⟩, hmem, rfl⟩ := List.mem_map.1 hx
        obtain ⟨y, hy, hxy⟩ := hsame key _ hmem
        rw [Entries.lookup_of_mem h.nodup hmem] at hy
        cases hy
        exact hxy
      · rintro ⟨-, hsame⟩
        refine ⟨by simp, fun key x hx => ?_⟩
        exact ⟨x, Entries.lookup_of_mem h.nodup hx, hsame x (mem_parts_map hx)⟩
    | _ => simp [same, Object.same, NotNaN, parts]

example : (array [double ⟨0x7FF8000000000000⟩] : Value Unit).same
    (array [double ⟨0x7FF8000000000000⟩]) = false := by decide +kernel

/-! ## Another order of entries -/

/-- The entries of maps in the value, at any depth, have been put in another order. -/
inductive Reordered : Value σ → Value σ → Prop
  | refl (v) : Reordered v v
  | trans {v w u} : Reordered v w → Reordered w u → Reordered v u
  | entries {es fs} : es.Perm fs → Reordered (.map es) (.map fs)
  | item {older x y newer} : Reordered x y →
      Reordered (.array (older ++ x :: newer)) (.array (older ++ y :: newer))
  | value {older key x y newer} : Reordered x y →
      Reordered (.map (older ++ (key, x) :: newer)) (.map (older ++ (key, y) :: newer))

theorem sameList_congr {x y : Value σ} (h : ∀ u, x.same u = y.same u)
    (older newer zs : List (Value σ)) :
    sameList (older ++ x :: newer) zs = sameList (older ++ y :: newer) zs := by
  induction older generalizing zs with
  | nil =>
    cases zs with
    | nil => rfl
    | cons z zs => rw [List.nil_append, List.nil_append, sameList, sameList, h]
  | cons o older ih =>
    cases zs with
    | nil => rfl
    | cons z zs => rw [List.cons_append, List.cons_append, sameList, sameList, ih]

theorem sameEntries_congr {x y : Value σ} (h : ∀ u, x.same u = y.same u) (key : String)
    (older newer fs : List (String × Value σ)) :
    sameEntries (older ++ (key, x) :: newer) fs = sameEntries (older ++ (key, y) :: newer) fs := by
  induction older with
  | nil =>
    rw [List.nil_append, List.nil_append, sameEntries, sameEntries]
    cases fs.lookup key with
    | none => rfl
    | some z =>
      dsimp only
      rw [h]
  | cons o older ih => rw [List.cons_append, List.cons_append, sameEntries, sameEntries, ih]

theorem Reordered.same_eq {v w : Value σ} (h : Reordered v w) (u : Value σ) :
    v.same u = w.same u := by
  induction h generalizing u with
  | refl v => rfl
  | trans _ _ ihvw ihwu => rw [ihvw, ihwu]
  | @entries es fs hperm =>
    cases u with
    | map gs =>
      -- The map on the left is read entry by entry, whatever their order is.
      rw [same, same, hperm.length_eq]
      congr 1
      rw [Bool.eq_iff_iff, sameEntries_iff, sameEntries_iff]
      simp only [hperm.mem_iff]
    | _ => rfl
  | item _ ih =>
    cases u with
    | array zs => rw [same, same, sameList_congr ih]
    | _ => rfl
  | value _ ih =>
    cases u with
    | map gs =>
      rw [same, same, sameEntries_congr ih]
      simp
    | _ => rfl

theorem Reordered.keyed {v w : Value σ} (h : Reordered v w) (hv : v.Keyed) : w.Keyed := by
  unfold Keyed at *
  induction h with
  | refl v => exact hv
  | trans _ _ ihvw ihwu => exact ihwu (ihvw hv)
  | entries hperm =>
    rw [throughout_map] at *
    exact ⟨(hperm.map Prod.fst).nodup_iff.1 hv.1, fun e he => hv.2 e (hperm.mem_iff.2 he)⟩
  | item _ ih =>
    rw [throughout_array, List.forall_mem_append, List.forall_mem_cons] at *
    exact ⟨trivial, hv.2.1, ih hv.2.2.1, hv.2.2.2⟩
  | value _ ih =>
    rw [throughout_map, List.forall_mem_append, List.forall_mem_cons] at *
    refine ⟨?_, hv.2.1, ih hv.2.2.1, hv.2.2.2⟩
    simpa [DistinctKeys, Entries.keys] using hv.1

/-- Equality of values is symmetric and transitive. A value equals itself, and its copy, just if
each double in it is a number. With the entries of its maps in another order, a value is equal to
the same values as before. -/
theorem same_laws :
    (∀ v w : Value σ, v.Keyed → w.Keyed → v.same w = w.same v) ∧
    (∀ v w u : Value σ, v.same w = true → w.same u = true → v.same u = true) ∧
    (∀ v : Value σ, v.Keyed →
      (v.same v = true ↔ v.Numeric) ∧ (v.same v.copy = true ↔ v.Numeric)) ∧
    ∀ v w u : Value σ, Reordered v w → v.Keyed → u.Keyed →
      v.same u = w.same u ∧ u.same v = u.same w := by
  refine ⟨fun v w => same_comm, fun v w u => same_trans, fun v hv => ?_, fun v w u h hv hu => ?_⟩
  · rw [copy_eq]
    exact ⟨same_self_iff hv, same_self_iff hv⟩
  · refine ⟨h.same_eq u, ?_⟩
    rw [same_comm hu hv, same_comm hu (h.keyed hv), h.same_eq]

/-- Two maps, one of them in an array in the other. -/
def nested : Value Unit :=
  .map [("a", .double ⟨0⟩), ("b", .array [.map [("c", .integer 1), ("d", .text "")]])]

/-- The entries of both maps in the other order. -/
def turned : Value Unit :=
  .map [("b", .array [.map [("d", .text ""), ("c", .integer 1)]]), ("a", .double ⟨0⟩)]

theorem nested_reordered : Reordered nested turned := by
  have hinner : Reordered (.map [("c", .integer 1), ("d", .text "")] : Value Unit)
      (.map [("d", .text ""), ("c", .integer 1)]) := .entries (List.Perm.swap _ _ [])
  have hitem := @Reordered.item Unit [] _ _ [] hinner
  have hvalue := @Reordered.value Unit [("a", .double ⟨0⟩)] "b" _ _ [] hitem
  exact hvalue.trans (.entries (List.Perm.swap _ _ []))

theorem same_laws_nested :
    (nested.Keyed ∧ turned.Keyed ∧ nested.same turned = turned.same nested) ∧
    (nested.same turned = true ∧ turned.same nested = true ∧ nested.same nested = true) ∧
    ((nested.same nested = true ↔ nested.Numeric) ∧
      (nested.same nested.copy = true ↔ nested.Numeric)) ∧
    Reordered nested turned ∧ nested.same turned = turned.same turned ∧
      turned.same nested = turned.same turned := by
  have hleaf : ∀ v : Value Unit, v.parts = [] → v.DistinctKeys → v.Throughout DistinctKeys :=
    fun v hparts hv => (throughout_leaf hparts).2 hv
  have hnested : nested.Keyed := by
    simpa [nested, Keyed, throughout_map, throughout_array, DistinctKeys, Entries.keys] using
      ⟨hleaf (.double ⟨0⟩) rfl trivial, hleaf (.integer 1) rfl trivial,
        hleaf (.text "") rfl trivial⟩
  have hturned : turned.Keyed := nested_reordered.keyed hnested
  have hforth : nested.same turned = true := by decide +kernel
  have hback : turned.same nested = true := by decide +kernel
  exact ⟨⟨hnested, hturned, same_laws.1 nested turned hnested hturned⟩,
    ⟨hforth, hback, same_laws.2.1 nested turned nested hforth hback⟩,
    same_laws.2.2.1 nested hnested,
    nested_reordered, same_laws.2.2.2 nested turned turned nested_reordered hnested hturned⟩

end Value

end ObjectSpec
