import ObjectSpec.Proofs.Build.Failure
import ObjectSpec.Proofs.Build.Lookups
import ObjectSpec.Proofs.Entries

/-!
# What a map is built to

The values of a map are built one after the other, also those whose key comes again (`InTurn`). The
map that they make has each key where it first came, with the value of its last entry (`Collected`).
If one of the values is not built, its error is the error of the map, and no later one is begun.
Both are in `Tree.build_map`.
-/

namespace ObjectSpec

/-! ## Entries one after the other -/

namespace Entries

variable {α : Type}

/-- Keys and values side by side: in front of an entry, the entry, and behind it. -/
theorem zip_split {β : Type} {older newer : List (String × α)} {key : String} {a : α}
    {before after : List β} (b : β) (h : before.length = older.length) :
    (keys (older ++ (key, a) :: newer)).zip (before ++ b :: after) =
      (keys older).zip before ++ (key, b) :: (keys newer).zip after := by
  have hlength : (older.map Prod.fst).length = before.length := by rw [List.length_map, h]
  unfold keys
  rw [List.map_append, List.map_cons, List.zip_append hlength, List.zip_cons_cons]

end Entries

/-! ## One value after the other -/

section Mapping
variable {σ : Type} (registry : Registry σ) (aliases : Aliases) (context : Context)

/-- The trees are built in turn, each of them once and in the state that the one before it leaves.
The calls are those for the first tree, then those for the next one, and so on. -/
inductive InTurn : σ → List Tree → List (Value σ) → List (Invocation σ) → σ → Prop
  | nil {s} : InTurn s [] [] [] s
  | cons {s t v next ts values calls final} : t.build registry aliases context s = .ok v next →
      InTurn next ts values calls final →
      InTurn s (t :: ts) (v :: values) (t.calls registry aliases context s ++ calls) final

/-- The values in front of an entry are built in turn, and its own value is not. The calls are those
for all of these values. -/
inductive FailsInTurn : List (String × Tree) → σ → List (Invocation σ) → BuildError → σ → Prop
  | mk {older key t newer s values calls next e final} :
      InTurn registry aliases context s (older.map Prod.snd) values calls next →
      t.build registry aliases context next = .error e final →
      FailsInTurn (older ++ (key, t) :: newer) s
        (calls ++ t.calls registry aliases context next) e final

/-- The entries of a map that is built: each key stands where it first came, and has the value that
its last entry was built to in its turn. -/
structure Collected (entries : List (String × Tree)) (s : σ) (built : List (String × Value σ)) :
    Prop where
  keys_eq : Entries.keys built = (Entries.keys entries).eraseDups
  last_wins : ∀ older key t newer, entries = older ++ (key, t) :: newer →
    key ∉ Entries.keys newer → ∃ values calls next v final,
      InTurn registry aliases context s (older.map Prod.snd) values calls next ∧
      t.build registry aliases context next = .ok v final ∧ built.lookup key = some v

variable {registry aliases context}

namespace Tree

theorem callsEntries_eq (es : List (String × Tree)) (s : σ) :
    callsEntries registry aliases context es s =
      callsList registry aliases context (es.map Prod.snd) s := by
  induction es generalizing s with
  | nil => rfl
  | cons e es ih =>
    obtain ⟨key, t⟩ := e
    rw [callsEntries, List.map_cons, callsList, funext fun v => funext (ih ·)]

/-- In turn is how a list of trees is built. -/
theorem inTurn_iff {ts : List Tree} {s final : σ} {values : List (Value σ)}
    {calls : List (Invocation σ)} :
    InTurn registry aliases context s ts values calls final ↔
      buildList registry aliases context ts s = .ok values final ∧
      callsList registry aliases context ts s = calls := by
  constructor
  · intro h
    induction h with
    | nil => exact ⟨rfl, rfl⟩
    | cons ht _ ih =>
      constructor
      · rw [buildList, bind_of_ok ht, bind_of_ok ih.1]
        rfl
      · rw [callsList, ht, callsAfter, ih.2]
  · rintro ⟨h, rfl⟩
    induction ts generalizing s values with
    | nil =>
      cases h
      exact .nil
    | cons t ts ih =>
      rw [buildList] at h
      obtain ⟨v, next, ht, h⟩ := bind_ok.1 h
      obtain ⟨vs, last, hvs, h⟩ := bind_ok.1 h
      cases h
      rw [callsList, ht, callsAfter]
      exact .cons ht (ih hvs)

end Tree

namespace InTurn

/-- The trees in front are built before a tree, and those behind it afterwards. -/
theorem split {older newer : List Tree} {t : Tree} {s final : σ} {values : List (Value σ)}
    {calls : List (Invocation σ)}
    (h : InTurn registry aliases context s (older ++ t :: newer) values calls final) :
    ∃ before own next v last after,
      InTurn registry aliases context s older before own next ∧
      t.build registry aliases context next = .ok v last ∧ values = before ++ v :: after ∧
      before.length = older.length := by
  induction older generalizing s values calls with
  | nil =>
    cases h with
    | cons ht _ => exact ⟨[], [], s, _, _, _, .nil, ht, rfl, rfl⟩
  | cons u older ih =>
    cases h with
    | cons hu h =>
      obtain ⟨before, own, next, v, last, after, holder, ht, rfl, hlength⟩ := ih h
      exact ⟨_ :: before, _, next, v, last, after, .cons hu holder, ht, rfl, by simp [hlength]⟩

/-- The calls up to a tree that is not built are those for the trees in front and its own. -/
theorem calls_of_error {older : List Tree} {t : Tree} (newer : List Tree) {s next final : σ}
    {values : List (Value σ)} {calls : List (Invocation σ)} {e : BuildError}
    (h : InTurn registry aliases context s older values calls next)
    (ht : t.build registry aliases context next = .error e final) :
    Tree.callsList registry aliases context (older ++ t :: newer) s =
      calls ++ t.calls registry aliases context next := by
  induction h with
  | nil => rw [List.nil_append, Tree.callsList, ht, callsAfter, List.append_nil, List.nil_append]
  | cons hu _ ih => rw [List.cons_append, Tree.callsList, hu, callsAfter, ih ht, List.append_assoc]

end InTurn

/-! ## The map -/

theorem collected_zip {entries : List (String × Tree)} {s final : σ} {values : List (Value σ)}
    {calls : List (Invocation σ)}
    (h : InTurn registry aliases context s (entries.map Prod.snd) values calls final) :
    Collected registry aliases context entries s
      (Entries.ofList ((Entries.keys entries).zip values)) := by
  constructor
  · have hlength : values.length = entries.length := by
      rw [Tree.length_buildList (Tree.inTurn_iff.1 h).1, List.length_map]
    have hzip : Entries.keys ((Entries.keys entries).zip values) = Entries.keys entries :=
      List.map_fst_zip (by simp [Entries.keys, hlength])
    rw [Entries.keys_ofList, hzip]
  · rintro older key t newer rfl hnewer
    rw [List.map_append, List.map_cons] at h
    obtain ⟨before, own, next, v, last, after, holder, ht, rfl, hlength⟩ := h.split
    rw [List.length_map] at hlength
    have hafter : key ∉ Entries.keys ((Entries.keys newer).zip after) := by
      intro hmem
      obtain ⟨pair, hpair, rfl⟩ := List.mem_map.1 hmem
      exact hnewer (List.of_mem_zip hpair).1
    refine ⟨before, own, next, v, last, holder, ht, ?_⟩
    rw [Entries.zip_split v hlength]
    exact Entries.lookup_ofList _ v hafter

variable (registry aliases context)

/-- If the values of a map's entries are built in turn, the map has each key where it first came,
with the value of its last entry, and the calls are those for all values. If one value is not built,
its error is that of the map, and nothing behind it is built. One of the two is the case. -/
theorem Tree.build_map (entries : List (String × Tree)) (span : Span) (s : σ) :
    (∀ values calls final,
      InTurn registry aliases context s (entries.map Prod.snd) values calls final →
      (map entries span).calls registry aliases context s = calls ∧
      ∃ built, (map entries span).build registry aliases context s = .ok (.map built) final ∧
        Collected registry aliases context entries s built) ∧
    (∀ calls e final, FailsInTurn registry aliases context entries s calls e final →
      (map entries span).calls registry aliases context s = calls ∧
      (map entries span).build registry aliases context s = .error e final) ∧
    ((∃ values calls final,
        InTurn registry aliases context s (entries.map Prod.snd) values calls final) ∨
      ∃ calls e final, FailsInTurn registry aliases context entries s calls e final) := by
  refine ⟨?_, ?_, ?_⟩
  · intro values calls final h
    obtain ⟨hbuilt, hcalls⟩ := inTurn_iff.1 h
    have hentries : buildEntries registry aliases context entries s =
        .ok ((Entries.keys entries).zip values) final := by
      rw [buildEntries_eq, bind_of_ok hbuilt]
      rfl
    refine ⟨?_, _, ?_, collected_zip h⟩
    · rw [Tree.calls, callsEntries_eq, hcalls]
    · rw [build, bind_of_ok hentries]
      rfl
  · intro calls e final h
    cases h with
    | @mk older key t newer _ values calls next _ _ h ht =>
      constructor
      · rw [Tree.calls, callsEntries_eq, List.map_append, List.map_cons, h.calls_of_error _ ht]
      · have hentered : Entered registry aliases (map (older ++ (key, t) :: newer) span) := trivial
        apply build_of_parts_error hentered
        rw [parts, List.map_append, List.map_cons]
        exact buildList_of_error (inTurn_iff.1 h).1 ht
  · cases hvs : buildList registry aliases context (entries.map Prod.snd) s with
    | ok values final => exact .inl ⟨values, _, final, inTurn_iff.2 ⟨hvs, rfl⟩⟩
    | error e final =>
      obtain ⟨older, t, newer, values, next, hsplit, holder, ht⟩ := buildList_error hvs
      obtain ⟨front, behind, rfl, rfl, hbehind⟩ := List.map_eq_append_iff.1 hsplit
      obtain ⟨⟨key, u⟩, more, rfl, rfl, rfl⟩ := List.map_eq_cons_iff.1 hbehind
      exact .inr ⟨_, e, final, .mk (inTurn_iff.2 ⟨holder, rfl⟩) ht⟩

end Mapping

/-- One type, whose constructor gives the number of calls that came before it. -/
def counting : Registry Nat where
  types := [("T", [⟨[], .plain fun _ n => .ok (.integer (.ofNat n)) (n + 1)⟩])]

/-- The call `T()` -/
def count : Tree := .construct "T" [] ⟨0, 3⟩

/-- Three calls for two keys, and three again of which the second is to an unknown type. -/
theorem Tree.build_map_repeatedKey :
    (∃ calls, InTurn counting [] {} 0 [count, count, count] [.integer 0, .integer 1, .integer 2]
        calls 3 ∧
      (map [("a", count), ("b", count), ("a", count)] ⟨0, 27⟩).calls counting [] {} 0 = calls ∧
      ∃ built, (map [("a", count), ("b", count), ("a", count)] ⟨0, 27⟩).build counting [] {} 0 =
          .ok (.map built) 3 ∧
        Collected counting [] {} [("a", count), ("b", count), ("a", count)] 0 built) ∧
    ∃ calls, FailsInTurn counting [] {} [("a", count), ("b", construct "F" [] {}), ("a", count)] 0
        calls (.notFound "F") 1 ∧
      (map [("a", count), ("b", construct "F" [] {}), ("a", count)] ⟨0, 27⟩).calls
        counting [] {} 0 = calls ∧
      (map [("a", count), ("b", construct "F" [] {}), ("a", count)] ⟨0, 27⟩).build
        counting [] {} 0 = .error (.notFound "F") 1 := by
  have hall : InTurn counting [] {} 0 [count, count, count]
      [.integer 0, .integer 1, .integer 2] _ 3 := .cons rfl (.cons rfl (.cons rfl .nil))
  have hone : InTurn counting [] {} 0 [count] [.integer 0] _ 1 := .cons rfl .nil
  have hfails := @FailsInTurn.mk Nat counting [] {} [("a", count)] "b" (construct "F" [] {})
    [("a", count)] _ _ _ _ (.notFound "F") 1 hone rfl
  exact ⟨⟨_, hall, (build_map counting [] {} _ _ 0).1 _ _ _ hall⟩,
    ⟨_, hfails, (build_map counting [] {} _ _ 0).2.1 _ _ _ hfails⟩⟩

end ObjectSpec
