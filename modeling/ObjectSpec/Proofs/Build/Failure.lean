import ObjectSpec.Build
import ObjectSpec.Proofs.State.Sequence
import ObjectSpec.Proofs.Tree.Place
import ObjectSpec.Proofs.Tree.Shape

/-!
# Where a build fails

A build fails at one construct: its type is not registered, no signature takes its
arguments, or its constructor makes nothing. `FailsAt` says which construct that is, by
the way to it, and leaves out how the builder gets there. A build gives an error just
if it fails somewhere (`build_error_iff`), and then at one construct alone
(`FailsAt.way_unique`).
-/

namespace ObjectSpec

section Failure
variable {σ : Type} (registry : Registry σ) (aliases : Aliases) (context : Context)

/-- The parts of the node are built: a construct's only if its type is registered. -/
def Entered : Tree → Prop
  | .construct typeName _ _ =>
    ∃ candidates, registry.lookup (aliases.resolve typeName) = some candidates
  | _ => True

/-- Building the tree in a state fails at the construct that the way leads to, with an error and
in a final state. -/
inductive FailsAt : Tree → σ → List Nat → BuildError → σ → Prop
  | lookup {typeName args span s} :
      registry.lookup (aliases.resolve typeName) = none →
      FailsAt (.construct typeName args span) s [] (.notFound typeName) s
  | selection {typeName args span s candidates values next} :
      registry.lookup (aliases.resolve typeName) = some candidates →
      Tree.buildList registry aliases context args s = .ok values next →
      Overload.select Signature.params candidates (values.map Value.kind) = none →
      FailsAt (.construct typeName args span) s []
        (.resolution typeName (values.map Value.kind)) next
  | construction {typeName args span s candidates values next signature e final} :
      registry.lookup (aliases.resolve typeName) = some candidates →
      Tree.buildList registry aliases context args s = .ok values next →
      Overload.select Signature.params candidates (values.map Value.kind) = some signature →
      signature.invoke ⟨aliases.resolve typeName,
        List.zipWith Value.widen signature.params values⟩ context next = .error e final →
      FailsAt (.construct typeName args span) s [] (.construction e) final
  | part {node t older newer s values next way e final} :
      Entered registry aliases node → node.parts = older ++ t :: newer →
      Tree.buildList registry aliases context older s = .ok values next →
      FailsAt t next way e final → FailsAt node s (older.length :: way) e final

variable {registry aliases context}

/-! ## Parts in order -/

namespace Tree

/-- Entries are built as their values are. -/
theorem buildEntries_eq (es : List (String × Tree)) (s : σ) :
    buildEntries registry aliases context es s =
      (do let vs ← buildList registry aliases context (es.map Prod.snd)
          pure ((es.map Prod.fst).zip vs) : EStateM BuildError σ _) s := by
  induction es generalizing s with
  | nil => rfl
  | cons e es ih =>
    obtain ⟨key, t⟩ := e
    rw [buildEntries, List.map_cons, List.map_cons, buildList]
    cases ht : t.build registry aliases context s with
    | error e final => rw [bind_of_error ht, bind_of_error (bind_of_error ht)]
    | ok v next =>
      rw [bind_of_ok ht]
      have hes := ih next
      cases hvs : buildList registry aliases context (es.map Prod.snd) next with
      | error e final =>
        rw [bind_of_error hvs] at hes
        rw [bind_of_error hes, bind_of_error]
        rw [bind_of_ok ht, bind_of_error hvs]
      | ok vs last =>
        rw [bind_of_ok hvs] at hes
        have hall : (do
            let v ← t.build registry aliases context
            let vs ← buildList registry aliases context (es.map Prod.snd)
            pure (v :: vs) : EStateM BuildError σ _) s = .ok (v :: vs) last := by
          rw [bind_of_ok ht, bind_of_ok hvs]
          rfl
        rw [bind_of_ok hes, bind_of_ok hall]
        rfl

/-- A list fails at the first of its trees that does. -/
theorem buildList_error {ts : List Tree} {s final : σ} {e : BuildError}
    (h : buildList registry aliases context ts s = .error e final) :
    ∃ older t newer values next, ts = older ++ t :: newer ∧
      buildList registry aliases context older s = .ok values next ∧
      t.build registry aliases context next = .error e final := by
  induction ts generalizing s with
  | nil => cases h
  | cons t ts ih =>
    rw [buildList] at h
    rcases bind_error h with h | ⟨v, next, hv, h⟩
    · exact ⟨[], t, ts, [], s, rfl, rfl, h⟩
    · rcases bind_error h with h | ⟨vs, last, -, h⟩
      · obtain ⟨older, u, newer, values, next', rfl, holder, hu⟩ := ih h
        refine ⟨t :: older, u, newer, v :: values, next', rfl, ?_, hu⟩
        rw [buildList, bind_of_ok hv, bind_of_ok holder]
        rfl
      · cases h

theorem buildList_of_error {older newer : List Tree} {t : Tree} {s next final : σ}
    {values : List (Value σ)} {e : BuildError}
    (holder : buildList registry aliases context older s = .ok values next)
    (ht : t.build registry aliases context next = .error e final) :
    buildList registry aliases context (older ++ t :: newer) s = .error e final := by
  induction older generalizing s values with
  | nil =>
    cases holder
    rw [List.nil_append, buildList, bind_of_error ht]
  | cons u older ih =>
    rw [buildList, bind_ok] at holder
    obtain ⟨v, q, hv, holder⟩ := holder
    obtain ⟨vs, last, hvs, holder⟩ := bind_ok.1 holder
    cases holder
    rw [List.cons_append, buildList, bind_of_ok hv, bind_of_error (ih hvs)]

/-- A node fails if its parts do, unless its type is not found before. -/
theorem build_of_parts_error {node : Tree} {s final : σ} {e : BuildError}
    (hnode : Entered registry aliases node)
    (h : buildList registry aliases context node.parts s = .error e final) :
    node.build registry aliases context s = .error e final := by
  cases node with
  | literal l => cases h
  | construct typeName args span =>
    obtain ⟨candidates, hlookup⟩ := hnode
    rw [build, hlookup]
    exact bind_of_error h
  | array items span =>
    rw [build]
    exact bind_of_error h
  | map entries span =>
    rw [build, bind_of_error]
    rw [buildEntries_eq]
    exact bind_of_error h
  | raw written content span => cases h

end Tree

/-! ## Failing and giving an error -/

theorem FailsAt.build {t : Tree} {s final : σ} {way : List Nat} {e : BuildError}
    (h : FailsAt registry aliases context t s way e final) :
    t.build registry aliases context s = .error e final := by
  induction h with
  | lookup hlookup =>
    rw [Tree.build, hlookup]
    rfl
  | selection hlookup hargs hselect =>
    rw [Tree.build, hlookup]
    refine (bind_of_ok hargs).trans ?_
    rw [Tree.finish]
    simp only [hselect]
  | construction hlookup hargs hselect hinvoke =>
    rw [Tree.build, hlookup]
    refine (bind_of_ok hargs).trans ?_
    rw [Tree.finish]
    simp only [hselect, hinvoke]
  | part hnode hparts holder _ ih =>
    refine Tree.build_of_parts_error hnode ?_
    rw [hparts]
    exact Tree.buildList_of_error holder ih

/-- A node whose parts fail fails at a construct in one of them. -/
theorem FailsAt.of_parts {node : Tree} {s final : σ} {e : BuildError}
    (hnode : Entered registry aliases node)
    (hparts : Tree.buildList registry aliases context node.parts s = .error e final)
    (ih : ∀ t ∈ node.parts, ∀ s, t.build registry aliases context s = .error e final →
      ∃ way, FailsAt registry aliases context t s way e final) :
    ∃ way, FailsAt registry aliases context node s way e final := by
  obtain ⟨older, t, newer, values, next, hsplit, holder, ht⟩ := Tree.buildList_error hparts
  obtain ⟨way, hway⟩ := ih t (by simp [hsplit]) next ht
  exact ⟨older.length :: way, .part hnode hsplit holder hway⟩

theorem Tree.exists_failsAt {t : Tree} {s final : σ} {e : BuildError}
    (h : t.build registry aliases context s = .error e final) :
    ∃ way, FailsAt registry aliases context t s way e final := by
  induction t generalizing s with
  | literal l => cases h
  | construct typeName args span ih =>
    rw [build] at h
    cases hlookup : registry.lookup (aliases.resolve typeName) with
    | none =>
      rw [hlookup] at h
      cases h
      exact ⟨[], .lookup hlookup⟩
    | some candidates =>
      rw [hlookup] at h
      rcases bind_error h with h | ⟨values, next, hargs, h⟩
      · exact FailsAt.of_parts ⟨candidates, hlookup⟩ h fun a ha s => ih a ha
      · rw [finish] at h
        dsimp only at h
        cases hselect : Overload.select Signature.params candidates (values.map Value.kind) with
        | none =>
          rw [hselect] at h
          cases h
          exact ⟨[], .selection hlookup hargs hselect⟩
        | some signature =>
          rw [hselect] at h
          dsimp only at h
          cases hinvoke : signature.invoke ⟨aliases.resolve typeName,
              List.zipWith Value.widen signature.params values⟩ context next with
          | ok v t =>
            rw [hinvoke] at h
            cases h
          | error e t =>
            rw [hinvoke] at h
            cases h
            exact ⟨[], .construction hlookup hargs hselect hinvoke⟩
  | array items span ih =>
    rw [build] at h
    rcases bind_error h with h | ⟨values, next, -, h⟩
    · exact FailsAt.of_parts trivial h fun a ha s => ih a ha
    · cases h
  | map entries span ih =>
    rw [build] at h
    rcases bind_error h with h | ⟨values, next, -, h⟩
    · rw [buildEntries_eq] at h
      rcases bind_error h with h | ⟨vs, last, -, h⟩
      · refine FailsAt.of_parts trivial h fun a ha s => ?_
        obtain ⟨entry, hentry, rfl⟩ := List.mem_map.1 ha
        exact ih entry hentry
      · cases h
    · cases h
  | raw written content span => cases h

/-- A build gives an error just if it fails at some construct. -/
theorem build_error_iff {t : Tree} {s final : σ} {e : BuildError} :
    t.build registry aliases context s = .error e final ↔
      ∃ way, FailsAt registry aliases context t s way e final :=
  ⟨Tree.exists_failsAt, fun ⟨_, h⟩ => h.build⟩

/-! ## One construct fails -/

/-- The tree that fails comes right behind those that are built. -/
theorem Tree.buildList_split_unique {older older' newer newer' : List Tree} {t t' : Tree}
    {s next next' final final' : σ} {values values' : List (Value σ)} {e e' : BuildError}
    (hsplit : older ++ t :: newer = older' ++ t' :: newer')
    (holder : buildList registry aliases context older s = .ok values next)
    (ht : t.build registry aliases context next = .error e final)
    (holder' : buildList registry aliases context older' s = .ok values' next')
    (ht' : t'.build registry aliases context next' = .error e' final') :
    older = older' ∧ t = t' ∧ next = next' := by
  rcases List.append_eq_append_iff.1 hsplit with ⟨mid, rfl, hmid⟩ | ⟨mid, rfl, hmid⟩
  · cases mid with
    | nil =>
      rw [List.append_nil, holder] at holder'
      cases holder'
      exact ⟨(List.append_nil _).symm, (List.cons.inj hmid).1, rfl⟩
    | cons u mid =>
      -- The failing tree would be among those that are built.
      obtain ⟨rfl, -⟩ := List.cons.inj hmid
      rw [buildList_of_error holder ht] at holder'
      cases holder'
  · cases mid with
    | nil =>
      rw [List.append_nil, holder'] at holder
      cases holder
      exact ⟨List.append_nil _, (List.cons.inj hmid).1.symm, rfl⟩
    | cons u mid =>
      obtain ⟨rfl, -⟩ := List.cons.inj hmid
      rw [buildList_of_error holder' ht'] at holder
      cases holder

/-- A construct that fails itself has a type that is not registered, or arguments that are
built. -/
theorem FailsAt.not_parts {node : Tree} {s final final' : σ} {e e' : BuildError}
    (h : FailsAt registry aliases context node s [] e final)
    (hnode : Entered registry aliases node) :
    Tree.buildList registry aliases context node.parts s ≠ .error e' final' := by
  intro hparts
  cases h with
  | lookup hlookup =>
    obtain ⟨candidates, hnode⟩ := hnode
    rw [hlookup] at hnode
    cases hnode
  | selection _ hargs _ =>
    rw [Tree.parts, hargs] at hparts
    cases hparts
  | construction _ hargs _ _ =>
    rw [Tree.parts, hargs] at hparts
    cases hparts

theorem FailsAt.parts_error {node : Tree} {s final : σ} {i : Nat} {way : List Nat} {e : BuildError}
    (h : FailsAt registry aliases context node s (i :: way) e final) :
    Entered registry aliases node ∧
      Tree.buildList registry aliases context node.parts s = .error e final := by
  cases h with
  | part hnode hparts holder ht =>
    refine ⟨hnode, ?_⟩
    rw [hparts]
    exact Tree.buildList_of_error holder ht.build

theorem FailsAt.way_unique {t : Tree} {s final final' : σ} {way way' : List Nat}
    {e e' : BuildError} (h : FailsAt registry aliases context t s way e final)
    (h' : FailsAt registry aliases context t s way' e' final') : way = way' := by
  induction way generalizing t s way' with
  | nil =>
    cases way' with
    | nil => rfl
    | cons i way' =>
      obtain ⟨hnode, hparts⟩ := h'.parts_error
      exact absurd hparts (h.not_parts hnode)
  | cons i way ih =>
    cases way' with
    | nil =>
      obtain ⟨hnode, hparts⟩ := h.parts_error
      exact absurd hparts (h'.not_parts hnode)
    | cons j way' =>
      cases h with
      | part _ hparts holder ht =>
        cases h' with
        | part _ hparts' holder' ht' =>
          obtain ⟨rfl, rfl, rfl⟩ := Tree.buildList_split_unique (hparts.symm.trans hparts')
            holder ht.build holder' ht'.build
          rw [ih ht ht']

theorem FailsAt.iff_eq {t : Tree} {s final : σ} {way : List Nat} {e : BuildError}
    (h : FailsAt registry aliases context t s way e final) (other : List Nat) :
    FailsAt registry aliases context t s other e final ↔ other = way := by
  constructor
  · exact fun hother => hother.way_unique h
  · rintro rfl
    exact h

/-- The way leads to a construct, and that is the one that fails. -/
theorem FailsAt.construct {t : Tree} {s final : σ} {way : List Nat} {e : BuildError}
    (h : FailsAt registry aliases context t s way e final) :
    ∃ typeName args span before, t.at? way = some (.construct typeName args span) ∧
      FailsAt registry aliases context (.construct typeName args span) before [] e final := by
  induction h with
  | lookup hlookup => exact ⟨_, _, _, _, rfl, .lookup hlookup⟩
  | selection hlookup hargs hselect => exact ⟨_, _, _, _, rfl, .selection hlookup hargs hselect⟩
  | construction hlookup hargs hselect hinvoke =>
    exact ⟨_, _, _, _, rfl, .construction hlookup hargs hselect hinvoke⟩
  | part _ hparts _ _ ih =>
    obtain ⟨typeName, args, span, before, hat, hfails⟩ := ih
    exact ⟨typeName, args, span, before, (Tree.at?_part hparts _).trans hat, hfails⟩

end Failure

end ObjectSpec
