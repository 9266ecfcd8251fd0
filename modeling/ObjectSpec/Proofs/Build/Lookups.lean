import ObjectSpec.Proofs.Build.Order
import ObjectSpec.Proofs.Registry.Selection
import ObjectSpec.Tree.Walk

/-!
# The types that a build looks up

`Tree.lookups` lists the constructs whose types a build looks up, in order and as far as
the build gets. They are the first of the constructs of the tree in the order of the text,
and all but the last of them are found (`search`). A build that gives a value has looked
up every construct, and found each with a signature for its number of arguments.

The registry is asked for nothing else: registries that have the same signatures for
these constructs make no difference for a build (`build_congr`).
-/

namespace ObjectSpec

/-- What is looked up after a piece of a build, if the piece is built. -/
def lookupsAfter {σ α : Type} (r : EStateM.Result BuildError σ α) (next : σ → List Call) :
    List Call :=
  match r with
  | .error _ _ => []
  | .ok _ t => next t

section Lookups
variable {σ : Type} (registry : Registry σ) (aliases : Aliases) (context : Context)

namespace Tree

mutual

/-- The constructs whose types are looked up when a tree is built in the state `s`, the one that
is not found included. -/
def lookups : Tree → σ → List Call
  | .literal _, _ => []
  | .construct typeName args span, s =>
    ⟨typeName, args.length, span⟩ ::
      match registry.lookup (aliases.resolve typeName) with
      | none => []
      | some _ => lookupsList args s
  | .array items _, s => lookupsList items s
  | .map entries _, s => lookupsEntries entries s
  | .raw _ _ _, _ => []

def lookupsList : List Tree → σ → List Call
  | [], _ => []
  | t :: ts, s =>
    lookups t s ++ lookupsAfter (build registry aliases context t s) fun next => lookupsList ts next

def lookupsEntries : List (String × Tree) → σ → List Call
  | [], _ => []
  | (_, t) :: es, s =>
    lookups t s ++
      lookupsAfter (build registry aliases context t s) fun next => lookupsEntries es next

end

end Tree

/-! ## What a lookup finds -/

/-- The type of the construct is registered. -/
def Known (call : Call) : Prop := registry.contains (aliases.resolve call.typeName) = true

/-- The type of the construct is registered with a signature for as many arguments. -/
def Callable (call : Call) : Prop :=
  ∃ candidates, registry.lookup (aliases.resolve call.typeName) = some candidates ∧
    call.arity ∈ candidates.map Signature.arity

variable {registry aliases context}

theorem Callable.known {call : Call} (h : Callable registry aliases call) :
    Known registry aliases call := by
  obtain ⟨candidates, hlookup, -⟩ := h
  rw [Known, Registry.contains, hlookup]
  rfl

theorem known_of_lookup {call : Call} {candidates : List (Signature σ)}
    (h : registry.lookup (aliases.resolve call.typeName) = some candidates) :
    Known registry aliases call := by
  rw [Known, Registry.contains, h]
  rfl

theorem not_known_of_lookup {call : Call}
    (h : registry.lookup (aliases.resolve call.typeName) = none) :
    ¬ Known registry aliases call := by
  rw [Known, Registry.contains, h]
  simp

/-! ## Lookups and results -/

section Pieces
variable {α β : Type}

/-- How the constructs of a piece of a build and those of them that are looked up go with what the
piece comes to. -/
inductive Searched (registry : Registry σ) (aliases : Aliases) :
    List Call → List Call → EStateM.Result BuildError σ α → Prop
  | ok {cs v t} : (∀ c ∈ cs, Callable registry aliases c) → Searched registry aliases cs cs (.ok v t)
  | notFound {older call newer t} : (∀ c ∈ older, Known registry aliases c) →
      ¬ Known registry aliases call →
      Searched registry aliases (older ++ call :: newer) (older ++ [call])
        (.error (.notFound call.typeName) t)
  | stopped {older newer e t} : (∀ c ∈ older, Known registry aliases c) →
      (∀ name, e ≠ .notFound name) → Searched registry aliases (older ++ newer) older (.error e t)

variable {cs looked more : List Call}

/-- A search that fails, behind constructs that are found. -/
theorem Searched.after_known {found : List Call} {e : BuildError} {t : σ}
    (hfound : ∀ c ∈ found, Known registry aliases c)
    (h : Searched registry aliases cs looked (.error e t : EStateM.Result _ _ α)) :
    Searched registry aliases (found ++ cs) (found ++ looked)
      (.error e t : EStateM.Result _ _ β) := by
  cases h with
  | notFound ho hcall =>
    rw [← List.append_assoc, ← List.append_assoc]
    exact .notFound (List.forall_mem_append.2 ⟨hfound, ho⟩) hcall
  | stopped ho he =>
    rw [← List.append_assoc]
    exact .stopped (List.forall_mem_append.2 ⟨hfound, ho⟩) he

/-- A search behind constructs that can be called. -/
theorem Searched.after_callable {r : EStateM.Result BuildError σ α} {found : List Call}
    (hfound : ∀ c ∈ found, Callable registry aliases c)
    (h : Searched registry aliases cs looked r) :
    Searched registry aliases (found ++ cs) (found ++ looked) r := by
  cases r with
  | error e t => exact h.after_known fun c hc => (hfound c hc).known
  | ok v t =>
    cases h with
    | ok hcs => exact .ok (List.forall_mem_append.2 ⟨hfound, hcs⟩)

/-- A piece that fails ends the search. -/
theorem Searched.append_right (more : List Call) {e : BuildError} {t : σ}
    (h : Searched registry aliases cs looked (.error e t : EStateM.Result _ _ α)) :
    Searched registry aliases (cs ++ more) looked (.error e t : EStateM.Result _ _ β) := by
  cases h with
  | notFound ho hcall =>
    rw [List.append_assoc]
    exact .notFound ho hcall
  | stopped ho he =>
    rw [List.append_assoc]
    exact .stopped ho he

/-- A piece, and if it is built the one that comes after it. -/
theorem Searched.bind {x : EStateM BuildError σ α} {f : α → EStateM BuildError σ β} {s : σ}
    {next : σ → List Call} (h : Searched registry aliases cs looked (x s))
    (hf : ∀ a t, Searched registry aliases more (next t) (f a t)) :
    Searched registry aliases (cs ++ more) (looked ++ lookupsAfter (x s) next)
      ((x >>= f) s) := by
  cases hx : x s with
  | error e t =>
    rw [hx] at h
    rw [bind_of_error hx, lookupsAfter, List.append_nil]
    exact h.append_right more
  | ok a t =>
    rw [hx] at h
    rw [bind_of_ok hx]
    cases h with
    | ok hcs => exact (hf a t).after_callable hcs

/-- What a piece is built to does not matter. -/
theorem Searched.map {x : EStateM BuildError σ α} {s : σ}
    (h : Searched registry aliases cs looked (x s)) (f : α → β) :
    Searched registry aliases cs looked ((x >>= fun a => pure (f a)) s) := by
  cases hx : x s with
  | error e t =>
    rw [hx] at h
    rw [bind_of_error hx]
    simpa using h.append_right []
  | ok a t =>
    rw [hx] at h
    rw [bind_of_ok hx]
    cases h with
    | ok hcs => exact .ok hcs

end Pieces

/-! ## Constructs -/

namespace Tree

theorem length_buildList {ts : List Tree} {s t : σ} {values : List (Value σ)}
    (h : buildList registry aliases context ts s = .ok values t) : values.length = ts.length := by
  induction ts generalizing s values with
  | nil =>
    cases h
    rfl
  | cons u us ih =>
    rw [buildList, bind_ok] at h
    obtain ⟨v, next, -, h⟩ := h
    obtain ⟨vs, last, hvs, h⟩ := bind_ok.1 h
    cases h
    rw [List.length_cons, List.length_cons, ih hvs]

/-- A construct whose arguments are built: its type was found, and its constructor runs if a
signature takes the arguments. -/
theorem searched_finish {call : Call} {candidates : List (Signature σ)} {values : List (Value σ)}
    {cs : List Call} (s : σ)
    (hlookup : registry.lookup (aliases.resolve call.typeName) = some candidates)
    (hlength : values.length = call.arity) (hcs : ∀ c ∈ cs, Callable registry aliases c) :
    Searched registry aliases (call :: cs) (call :: cs)
      (finish context call.typeName (aliases.resolve call.typeName) candidates values s) := by
  have hall : ∀ c ∈ call :: cs, Known registry aliases c :=
    List.forall_mem_cons.2 ⟨known_of_lookup hlookup, fun c hc => (hcs c hc).known⟩
  have hfail : ∀ {e : BuildError} {t : σ}, (∀ name, e ≠ .notFound name) →
      Searched registry aliases (call :: cs) (call :: cs)
        (.error e t : EStateM.Result _ _ (Value σ)) := by
    intro e t he
    have hstopped : Searched registry aliases (call :: cs ++ []) (call :: cs)
        (.error e t : EStateM.Result _ _ (Value σ)) := .stopped hall he
    rwa [List.append_nil] at hstopped
  unfold finish
  dsimp only
  cases hselect : Overload.select Signature.params candidates (values.map Value.kind) with
  | none => exact hfail nofun
  | some signature =>
    have harity : signature.arity = call.arity := by
      rw [Signature.arity, (Overload.takes_of_select hselect).length_eq, List.length_map, hlength]
    have hcall : Callable registry aliases call :=
      ⟨candidates, hlookup, List.mem_map.2 ⟨signature, Overload.select_mem hselect, harity⟩⟩
    dsimp only
    cases signature.invoke ⟨aliases.resolve call.typeName,
        List.zipWith Value.widen signature.params values⟩ context s with
    | ok v t => exact .ok (List.forall_mem_cons.2 ⟨hcall, hcs⟩)
    | error e t => exact hfail nofun

/-- A construct, from the search for its arguments. -/
theorem searched_construct (typeName : String) (args : List Tree) (span : Span) (s : σ)
    (hargs : Searched registry aliases (constructsList args)
      (lookupsList registry aliases context args s) (buildList registry aliases context args s)) :
    Searched registry aliases (constructs (.construct typeName args span))
      (lookups registry aliases context (.construct typeName args span) s)
      (build registry aliases context (.construct typeName args span) s) := by
  obtain ⟨call, hcall⟩ : ∃ call : Call, call = ⟨typeName, args.length, span⟩ := ⟨_, rfl⟩
  have hname : call.typeName = typeName := by rw [hcall]
  have harity : call.arity = args.length := by rw [hcall]
  rw [constructs, lookups, build, ← hcall, ← hname]
  cases hlookup : registry.lookup (aliases.resolve call.typeName) with
  | none =>
    have hfail : Searched registry aliases ([] ++ call :: constructsList args) ([] ++ [call])
        (.error (.notFound call.typeName) s : EStateM.Result _ _ (Value σ)) :=
      .notFound (by simp) (not_known_of_lookup hlookup)
    exact hfail
  | some candidates =>
    dsimp only
    cases hbuild : buildList registry aliases context args s with
    | error e t =>
      rw [hbuild] at hargs
      rw [bind_of_error hbuild]
      -- The construct itself is found, and the search ends in its arguments.
      have hfound : ∀ c ∈ [call], Known registry aliases c :=
        List.forall_mem_singleton.2 (known_of_lookup hlookup)
      have hfail := hargs.after_known (β := Value σ) hfound
      exact hfail
    | ok values t =>
      rw [hbuild] at hargs
      rw [bind_of_ok hbuild]
      generalize constructsList args = cs, lookupsList registry aliases context args s = looked
        at hargs ⊢
      cases hargs with
      | ok hcs =>
        exact searched_finish t hlookup ((length_buildList hbuild).trans harity.symm) hcs

mutual

/-- The search of a whole build. -/
theorem search : ∀ (t : Tree) (s : σ), Searched registry aliases t.constructs
    (t.lookups registry aliases context s) (t.build registry aliases context s)
  | .literal _, _ => .ok (by simp [constructs])
  | .construct typeName args span, s => searched_construct typeName args span s (searchList args s)
  | .array items _, s => by
    rw [constructs, lookups, build]
    exact (searchList items s).map _
  | .map entries _, s => by
    rw [constructs, lookups, build]
    exact (searchEntries entries s).map _
  | .raw _ _ _, _ => .ok (by simp [constructs])

theorem searchList : ∀ (ts : List Tree) (s : σ), Searched registry aliases (constructsList ts)
    (lookupsList registry aliases context ts s) (buildList registry aliases context ts s)
  | [], _ => .ok (by simp [constructsList])
  | t :: ts, s => by
    rw [constructsList, lookupsList, buildList]
    exact (search t s).bind fun v next => (searchList ts next).map _

theorem searchEntries : ∀ (es : List (String × Tree)) (s : σ),
    Searched registry aliases (constructsEntries es)
      (lookupsEntries registry aliases context es s) (buildEntries registry aliases context es s)
  | [], _ => .ok (by simp [constructsEntries])
  | (key, t) :: es, s => by
    rw [constructsEntries, lookupsEntries, buildEntries]
    exact (search t s).bind fun v next => (searchEntries es next).map _

end

/-! ## What a build depends on -/

/-- The registry `other` has the signatures of `registry` for all constructs in `looked`. -/
def AgreeOn (registry other : Registry σ) (aliases : Aliases) (looked : List Call) : Prop :=
  ∀ c ∈ looked, other.lookup (aliases.resolve c.typeName) =
    registry.lookup (aliases.resolve c.typeName)

variable {other : Registry σ}

theorem AgreeOn.of_append {xs ys : List Call} (h : AgreeOn registry other aliases (xs ++ ys)) :
    AgreeOn registry other aliases xs ∧ AgreeOn registry other aliases ys :=
  List.forall_mem_append.1 h

mutual

/-- A build depends on a registry by what it looks up alone. -/
theorem build_congr : ∀ (t : Tree) (s : σ),
    AgreeOn registry other aliases (t.lookups registry aliases context s) →
    t.build other aliases context s = t.build registry aliases context s
  | .literal _, _, _ => rfl
  | .construct typeName args span, s, h => by
    rw [lookups] at h
    obtain ⟨hhead, htail⟩ := List.forall_mem_cons.1 h
    rw [build, build, hhead]
    cases hlookup : registry.lookup (aliases.resolve typeName) with
    | none => rfl
    | some candidates =>
      rw [hlookup] at htail
      exact bind_congr (buildList_congr args s htail) fun _ _ _ => rfl
  | .array items _, s, h => by
    rw [build, build]
    exact bind_congr (buildList_congr items s h) fun _ _ _ => rfl
  | .map entries _, s, h => by
    rw [build, build]
    exact bind_congr (buildEntries_congr entries s h) fun _ _ _ => rfl
  | .raw _ _ _, _, _ => rfl

theorem buildList_congr : ∀ (ts : List Tree) (s : σ),
    AgreeOn registry other aliases (lookupsList registry aliases context ts s) →
    buildList other aliases context ts s = buildList registry aliases context ts s
  | [], _, _ => rfl
  | t :: ts, s, h => by
    rw [lookupsList] at h
    obtain ⟨hfirst, hrest⟩ := h.of_append
    rw [buildList, buildList]
    refine bind_congr (build_congr t s hfirst) fun v next hnext => ?_
    rw [hnext] at hrest
    exact bind_congr (buildList_congr ts next hrest) fun _ _ _ => rfl

theorem buildEntries_congr : ∀ (es : List (String × Tree)) (s : σ),
    AgreeOn registry other aliases (lookupsEntries registry aliases context es s) →
    buildEntries other aliases context es s = buildEntries registry aliases context es s
  | [], _, _ => rfl
  | (key, t) :: es, s, h => by
    rw [lookupsEntries] at h
    obtain ⟨hfirst, hrest⟩ := h.of_append
    rw [buildEntries, buildEntries]
    refine bind_congr (build_congr t s hfirst) fun v next hnext => ?_
    rw [hnext] at hrest
    exact bind_congr (buildEntries_congr es next hrest) fun _ _ _ => rfl

end

end Tree

end Lookups

end ObjectSpec
