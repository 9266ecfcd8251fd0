import ObjectSpec.Proofs.Build.Calls
import ObjectSpec.Proofs.State.Sequence

/-!
# The order of a build

A build calls the constructors of a tree in post-order, each once and with what its
own arguments were built to, and stops at the first failure (`build_order`).

`Report` is what is true of a piece of a build: of a tree, a list of trees or a list of
entries. Reports of two pieces make up one of both (`Report.append`), so that the
induction over the tree has one step of its own, the construct (`report_construct`).
-/

namespace ObjectSpec

open Invocation (steps steps_append)
open Visit (left left_append)

/-! ## Elements and those before them -/

/-- Each element is related by `P` to the elements before it. -/
def EachAfter {ι : Type} (P : List ι → ι → Prop) (items : List ι) : Prop :=
  ∀ older a newer, items = older ++ a :: newer → P older a

section EachAfter
variable {ι : Type} {P : List ι → ι → Prop}

theorem eachAfter_nil : EachAfter P [] := by
  intro older a newer h
  simp at h

theorem EachAfter.append {xs ys : List ι} (hx : EachAfter P xs)
    (hy : EachAfter (fun older => P (xs ++ older)) ys) : EachAfter P (xs ++ ys) := by
  intro older a newer h
  rcases List.append_eq_append_iff.1 h with ⟨mid, rfl, hys⟩ | ⟨mid, hxs, hmid⟩
  · exact hy mid a newer hys
  · cases mid with
    | nil =>
      rw [List.append_nil] at hxs
      have ha : P (xs ++ []) a := hy [] a newer hmid.symm
      rwa [List.append_nil, hxs] at ha
    | cons b mid =>
      obtain ⟨rfl, -⟩ := List.cons.inj hmid
      exact hx older a mid hxs

theorem EachAfter.concat {xs : List ι} (hx : EachAfter P xs) {a : ι} (ha : P xs a) :
    EachAfter P (xs ++ [a]) := by
  refine hx.append fun older b newer h => ?_
  cases older with
  | nil =>
    obtain ⟨rfl, -⟩ := List.cons.inj h
    rwa [List.append_nil]
  | cons c older =>
    have := (List.cons.inj h).2
    simp at this

end EachAfter

section Order
variable {σ : Type} (registry : Registry σ) (aliases : Aliases) (context : Context)

/-! ## What each call is -/

/-- The call is the one for its construct. The calls `own` right before it are those for the
constructs in its arguments, whose values it is given, widened to the parameters of a signature of
the registered type. -/
structure Proper (s : σ) (older own : List (Invocation σ)) (call : Invocation σ) : Prop where
  own_sites : own.map Invocation.site = Tree.postorderList call.site.args
  context_eq : call.context = context
  selected : ∃ candidates values,
    registry.lookup (aliases.resolve call.site.typeName) = some candidates ∧
    Tree.buildList registry aliases context call.site.args (steps s older) =
      .ok values (steps s (older ++ own)) ∧
    Overload.select Signature.params candidates (values.map Value.kind) = some call.signature ∧
    call.args = ⟨aliases.resolve call.site.typeName,
      List.zipWith Value.widen call.signature.params values⟩

/-- Every call is the one for its construct. -/
def AllProper (s : σ) : List (Invocation σ) → Prop :=
  EachAfter fun before call => ∃ older own, before = older ++ own ∧
    Proper registry aliases context s older own call

/-- Every call makes a value. -/
def Succeeded (s : σ) : List (Invocation σ) → Prop :=
  EachAfter fun older call => ∃ v t, call.run (steps s older) = .ok v t

/-! ## Where a build stops -/

/-- A way with the construct `site` in it. -/
def around (before : List Visit) (site : Site) (after : List Visit) : List Visit :=
  before ++ .enter site :: (Tree.visitsList site.args ++ .leave site :: after)

/-- How a build along a way fails, the calls that were made for it, and its error. A type that is
not registered fails where its construct is entered, all else where it is left. -/
inductive Stopped (s : σ) : List Visit → List (Invocation σ) → BuildError → Prop
  | notFound {before after site older} :
      older.map Invocation.site = left before → Succeeded s older →
      registry.lookup (aliases.resolve site.typeName) = none →
      Stopped s (around before site after) older (.notFound site.typeName)
  | resolution {before after site older own candidates values} :
      older.map Invocation.site = left before →
      own.map Invocation.site = Tree.postorderList site.args → Succeeded s (older ++ own) →
      registry.lookup (aliases.resolve site.typeName) = some candidates →
      Tree.buildList registry aliases context site.args (steps s older) =
        .ok values (steps s (older ++ own)) →
      Overload.select Signature.params candidates (values.map Value.kind) = none →
      Stopped s (around before site after) (older ++ own)
        (.resolution site.typeName (values.map Value.kind))
  | construction {before after older own} {call : Invocation σ} {e t} :
      older.map Invocation.site = left before →
      own.map Invocation.site = Tree.postorderList call.site.args → Succeeded s (older ++ own) →
      call.run (steps s (older ++ own)) = .error e t →
      Stopped s (around before call.site after) (older ++ own ++ [call]) (.construction e)

/-- What comes of the calls made along a way. -/
inductive Outcome {α : Type} (way : List Visit) (s : σ) (calls : List (Invocation σ)) :
    EStateM.Result BuildError σ α → Prop
  | ok {v} : calls.map Invocation.site = left way → Succeeded s calls →
      Outcome way s calls (.ok v (steps s calls))
  | error {e} : Stopped registry aliases context s way calls e →
      Outcome way s calls (.error e (steps s calls))

/-- What is true of a piece of a build. -/
structure Report {α : Type} (way : List Visit) (s : σ) (calls : List (Invocation σ))
    (r : EStateM.Result BuildError σ α) : Prop where
  proper : AllProper registry aliases context s calls
  outcome : Outcome registry aliases context way s calls r

/-! ## Pieces one after the other -/

variable {registry aliases context}

section Pieces
variable {s : σ} {way more : List Visit} {calls newer : List (Invocation σ)}

theorem append_around (way before : List Visit) (site : Site) (after : List Visit) :
    way ++ around before site after = around (way ++ before) site after := by
  rw [around, around, List.append_assoc]

theorem around_append (before : List Visit) (site : Site) (after more : List Visit) :
    around before site after ++ more = around before site (after ++ more) := by
  simp only [around, List.append_assoc, List.cons_append]

theorem left_around (before : List Visit) (site : Site) (after : List Visit) :
    left (around before site after) =
      left before ++ Tree.postorderList site.args ++ site :: left after := by
  rw [around, left_append, Visit.left_enter, left_append, Visit.left_leave, Tree.left_visitsList,
    List.append_assoc]

theorem Succeeded.append (h : Succeeded s calls) (hn : Succeeded (steps s calls) newer) :
    Succeeded s (calls ++ newer) := by
  refine EachAfter.append h fun older call rest hrest => ?_
  show ∃ v t, call.run (steps s (calls ++ older)) = .ok v t
  rw [steps_append]
  exact hn older call rest hrest

theorem AllProper.append (h : AllProper registry aliases context s calls)
    (hn : AllProper registry aliases context (steps s calls) newer) :
    AllProper registry aliases context s (calls ++ newer) := by
  refine EachAfter.append h fun before call rest hrest => ?_
  obtain ⟨older, own, rfl, hp⟩ := hn before call rest hrest
  obtain ⟨candidates, values, hl, hb, hs, ha⟩ := hp.selected
  refine ⟨calls ++ older, own, (List.append_assoc _ _ _).symm, hp.own_sites, hp.context_eq, ?_⟩
  refine ⟨candidates, values, hl, ?_, hs, ha⟩
  -- The arguments are built in the state that the calls of both pieces leave.
  rw [List.append_assoc, steps_append, steps_append s]
  exact hb

theorem Stopped.append_right {e : BuildError}
    (h : Stopped registry aliases context s way calls e) (more : List Visit) :
    Stopped registry aliases context s (way ++ more) calls e := by
  cases h with
  | notFound ho hs hl =>
    rw [around_append]
    exact .notFound ho hs hl
  | resolution ho hown hs hl hb hsel =>
    rw [around_append]
    exact .resolution ho hown hs hl hb hsel
  | construction ho hown hs hrun =>
    rw [around_append]
    exact .construction ho hown hs hrun

theorem Stopped.append_left {e : BuildError}
    (h : Stopped registry aliases context (steps s calls) more newer e)
    (hsites : calls.map Invocation.site = left way) (hok : Succeeded s calls) :
    Stopped registry aliases context s (way ++ more) (calls ++ newer) e := by
  have hmap : ∀ {older : List (Invocation σ)} {before : List Visit},
      older.map Invocation.site = left before →
      (calls ++ older).map Invocation.site = left (way ++ before) := by
    intro older before ho
    rw [List.map_append, hsites, ho, left_append]
  cases h with
  | notFound ho hs hl =>
    rw [append_around]
    exact .notFound (hmap ho) (hok.append hs) hl
  | resolution ho hown hs hl hb hsel =>
    rw [append_around, ← List.append_assoc]
    refine .resolution (hmap ho) hown ?_ hl ?_ hsel
    · rw [List.append_assoc]
      exact hok.append hs
    · rw [List.append_assoc, steps_append, steps_append s]
      exact hb
  | construction ho hown hs hrun =>
    rw [append_around, ← List.append_assoc, ← List.append_assoc]
    rw [← steps_append, ← List.append_assoc] at hrun
    refine .construction (hmap ho) hown ?_ hrun
    rw [List.append_assoc]
    exact hok.append hs

/-- The calls of a build that stops are for the first constructs of the way. -/
theorem Stopped.starts {e : BuildError} (h : Stopped registry aliases context s way calls e) :
    calls.map Invocation.site <+: left way := by
  cases h with
  | @notFound before after site older ho hs hl =>
    rw [left_around, ho, List.append_assoc]
    exact List.prefix_append _ _
  | @resolution before after site older own candidates values ho hown hs hl hb hsel =>
    rw [left_around, List.map_append, ho, hown]
    exact List.prefix_append _ _
  | @construction before after older own call e t ho hown hs hrun =>
    refine ⟨left after, ?_⟩
    rw [left_around, List.map_append, List.map_append, ho, hown, List.map_singleton,
      List.append_assoc _ [_]]
    rfl

theorem Report.append {α β : Type} {v : α} {next : σ} {r : EStateM.Result BuildError σ β}
    (h : Report registry aliases context way s calls (.ok v next))
    (hn : Report registry aliases context more next newer r) :
    Report registry aliases context (way ++ more) s (calls ++ newer) r := by
  cases h with
  | mk hproper hout =>
    cases hout with
    | ok hsites hok =>
      refine ⟨hproper.append hn.proper, ?_⟩
      cases hn with
      | mk _ hnout =>
        cases hnout with
        | ok hnsites hnok =>
          rw [← steps_append]
          refine .ok ?_ (hok.append hnok)
          rw [List.map_append, hsites, hnsites, left_append]
        | error hstop =>
          rw [← steps_append]
          exact .error (hstop.append_left hsites hok)

theorem Report.append_error {α β : Type} {e : BuildError} {next : σ}
    (h : Report registry aliases context way s calls (.error e next : EStateM.Result _ σ α))
    (more : List Visit) :
    Report registry aliases context (way ++ more) s calls
      (.error e next : EStateM.Result _ σ β) := by
  cases h with
  | mk hproper hout =>
    cases hout with
    | error hstop => exact ⟨hproper, .error (hstop.append_right more)⟩

theorem report_nothing {α : Type} (v : α) : Report registry aliases context [] s [] (.ok v s) :=
  ⟨eachAfter_nil, .ok rfl eachAfter_nil⟩

variable {α β : Type} {x : EStateM BuildError σ α}

/-- A piece, and if it is built the one that comes after it. -/
theorem Report.bind {f : α → EStateM BuildError σ β} {next : α → σ → List (Invocation σ)}
    (h : Report registry aliases context way s calls (x s))
    (hf : ∀ a t, Report registry aliases context more t (next a t) (f a t)) :
    Report registry aliases context (way ++ more) s (calls ++ callsAfter (x s) next)
      ((x >>= f) s) := by
  cases hx : x s with
  | error e t =>
    rw [hx] at h
    rw [bind_of_error hx, callsAfter, List.append_nil]
    exact h.append_error more
  | ok a t =>
    rw [hx] at h
    rw [bind_of_ok hx]
    exact h.append (hf a t)

/-- What a piece is built to does not matter. -/
theorem Report.map (h : Report registry aliases context way s calls (x s)) (f : α → β) :
    Report registry aliases context way s calls ((x >>= fun a => pure (f a)) s) := by
  have := h.bind (f := fun a => pure (f a)) fun a t => report_nothing (f a)
  rwa [callsAfter_nil, List.append_nil, List.append_nil] at this

end Pieces

/-! ## The whole build -/

namespace Tree

/-- A construct is finished when the calls `own` for its arguments are made. -/
theorem report_finish {typeName : String} {args : List Tree} {s : σ} {own : List (Invocation σ)}
    {candidates : List (Signature σ)} {values : List (Value σ)}
    (hproper : AllProper registry aliases context s own)
    (hsites : own.map Invocation.site = postorderList args) (hok : Succeeded s own)
    (hlookup : registry.lookup (aliases.resolve typeName) = some candidates)
    (hbuild : buildList registry aliases context args s = .ok values (steps s own)) :
    Report registry aliases context (around [] ⟨typeName, args⟩ []) s
      (own ++ ownCall aliases context ⟨typeName, args⟩ candidates values)
      (finish context typeName (aliases.resolve typeName) candidates values (steps s own)) := by
  unfold ownCall finish
  dsimp only
  cases hselect : Overload.select Signature.params candidates (values.map Value.kind) with
  | none =>
    have hstop : Stopped registry aliases context s (around [] ⟨typeName, args⟩ []) ([] ++ own)
        (.resolution typeName (values.map Value.kind)) :=
      .resolution rfl hsites hok hlookup hbuild hselect
    rw [List.append_nil]
    exact ⟨hproper, .error hstop⟩
  | some signature =>
    -- Nothing was called before the arguments, so the calls for them are all there are.
    obtain ⟨call, hcall⟩ : ∃ call : Invocation σ, call = ⟨⟨typeName, args⟩, signature,
        ⟨aliases.resolve typeName, List.zipWith Value.widen signature.params values⟩, context⟩ :=
      ⟨_, rfl⟩
    have hsite : call.site = ⟨typeName, args⟩ := by rw [hcall]
    have hinvoke : signature.invoke ⟨aliases.resolve typeName,
        List.zipWith Value.widen signature.params values⟩ context = call.run := by
      rw [hcall]
      rfl
    have hall : AllProper registry aliases context s (own ++ [call]) := by
      refine hproper.concat ⟨[], own, rfl, ?_⟩
      rw [hcall]
      exact ⟨hsites, rfl, candidates, values, hlookup, hbuild, hselect, rfl⟩
    have hstep : steps s (own ++ [call]) = call.step (steps s own) := steps_append s own [call]
    dsimp only
    rw [← hcall, hinvoke, ← hsite]
    cases hrun : call.run (steps s own) with
    | ok v t =>
      have ht : t = steps s (own ++ [call]) := by
        rw [hstep, Invocation.step, hrun]
      rw [ht]
      refine ⟨hall, .ok ?_ (hok.concat ⟨v, t, hrun⟩)⟩
      rw [left_around, List.map_append, hsites, List.map_singleton, hsite]
      rfl
    | error e t =>
      have ht : t = steps s (own ++ [call]) := by
        rw [hstep, Invocation.step, hrun]
      have hstop : Stopped registry aliases context s (around [] call.site [])
          ([] ++ own ++ [call]) (.construction e) := by
        refine .construction rfl ?_ hok hrun
        rw [hsite]
        exact hsites
      rw [ht]
      exact ⟨hall, .error hstop⟩

/-- A construct, from what its arguments report. -/
theorem report_construct (typeName : String) (args : List Tree) (span : Span) (s : σ)
    (hargs : Report registry aliases context (visitsList args) s
      (callsList registry aliases context args s) (buildList registry aliases context args s)) :
    Report registry aliases context (visits (.construct typeName args span)) s
      (calls registry aliases context (.construct typeName args span) s)
      (build registry aliases context (.construct typeName args span) s) := by
  have hway : visits (.construct typeName args span) = around [] ⟨typeName, args⟩ [] := rfl
  rw [hway, calls, build]
  cases hlookup : registry.lookup (aliases.resolve typeName) with
  | none => exact ⟨eachAfter_nil, .error (.notFound rfl eachAfter_nil hlookup)⟩
  | some candidates =>
    dsimp only
    cases hbuild : buildList registry aliases context args s with
    | error e next =>
      rw [hbuild] at hargs
      rw [bind_of_error hbuild, callsAfter, List.append_nil]
      -- The construct is entered and never left.
      have henter : Report registry aliases context [.enter ⟨typeName, args⟩] s [] (.ok () s) :=
        ⟨eachAfter_nil, .ok rfl eachAfter_nil⟩
      exact henter.append (hargs.append_error [.leave ⟨typeName, args⟩])
    | ok values next =>
      rw [hbuild] at hargs
      rw [bind_of_ok hbuild]
      generalize callsList registry aliases context args s = own at hargs
      cases hargs with
      | mk hproper hout =>
        cases hout with
        | ok hsites hok =>
          rw [left_visitsList] at hsites
          exact report_finish hproper hsites hok hlookup hbuild

mutual

theorem report (registry : Registry σ) (aliases : Aliases) (context : Context) :
    ∀ (t : Tree) (s : σ), Report registry aliases context t.visits s
      (t.calls registry aliases context s) (t.build registry aliases context s)
  | .literal _, _ => report_nothing _
  | .construct typeName args span, s =>
    report_construct typeName args span s (reportList registry aliases context args s)
  | .array items _, s => by
    rw [visits, calls, build]
    exact (reportList registry aliases context items s).map _
  | .map entries _, s => by
    rw [visits, calls, build]
    exact (reportEntries registry aliases context entries s).map _
  | .raw _ _ _, _ => report_nothing _

theorem reportList (registry : Registry σ) (aliases : Aliases) (context : Context) :
    ∀ (ts : List Tree) (s : σ), Report registry aliases context (visitsList ts) s
      (callsList registry aliases context ts s) (buildList registry aliases context ts s)
  | [], _ => report_nothing _
  | t :: ts, s => by
    rw [visitsList, callsList, buildList]
    refine (report registry aliases context t s).bind fun v next => ?_
    exact (reportList registry aliases context ts next).map _

theorem reportEntries (registry : Registry σ) (aliases : Aliases) (context : Context) :
    ∀ (es : List (String × Tree)) (s : σ), Report registry aliases context (visitsEntries es) s
      (callsEntries registry aliases context es s) (buildEntries registry aliases context es s)
  | [], _ => report_nothing _
  | (key, t) :: es, s => by
    rw [visitsEntries, callsEntries, buildEntries]
    refine (report registry aliases context t s).bind fun v next => ?_
    exact (reportEntries registry aliases context es next).map _

end

end Tree

/-! ## What constructors can see -/

/-- Only constructors of the registry are called. -/
theorem AllProper.registered {s : σ} {calls : List (Invocation σ)}
    (h : AllProper registry aliases context s calls) {call : Invocation σ} (hc : call ∈ calls) :
    ∃ name candidates, registry.lookup name = some candidates ∧ call.signature ∈ candidates := by
  obtain ⟨before, newer, hsplit⟩ := List.append_of_mem hc
  obtain ⟨older, own, -, hp⟩ := h before call newer hsplit
  obtain ⟨candidates, values, hlookup, -, hselect, -⟩ := hp.selected
  exact ⟨_, candidates, hlookup, Overload.select_mem hselect⟩

/-- If each constructor of a registry notes in the state what it is given, a build leaves the notes
of its calls, in their order. -/
theorem notes_build {ν : Type} (notes : σ → List ν) (note : Arguments σ → Context → ν)
    (h : ∀ (call : Invocation σ) name candidates, registry.lookup name = some candidates →
      call.signature ∈ candidates →
      ∀ s, notes (call.step s) = notes s ++ [note call.args call.context]) (t : Tree) (s : σ) :
    notes (steps s (t.calls registry aliases context s)) =
      notes s ++ (t.calls registry aliases context s).map fun c => note c.args c.context := by
  have hcalls : ∀ call ∈ t.calls registry aliases context s, ∀ s,
      notes (call.step s) = notes s ++ [note call.args call.context] := by
    intro call hc
    obtain ⟨name, candidates, hlookup, hmem⟩ :=
      (Tree.report registry aliases context t s).proper.registered hc
    exact h call name candidates hlookup hmem
  generalize t.calls registry aliases context s = calls at hcalls
  induction calls generalizing s with
  | nil => exact (List.append_nil _).symm
  | cons call calls ih =>
    have htail := ih (call.step s) fun c hc => hcalls c (List.mem_cons_of_mem call hc)
    rw [hcalls call List.mem_cons_self, List.append_assoc, List.singleton_append] at htail
    exact htail

end Order

end ObjectSpec
