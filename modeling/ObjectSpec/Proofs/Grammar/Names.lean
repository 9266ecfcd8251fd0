import ObjectSpec.Proofs.Grammar.Places
import ObjectSpec.Proofs.Token.Replacement
import ObjectSpec.Proofs.Tree.Retyping

/-!
# The type names in a text

The names among the tokens of a value are the type names of its constructs, in the same
order and at the places where the constructs start (`Derives.names`). Of two neighbours
among these tokens one is always a mark (`Derives.beside`). So the type name of one
construct can be replaced in the text, and what is read is the tree with this type name
(`parse_replace`).
-/

namespace ObjectSpec

open Text (byteCount)
open Token (Beside IsMark IsTypeName)

/-! ## Names among the tokens -/

/-- A name, and where it starts. -/
def Placed.name? (p : Placed) : Option (String × Nat) :=
  match p.token with
  | .name path => some (path, p.span.start)
  | _ => none

theorem Placed.name?_eq_some {p : Placed} {path : String} {start : Nat} :
    p.name? = some (path, start) ↔ p.token = .name path ∧ p.span.start = start := by
  obtain ⟨t, s⟩ := p
  cases t <;> simp [name?]

section Lists
variable {α γ : Type} {part : List Placed → α → Prop} {ts : List Placed} {as : List α}

/-- What is picked from the tokens is picked from the parts; nothing is picked from a comma. -/
theorem Separated.filterMap {f : Placed → Option γ} {g : α → List γ}
    (hcomma : ∀ s, f ⟨.mark .comma, s⟩ = none) (h : Separated part ts as)
    (hpart : ∀ us, ∀ a ∈ as, part us a → us.filterMap f = g a) :
    ts.filterMap f = as.flatMap g := by
  induction h with
  | one ha => simp [hpart _ _ (by simp) ha]
  | more ha _ ih =>
    rw [List.filterMap_append, List.filterMap_cons_none (hcomma _), hpart _ _ (by simp) ha,
      ih fun us a hmem => hpart us a (by simp [hmem]), List.flatMap_cons]

theorem Listed.filterMap {f : Placed → Option γ} {g : α → List γ}
    (hcomma : ∀ s, f ⟨.mark .comma, s⟩ = Option.none) (h : Listed part ts as)
    (hpart : ∀ us, ∀ a ∈ as, part us a → us.filterMap f = g a) :
    ts.filterMap f = as.flatMap g := by
  cases h with
  | none => rfl
  | some h => exact h.filterMap hcomma hpart

end Lists

/-- The type name of a construct, and where it starts. -/
def Call.name (call : Call) : String × Nat := (call.typeName, call.span.start)

/-- The type names, where they are written. -/
theorem Derives.names {ts : List Placed} {t : Tree} (h : Derives ts t) :
    ts.filterMap Placed.name? = t.constructs.map Call.name := by
  have hcomma : ∀ s, Placed.name? ⟨.mark .comma, s⟩ = none := fun _ => rfl
  induction t generalizing ts with
  | literal l => cases h <;> rfl
  | raw written content span =>
    cases h with
    | raw => rfl
  | construct typeName args span ih =>
    cases h with
    | construct h =>
      have hargs := h.filterMap hcomma (g := fun a => a.constructs.map Call.name)
        fun us a ha hu => ih a ha hu
      simp only [List.filterMap_cons, List.filterMap_append, Placed.name?, List.filterMap_nil,
        List.append_nil, Tree.constructs, Tree.constructsList_eq, List.map_cons, List.map_flatMap]
      exact congrArg _ hargs
  | array items span ih =>
    cases h with
    | array h =>
      have hitems := h.filterMap hcomma (g := fun a => a.constructs.map Call.name)
        fun us a ha hu => ih a ha hu
      simpa only [List.filterMap_cons, List.filterMap_append, Placed.name?, List.filterMap_nil,
        List.append_nil, Tree.constructs, Tree.constructsList_eq, List.map_flatMap] using hitems
  | map entries span ih =>
    cases h with
    | map h =>
      have hentries := h.filterMap hcomma (g := fun e => e.2.constructs.map Call.name)
        fun us e he hu => by
          obtain ⟨hu⟩ := hu
          have hvalue := ih _ he hu
          exact hvalue
      simpa only [List.filterMap_cons, List.filterMap_append, Placed.name?, List.filterMap_nil,
        List.append_nil, Tree.constructs, Tree.constructsEntries_eq, List.map_flatMap]
        using hentries

/-- The type name of a construct is one of the tokens, and starts where the construct does. -/
theorem Derives.name_mem {ts : List Placed} {t : Tree} (h : Derives ts t) {call : Call}
    (hcall : call ∈ t.constructs) : ∃ s : Span, ⟨.name call.typeName, s⟩ ∈ ts ∧
      s.start = call.span.start := by
  have hname : call.name ∈ ts.filterMap Placed.name? := by
    rw [h.names]
    exact List.mem_map_of_mem hcall
  obtain ⟨⟨t, s⟩, hp, hs⟩ := List.mem_filterMap.1 hname
  obtain ⟨rfl, hstart⟩ := Placed.name?_eq_some.1 hs
  exact ⟨s, hp, hstart⟩

/-! ## Starts of constructs -/

/-- A token starts behind the start of all before it. -/
theorem InOrder.starts {ts : List Placed} (h : InOrder ts) :
    ts.Pairwise fun p q => p.span.start < q.span.start :=
  h.ordered.imp_of_mem fun hp _ hle => Nat.lt_of_lt_of_le (h.nonempty _ hp) hle

/-- A construct starts behind the start of all before it. -/
theorem Derives.starts {ts : List Placed} {t : Tree} (h : Derives ts t) (hts : InOrder ts) :
    t.constructs.Pairwise fun a b => a.span.start < b.span.start := by
  have hnames : (ts.filterMap Placed.name?).Pairwise fun a b => a.2 < b.2 := by
    refine hts.starts.filterMap _ fun p q hlt a ha b hb => ?_
    rw [← (Placed.name?_eq_some.1 ha).2, ← (Placed.name?_eq_some.1 hb).2]
    exact hlt
  rw [h.names, List.pairwise_map] at hnames
  exact hnames

/-! ## Marks among the tokens -/

section Neighbours
variable {α : Type} {part : List Placed → α → Prop} {ts : List Placed} {as : List α}

theorem beside_cons {m : Mark} {ts : List Token} (h : ts.IsChain Beside) :
    (.mark m :: ts).IsChain Beside :=
  List.isChain_cons.2 ⟨fun _ _ => .inl ⟨m, rfl⟩, h⟩

theorem beside_append {m : Mark} {ts us : List Token} (ht : ts.IsChain Beside)
    (hu : us.IsChain Beside) : (ts ++ .mark m :: us).IsChain Beside := by
  refine List.isChain_append.2 ⟨ht, beside_cons hu, fun t _ u hmark => ?_⟩
  cases hmark
  exact .inr ⟨m, rfl⟩

theorem Separated.beside (h : Separated part ts as)
    (hpart : ∀ us, ∀ a ∈ as, part us a → (us.map Placed.token).IsChain Beside) :
    (ts.map Placed.token).IsChain Beside := by
  induction h with
  | one ha => exact hpart _ _ (by simp) ha
  | more ha _ ih =>
    rw [List.map_append, List.map_cons]
    exact beside_append (hpart _ _ (by simp) ha) (ih fun us a hmem => hpart us a (by simp [hmem]))

theorem Listed.beside (h : Listed part ts as)
    (hpart : ∀ us, ∀ a ∈ as, part us a → (us.map Placed.token).IsChain Beside) :
    (ts.map Placed.token).IsChain Beside := by
  cases h with
  | none => exact .nil
  | some h => exact h.beside hpart

/-- Between two marks, with commas between the parts. -/
theorem Listed.beside_enclosed {m n : Mark} {s e : Span} (h : Listed part ts as)
    (hpart : ∀ us, ∀ a ∈ as, part us a → (us.map Placed.token).IsChain Beside) :
    ((⟨.mark m, s⟩ :: (ts ++ [⟨.mark n, e⟩])).map Placed.token).IsChain Beside := by
  rw [List.map_cons, List.map_append]
  exact beside_cons (beside_append (h.beside hpart) .nil)

end Neighbours

/-- Of two neighbours among the tokens of a value one is a mark. -/
theorem Derives.beside {ts : List Placed} {t : Tree} (h : Derives ts t) :
    (ts.map Placed.token).IsChain Beside := by
  induction t generalizing ts with
  | literal l => cases h <;> exact .singleton _
  | raw written content span =>
    cases h with
    | raw => exact .singleton _
  | construct typeName args span ih =>
    cases h with
    | construct h =>
      refine List.isChain_cons.2 ⟨fun t hmark => ?_, h.beside_enclosed fun us a ha hu => ih a ha hu⟩
      cases hmark
      exact .inr ⟨_, rfl⟩
  | array items span ih =>
    cases h with
    | array h => exact h.beside_enclosed fun us a ha hu => ih a ha hu
  | map entries span ih =>
    cases h with
    | map h =>
      refine h.beside_enclosed fun us e he ⟨hu⟩ => ?_
      -- A key, a colon and the value.
      exact beside_append (.singleton _) (ih _ he hu)

/-! ## Other names -/

/-- The token with the name `name i x` if it is the name `x` and starts at `i`. -/
def Placed.retype (name : Nat → String → String) : Placed → Placed := Placed.relabel name fun i => i

theorem Derives.retype (name : Nat → String → String) {ts : List Placed} {t : Tree}
    (h : Derives ts t) : Derives (ts.map (Placed.retype name)) (t.retype name) :=
  h.relabel name fun i => i

/-- `name` for what starts at `start`, and for the rest the name that it has. -/
def renameAt (start : Nat) (name : String) (i : Nat) (old : String) : String :=
  if i = start then name else old

theorem map_eq_self_of {α : Type} {f : α → α} {as : List α} (h : ∀ a ∈ as, f a = a) :
    as.map f = as := by
  rw [List.map_congr_left h, List.map_id']

theorem Placed.retype_other {start : Nat} {name : String} {p : Placed} (h : p.span.start ≠ start) :
    p.retype (renameAt start name) = p := by
  obtain ⟨t, s⟩ := p
  cases t with
  | name path => simp only [retype, relabel, renameAt, if_neg h, Span.move]
  | _ => rfl

theorem Call.retype_other {start : Nat} {name : String} {call : Call}
    (h : call.span.start ≠ start) : call.retype (renameAt start name) = call := by
  rw [retype, relabel, renameAt, if_neg h]

/-- In a row of things that start one behind the other, only one is changed. -/
theorem map_renameAt {α : Type} {start : α → Nat} {f : α → α} {older newer : List α} {a : α}
    (h : (older ++ a :: newer).Pairwise fun x y => start x < start y)
    (hf : ∀ x, start x ≠ start a → f x = x) :
    (older ++ a :: newer).map f = older ++ f a :: newer := by
  obtain ⟨-, hnewer, holder⟩ := List.pairwise_append.1 h
  rw [List.map_append, List.map_cons, map_eq_self_of fun x hx =>
      hf x (Nat.ne_of_lt (holder x hx a List.mem_cons_self)),
    map_eq_self_of fun x hx => hf x (Nat.ne_of_gt ((List.pairwise_cons.1 hnewer).1 x hx))]

/-- One name among the tokens is that of the construct, and with another name there the tokens are
the value in which this construct has that type name. -/
theorem Derives.replace {ts : List Placed} {t : Tree} (h : Derives ts t) (hts : InOrder ts)
    {call : Call} (hcall : call ∈ t.constructs) : ∃ older s newer,
      ts = older ++ ⟨.name call.typeName, s⟩ :: newer ∧ s.start = call.span.start ∧
      ∀ name, Derives (older ++ ⟨.name name, s⟩ :: newer)
        (t.retype (renameAt call.span.start name)) := by
  obtain ⟨s, hmem, hs⟩ := h.name_mem hcall
  obtain ⟨older, newer, rfl⟩ := List.append_of_mem hmem
  refine ⟨older, s, newer, rfl, hs, fun name => ?_⟩
  have hname : Placed.retype (renameAt call.span.start name) ⟨.name call.typeName, s⟩ =
      ⟨.name name, s⟩ := by
    simp only [Placed.retype, Placed.relabel, renameAt, if_pos hs, Span.move]
  have hretyped := h.retype (renameAt call.span.start name)
  rwa [map_renameAt hts.starts fun p hp => Placed.retype_other (hs ▸ hp), hname] at hretyped

namespace Tree

/-- A text with a construct in it is not one raw text. -/
theorem derives_of_parse {limit : Nat} {source : String} {root : Tree}
    (h : parse limit source = .ok root) (hne : root.constructs ≠ []) :
    ∃ ts, tokenize source = .ok ts ∧ Derives ts root ∧ InOrder ts ∧ root.depth ≤ limit := by
  obtain ⟨ts, htokens, hroot, hdepth⟩ := parse_ok.1 h
  have hpartition := (covers_of_tokenize htokens).partition
  refine ⟨ts, htokens, ?_, ⟨hpartition.nonempty, hpartition.ordered⟩, hdepth⟩
  unfold DerivesSpec at hroot
  split at hroot
  · rw [hroot] at hne
    exact absurd rfl hne
  · exact hroot

/-- Only the construct in question has the other type name. -/
theorem constructs_replace {limit : Nat} {source : String} {root : Tree}
    (h : parse limit source = .ok root) {older newer : List Call} {call : Call}
    (hcall : root.constructs = older ++ call :: newer) (name : String) :
    (root.retype (renameAt call.span.start name)).constructs =
      older ++ { call with typeName := name } :: newer := by
  obtain ⟨ts, -, hd, hts, -⟩ := derives_of_parse h (by rw [hcall]; simp)
  have hstarts := hd.starts hts
  rw [hcall] at hstarts
  rw [retype, constructs_relabel, hcall, ← Call.retype,
    map_renameAt hstarts fun _ => Call.retype_other, Call.retype, Call.relabel, renameAt,
    if_pos rfl]

/-- In the text the type name of a construct stands where the construct starts, and with another
one there the text is read as the tree in which this construct has that type name. -/
theorem parse_replace {limit : Nat} {source : String} {root : Tree}
    (h : parse limit source = .ok root) {call : Call} (hcall : call ∈ root.constructs) :
    ∃ front rest : String, source = front ++ call.typeName ++ rest ∧
      byteCount front.toList = call.span.start ∧
      ∀ name, IsTypeName name → ∃ edited, parse limit (front ++ name ++ rest) = .ok edited ∧
        edited.shape = (root.retype (renameAt call.span.start name)).shape := by
  obtain ⟨ts, htokens, hd, hts, hdepth⟩ := derives_of_parse h (List.ne_nil_of_mem hcall)
  obtain ⟨older, s, newer, rfl, hs, hreplace⟩ := hd.replace hts hcall
  obtain ⟨front, rest, hsource, hfront, hread⟩ := tokenize_replace htokens hd.beside
  refine ⟨front, rest, hsource, hfront.trans hs, fun name hname => ?_⟩
  obtain ⟨ps, hps, hsame⟩ := hread name hname
  obtain ⟨edited, hedited, hshape⟩ := (hreplace name).of_tokens
    (hsame.trans (by rw [List.map_append, List.map_cons]))
  refine ⟨edited, parse_ok.2 ⟨ps, hps, (derivesSpec_of_ne_raw ?_).2 hedited, ?_⟩, hshape⟩
  · -- There is a name among the tokens.
    rintro written content e rfl
    have hmem : Token.name name ∈ [Token.raw written content] := by
      rw [show [Token.raw written content] = _ from hsame]
      simp
    cases List.mem_singleton.1 hmem
  · rw [depth_eq_of_shape hshape, retype, depth_relabel]
    exact hdepth

end Tree

end ObjectSpec
