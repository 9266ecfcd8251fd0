import ObjectSpec.Proofs.Grammar.Derivation

/-!
# Other names and places in a row of tokens

The names among the tokens of a value may be other ones, and the tokens may stand elsewhere:
they are a value again, whose tree is changed in the same way (`Derives.relabel`). What the
grammar looks at are the marks, and these stay what they are.
-/

namespace ObjectSpec

/-! ## Lists -/

section Lists
variable {α β : Type} {part : List Placed → α → Prop} {ts : List Placed} {as : List α}

/-- Parts are changed one by one, and with them the tokens; commas stay commas. -/
theorem Separated.map {part' : List Placed → β → Prop} {g : Placed → Placed} {f : α → β}
    (hcomma : ∀ s, ∃ e, g ⟨.mark .comma, s⟩ = ⟨.mark .comma, e⟩) (h : Separated part ts as)
    (hpart : ∀ us, ∀ a ∈ as, part us a → part' (us.map g) (f a)) :
    Separated part' (ts.map g) (as.map f) := by
  induction h with
  | one ha => exact .one (hpart _ _ (by simp) ha)
  | @more _ _ _ _ s ha _ ih =>
    obtain ⟨e, he⟩ := hcomma s
    rw [List.map_append, List.map_cons, List.map_cons, he]
    exact .more (hpart _ _ (by simp) ha) (ih fun us a hmem => hpart us a (by simp [hmem]))

theorem Listed.map {part' : List Placed → β → Prop} {g : Placed → Placed} {f : α → β}
    (hcomma : ∀ s, ∃ e, g ⟨.mark .comma, s⟩ = ⟨.mark .comma, e⟩) (h : Listed part ts as)
    (hpart : ∀ us, ∀ a ∈ as, part us a → part' (us.map g) (f a)) :
    Listed part' (ts.map g) (as.map f) := by
  cases h with
  | none => exact .none
  | some h => exact .some (h.map hcomma hpart)

end Lists

/-! ## Values -/

/-- The span between the places that `f` makes of its ends. -/
def Span.move (f : Nat → Nat) (s : Span) : Span := ⟨f s.start, f s.stop⟩

/-- The token at the places that `move` makes of its own, with the name `name i x` if it is the
name `x` and starts at `i`. -/
def Placed.relabel (name : Nat → String → String) (move : Nat → Nat) (p : Placed) : Placed :=
  match p.token with
  | .name path => ⟨.name (name p.span.start path), p.span.move move⟩
  | t => ⟨t, p.span.move move⟩

/-- With other names and at other places the tokens are the tree with these names and places. -/
theorem Derives.relabel (name : Nat → String → String) (move : Nat → Nat) {ts : List Placed}
    {t : Tree} (h : Derives ts t) :
    Derives (ts.map (Placed.relabel name move)) (t.relabel name (Span.move move)) := by
  have hcomma : ∀ s, ∃ e, Placed.relabel name move ⟨.mark .comma, s⟩ = ⟨.mark .comma, e⟩ :=
    fun s => ⟨s.move move, rfl⟩
  induction t generalizing ts with
  | literal l =>
    cases h with
    | string => exact .string
    | boolean => exact .boolean
    | number hl => exact .number hl
  | raw written content span =>
    cases h with
    | raw => exact .raw
  | construct typeName args span ih =>
    cases h with
    | construct h =>
      have hargs := h.map hcomma (f := Tree.relabel name (Span.move move))
        fun us a ha hu => ih a ha hu
      rw [← Tree.relabelList_eq] at hargs
      rw [List.map_cons, List.map_cons, List.map_append, Tree.relabel]
      exact .construct hargs
  | array items span ih =>
    cases h with
    | array h =>
      have hitems := h.map hcomma (f := Tree.relabel name (Span.move move))
        fun us a ha hu => ih a ha hu
      rw [← Tree.relabelList_eq] at hitems
      rw [List.map_cons, List.map_append, Tree.relabel]
      exact .array hitems
  | map entries span ih =>
    cases h with
    | map h =>
      have hentries := h.map hcomma (f := fun e => (e.1, e.2.relabel name (Span.move move)))
        fun us e he ⟨hu⟩ => Entry.mk (ih _ he hu)
      rw [← Tree.relabelEntries_eq] at hentries
      rw [List.map_cons, List.map_append, Tree.relabel]
      exact .map hentries

end ObjectSpec
