import ObjectSpec.Tree.Render

/-!
# The shape of a tree

What is left of a tree when its spans are forgotten: the kinds of its nodes, type
names, keys, literals and raw texts, in their order and with repeated keys. Two
trees with one shape are equal in everything but spans.

Depth and canonical text are matters of the shape alone.
-/

namespace ObjectSpec.Tree

/-! ## Induction over a tree -/

/-- A property of all trees may be assumed of the parts of a node. -/
@[induction_eliminator]
theorem induct {P : Tree → Prop} (literal : ∀ l, P (.literal l))
    (construct : ∀ typeName args span, (∀ a ∈ args, P a) → P (.construct typeName args span))
    (array : ∀ items span, (∀ a ∈ items, P a) → P (.array items span))
    (map : ∀ entries span, (∀ e ∈ entries, P e.2) → P (.map entries span))
    (raw : ∀ written content span, P (.raw written content span)) (t : Tree) : P t := by
  refine @Tree.rec P (fun ts => ∀ a ∈ ts, P a) (fun es => ∀ e ∈ es, P e.2) (fun e => P e.2)
    literal construct array map raw ?_ ?_ ?_ ?_ (fun _ _ h => h) t
  · intro a ha
    cases ha
  · intro t ts ht hts a ha
    rcases List.mem_cons.1 ha with rfl | ha
    · exact ht
    · exact hts a ha
  · intro e he
    cases he
  · intro e es he hes a ha
    rcases List.mem_cons.1 ha with rfl | ha
    · exact he
    · exact hes a ha

/-! ## Depth through the parts -/

theorem depthList_le {ts : List Tree} {n : Nat} : depthList ts ≤ n ↔ ∀ t ∈ ts, t.depth ≤ n := by
  induction ts with
  | nil => simp [depthList]
  | cons t ts ih => rw [depthList, Nat.max_le, ih, List.forall_mem_cons]

theorem depthEntries_le {es : List (String × Tree)} {n : Nat} :
    depthEntries es ≤ n ↔ ∀ e ∈ es, e.2.depth ≤ n := by
  induction es with
  | nil => simp [depthEntries]
  | cons e es ih => rw [depthEntries, Nat.max_le, ih, List.forall_mem_cons]

theorem depth_construct_le {typeName : String} {args : List Tree} {span : Span} {n : Nat} :
    (construct typeName args span).depth ≤ n + 1 ↔ ∀ a ∈ args, a.depth ≤ n := by
  rw [depth, Nat.add_comm, Nat.add_le_add_iff_right, depthList_le]

theorem depth_array_le {items : List Tree} {span : Span} {n : Nat} :
    (array items span).depth ≤ n + 1 ↔ ∀ a ∈ items, a.depth ≤ n := by
  rw [depth, Nat.add_comm, Nat.add_le_add_iff_right, depthList_le]

theorem depth_map_le {entries : List (String × Tree)} {span : Span} {n : Nat} :
    (map entries span).depth ≤ n + 1 ↔ ∀ e ∈ entries, e.2.depth ≤ n := by
  rw [depth, Nat.add_comm, Nat.add_le_add_iff_right, depthEntries_le]

theorem levels_of_construct {typeName : String} {args : List Tree} {span : Span} {levels : Nat}
    (h : (construct typeName args span).depth ≤ levels) :
    ∃ n, levels = n + 1 ∧ ∀ a ∈ args, a.depth ≤ n := by
  cases levels with
  | zero => simp [depth] at h
  | succ n => exact ⟨n, rfl, depth_construct_le.1 h⟩

theorem levels_of_array {items : List Tree} {span : Span} {levels : Nat}
    (h : (array items span).depth ≤ levels) : ∃ n, levels = n + 1 ∧ ∀ a ∈ items, a.depth ≤ n := by
  cases levels with
  | zero => simp [depth] at h
  | succ n => exact ⟨n, rfl, depth_array_le.1 h⟩

theorem levels_of_map {entries : List (String × Tree)} {span : Span} {levels : Nat}
    (h : (map entries span).depth ≤ levels) :
    ∃ n, levels = n + 1 ∧ ∀ e ∈ entries, e.2.depth ≤ n := by
  cases levels with
  | zero => simp [depth] at h
  | succ n => exact ⟨n, rfl, depth_map_le.1 h⟩

/-! ## Other type names and spans -/

mutual

/-- The tree with the type name `name i x` wherever a construct that starts at `i` has `x`, and
with `f s` wherever it has the span `s`. -/
def relabel (name : Nat → String → String) (f : Span → Span) : Tree → Tree
  | .literal l => .literal l
  | .construct typeName args span =>
    .construct (name span.start typeName) (relabelList name f args) (f span)
  | .array items span => .array (relabelList name f items) (f span)
  | .map entries span => .map (relabelEntries name f entries) (f span)
  | .raw written content span => .raw written content (f span)

def relabelList (name : Nat → String → String) (f : Span → Span) : List Tree → List Tree
  | [] => []
  | t :: ts => relabel name f t :: relabelList name f ts

def relabelEntries (name : Nat → String → String) (f : Span → Span) :
    List (String × Tree) → List (String × Tree)
  | [] => []
  | (key, t) :: es => (key, relabel name f t) :: relabelEntries name f es

end

/-- The tree with `f s` wherever it has the span `s`. -/
def respan (f : Span → Span) : Tree → Tree := relabel (fun _ x => x) f

/-- The tree without its spans. -/
def shape (t : Tree) : Tree := t.respan fun _ => {}

section
variable (name : Nat → String → String) (f : Span → Span)

theorem relabelList_eq (ts : List Tree) : relabelList name f ts = ts.map (relabel name f) := by
  induction ts with
  | nil => rfl
  | cons t ts ih => rw [relabelList, ih, List.map_cons]

theorem relabelEntries_eq (es : List (String × Tree)) :
    relabelEntries name f es = es.map fun e => (e.1, e.2.relabel name f) := by
  induction es with
  | nil => rfl
  | cons e es ih => rw [relabelEntries, ih, List.map_cons]

end

theorem shape_construct (typeName : String) (args : List Tree) (span : Span) :
    (construct typeName args span).shape = construct typeName (args.map shape) {} := by
  rw [shape, respan, relabel, relabelList_eq]
  rfl

theorem shape_array (items : List Tree) (span : Span) :
    (array items span).shape = array (items.map shape) {} := by
  rw [shape, respan, relabel, relabelList_eq]
  rfl

theorem shape_map (entries : List (String × Tree)) (span : Span) :
    (map entries span).shape = map (entries.map fun e => (e.1, e.2.shape)) {} := by
  rw [shape, respan, relabel, relabelEntries_eq]
  rfl

/-! ## What type names and spans do not matter for -/

mutual

theorem depth_relabel (name : Nat → String → String) (f : Span → Span) :
    ∀ t : Tree, (t.relabel name f).depth = t.depth
  | .literal _ => rfl
  | .construct _ args _ => by rw [relabel, depth, depth, depthList_relabel name f args]
  | .array items _ => by rw [relabel, depth, depth, depthList_relabel name f items]
  | .map entries _ => by rw [relabel, depth, depth, depthEntries_relabel name f entries]
  | .raw _ _ _ => rfl

theorem depthList_relabel (name : Nat → String → String) (f : Span → Span) :
    ∀ ts : List Tree, depthList (relabelList name f ts) = depthList ts
  | [] => rfl
  | t :: ts => by
    rw [relabelList, depthList, depthList, depth_relabel name f t, depthList_relabel name f ts]

theorem depthEntries_relabel (name : Nat → String → String) (f : Span → Span) :
    ∀ es : List (String × Tree), depthEntries (relabelEntries name f es) = depthEntries es
  | [] => rfl
  | (_, t) :: es => by
    rw [relabelEntries, depthEntries, depthEntries, depth_relabel name f t,
      depthEntries_relabel name f es]

end

mutual

theorem render_respan (f : Span → Span) : ∀ t : Tree, (t.respan f).render = t.render
  | .literal _ => rfl
  | .construct _ args _ => by rw [respan, relabel, render, render, renderList_respan f args]
  | .array items _ => by rw [respan, relabel, render, render, renderList_respan f items]
  | .map entries _ => by rw [respan, relabel, render, render, renderEntries_respan f entries]
  | .raw _ _ _ => rfl

theorem renderList_respan (f : Span → Span) :
    ∀ ts : List Tree, renderList (relabelList (fun _ x => x) f ts) = renderList ts
  | [] => rfl
  | t :: ts => by
    rw [relabelList, renderList, renderList, ← respan, render_respan f t, renderList_respan f ts]

theorem renderEntries_respan (f : Span → Span) : ∀ es : List (String × Tree),
    renderEntries (relabelEntries (fun _ x => x) f es) = renderEntries es
  | [] => rfl
  | (_, t) :: es => by
    rw [relabelEntries, renderEntries, renderEntries, ← respan, render_respan f t,
      renderEntries_respan f es]

end

/-- Trees of one shape are nested equally deep. -/
theorem depth_eq_of_shape {t u : Tree} (h : t.shape = u.shape) : t.depth = u.depth :=
  calc t.depth
      = t.shape.depth := (depth_relabel _ _ t).symm
    _ = u.shape.depth := congrArg depth h
    _ = u.depth := depth_relabel _ _ u

/-- Trees of one shape have one canonical text. -/
theorem render_eq_of_shape {t u : Tree} (h : t.shape = u.shape) : t.render = u.render :=
  calc t.render
      = t.shape.render := (render_respan _ t).symm
    _ = u.shape.render := congrArg render h
    _ = u.render := render_respan _ u

end ObjectSpec.Tree
