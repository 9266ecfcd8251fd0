import ObjectSpec.Proofs.Tree.Place
import ObjectSpec.Proofs.Tree.Retyping
import ObjectSpec.Tree.Walk

/-!
# The nodes of a tree in order

A walk meets every node once, each before its parts and the parts in their order: the ways to the
nodes are in lexicographic order (`nodes_ordered`), and they are all the ways that lead to a node
(`mem_nodes`). So what a walk gathers, such as the constructs, it gathers from this row of nodes
(`filterMap_nodes`).
-/

namespace ObjectSpec.Tree

/-! ## The nodes in order -/

mutual

/-- The nodes of a tree, each before its parts, and the ways to them. -/
def nodes : Tree → List (List Nat × Tree)
  | .literal l => [([], .literal l)]
  | .construct typeName args span => ([], .construct typeName args span) :: nodesList 0 args
  | .array items span => ([], .array items span) :: nodesList 0 items
  | .map entries span => ([], .map entries span) :: nodesEntries 0 entries
  | .raw written content span => [([], .raw written content span)]

def nodesList (i : Nat) : List Tree → List (List Nat × Tree)
  | [] => []
  | t :: ts => (nodes t).map (fun place => (i :: place.1, place.2)) ++ nodesList (i + 1) ts

def nodesEntries (i : Nat) : List (String × Tree) → List (List Nat × Tree)
  | [] => []
  | (_, t) :: es => (nodes t).map (fun place => (i :: place.1, place.2)) ++ nodesEntries (i + 1) es

end

theorem nodesEntries_eq (i : Nat) (es : List (String × Tree)) :
    nodesEntries i es = nodesList i (es.map Prod.snd) := by
  induction es generalizing i with
  | nil => rfl
  | cons e es ih => rw [nodesEntries, ih, List.map_cons, nodesList]

theorem nodes_eq (t : Tree) : t.nodes = ([], t) :: nodesList 0 t.parts := by
  cases t with
  | literal l => rfl
  | construct typeName args span => rfl
  | array items span => rfl
  | map entries span => rw [nodes, nodesEntries_eq, parts]
  | raw written content span => rfl

/-- A node below a list stands in one of its trees. -/
theorem mem_nodesList {i : Nat} {ts : List Tree} {way : List Nat} {node : Tree} :
    (way, node) ∈ nodesList i ts ↔
      ∃ j on t, way = (i + j) :: on ∧ ts[j]? = some t ∧ (on, node) ∈ t.nodes := by
  induction ts generalizing i with
  | nil => simp [nodesList]
  | cons t ts ih =>
    rw [nodesList, List.mem_append, List.mem_map, ih]
    constructor
    · rintro (⟨⟨on, _⟩, hmem, heq⟩ | ⟨j, on, u, rfl, hu, hmem⟩)
      · cases heq
        exact ⟨0, on, t, rfl, rfl, hmem⟩
      · exact ⟨j + 1, on, u, by rw [Nat.add_assoc, Nat.add_comm 1 j], hu, hmem⟩
    · rintro ⟨j, on, u, rfl, hu, hmem⟩
      cases j with
      | zero =>
        cases hu
        exact .inl ⟨(on, node), hmem, rfl⟩
      | succ j => exact .inr ⟨j, on, u, by rw [Nat.add_assoc, Nat.add_comm 1 j], hu, hmem⟩

/-- The nodes are all that a way leads to. -/
theorem mem_nodes {t : Tree} {way : List Nat} {node : Tree} :
    (way, node) ∈ t.nodes ↔ t.at? way = some node := by
  induction t using inductParts generalizing way with
  | step t ih =>
    rw [nodes_eq, List.mem_cons, mem_nodesList]
    cases way with
    | nil => simp [at?, eq_comm]
    | cons i way =>
      rw [at?, Option.bind_eq_some_iff]
      constructor
      · rintro (heq | ⟨j, on, part, heq, hpart, hmem⟩)
        · cases heq
        · rw [Nat.zero_add] at heq
          cases heq
          exact ⟨part, hpart, (ih part (List.mem_of_getElem? hpart)).1 hmem⟩
      · rintro ⟨part, hpart, hat⟩
        exact .inr ⟨i, way, part, by rw [Nat.zero_add], hpart,
          (ih part (List.mem_of_getElem? hpart)).2 hat⟩

theorem nodesList_ordered {i : Nat} {ts : List Tree}
    (h : ∀ t ∈ ts, (t.nodes.map Prod.fst).Pairwise (· < ·)) :
    ((nodesList i ts).map Prod.fst).Pairwise (· < ·) := by
  induction ts generalizing i with
  | nil => exact .nil
  | cons t ts ih =>
    have hfirst : ((t.nodes.map fun place => (i :: place.1, place.2)).map Prod.fst).Pairwise
        (· < ·) := by
      rw [List.map_map, List.pairwise_map]
      refine (List.pairwise_map.1 (h t List.mem_cons_self)).imp fun hlt => ?_
      exact List.cons_lt_cons_iff.2 (.inr ⟨rfl, hlt⟩)
    have hrest := ih (i := i + 1) fun u hu => h u (List.mem_cons_of_mem t hu)
    rw [nodesList, List.map_append]
    refine List.pairwise_append.2 ⟨hfirst, hrest, fun a ha b hb => ?_⟩
    -- The ways into one tree start with a smaller number than those into a later one.
    obtain ⟨place, hplace, rfl⟩ := List.mem_map.1 ha
    obtain ⟨⟨on, -⟩, -, rfl⟩ := List.mem_map.1 hplace
    obtain ⟨⟨way, node⟩, hmem, rfl⟩ := List.mem_map.1 hb
    obtain ⟨j, later, u, rfl, -, -⟩ := mem_nodesList.1 hmem
    exact List.cons_lt_cons_iff.2 (.inl (by omega))

/-- Each node stands before its parts, and these stand in their order. -/
theorem nodes_ordered (t : Tree) : (t.nodes.map Prod.fst).Pairwise (· < ·) := by
  induction t using inductParts with
  | step t ih =>
    rw [nodes_eq, List.map_cons, List.pairwise_cons]
    refine ⟨fun way hway => ?_, nodesList_ordered ih⟩
    obtain ⟨⟨_, node⟩, hmem, rfl⟩ := List.mem_map.1 hway
    obtain ⟨j, on, u, rfl, -, -⟩ := mem_nodesList.1 hmem
    exact List.nil_lt_cons _ _

/-! ## What a walk gathers -/

section Walks
variable {α : Type} {own : Tree → Option α} {gather : Tree → List α}

theorem filterMap_nodesList {i : Nat} {ts : List Tree}
    (h : ∀ t ∈ ts, t.nodes.filterMap (fun place => own place.2) = gather t) :
    (nodesList i ts).filterMap (fun place => own place.2) = ts.flatMap gather := by
  induction ts generalizing i with
  | nil => rfl
  | cons t ts ih =>
    rw [nodesList, List.filterMap_append, List.filterMap_map, List.flatMap_cons,
      ih fun u hu => h u (List.mem_cons_of_mem t hu), ← h t List.mem_cons_self]
    rfl

/-- What is gathered from a node and then from its parts is gathered from the row of nodes. -/
theorem filterMap_nodes (h : ∀ t, gather t = (own t).toList ++ t.parts.flatMap gather) (t : Tree) :
    t.nodes.filterMap (fun place => own place.2) = gather t := by
  induction t using inductParts with
  | step t ih =>
    rw [nodes_eq, h t, ← filterMap_nodesList ih, List.filterMap_cons]
    cases own t <;> rfl

end Walks

/-- A construct, as a walk meets it. -/
def call? : Tree → Option Call
  | .construct typeName args span => some ⟨typeName, args.length, span⟩
  | _ => none

theorem constructs_parts (t : Tree) :
    t.constructs = t.call?.toList ++ t.parts.flatMap constructs := by
  cases t with
  | literal l => rfl
  | construct typeName args span => rw [constructs, constructsList_eq]; rfl
  | array items span => rw [constructs, constructsList_eq]; rfl
  | map entries span => rw [constructs, constructsEntries_eq, parts, List.flatMap_map]; rfl
  | raw written content span => rfl

def leaf? : Tree → Option Leaf
  | .literal l => some (.literal l)
  | .raw written content _ => some (.raw written content)
  | _ => none

theorem leavesList_eq (ts : List Tree) : leavesList ts = ts.flatMap leaves := by
  induction ts with
  | nil => rfl
  | cons t ts ih => rw [leavesList, ih, List.flatMap_cons]

theorem leavesEntries_eq (es : List (String × Tree)) :
    leavesEntries es = es.flatMap fun e => leaves e.2 := by
  induction es with
  | nil => rfl
  | cons e es ih => rw [leavesEntries, ih, List.flatMap_cons]

theorem leaves_parts (t : Tree) : t.leaves = t.leaf?.toList ++ t.parts.flatMap leaves := by
  cases t with
  | literal l => rfl
  | construct typeName args span => rw [leaves, leavesList_eq]; rfl
  | array items span => rw [leaves, leavesList_eq]; rfl
  | map entries span => rw [leaves, leavesEntries_eq, parts, List.flatMap_map]; rfl
  | raw written content span => rfl

theorem constructs_eq_nodes (t : Tree) :
    t.constructs = t.nodes.filterMap fun place => place.2.call? :=
  (filterMap_nodes constructs_parts t).symm

/-- The raw texts among the leaves are those among the nodes. -/
theorem rawCount_eq_nodes (t : Tree) :
    t.rawCount = t.nodes.countP fun place => place.2.isRaw := by
  rw [rawCount, ← filterMap_nodes leaves_parts t, List.countP_filterMap]
  congr 1
  funext place
  cases place.2 <;> rfl

/-! ## Depth -/

/-- The depth is one more than the number of steps to the deepest construct, array or map. -/
theorem depth_le_iff {t : Tree} {n : Nat} : t.depth ≤ n ↔
    ∀ way node, t.at? way = some node → node.isContainer = true → way.length < n := by
  induction t using inductParts generalizing n with
  | step t ih =>
    cases n with
    | zero =>
      rw [depth_le_zero]
      constructor
      · intro hleaf way node hnode hcontainer
        cases way with
        | nil =>
          cases hnode
          rw [hleaf] at hcontainer
          cases hcontainer
        | cons i way =>
          rw [at?, parts_of_not_isContainer hleaf] at hnode
          cases hnode
      · intro h
        exact Bool.eq_false_iff.2 fun hcontainer => Nat.not_lt_zero _ (h [] t rfl hcontainer)
    | succ n =>
      rw [depth_le_succ]
      constructor
      · intro h way node hnode hcontainer
        cases way with
        | nil => exact Nat.zero_lt_succ n
        | cons i way =>
          obtain ⟨part, hpart, hnode⟩ := Option.bind_eq_some_iff.1 hnode
          have hmem := List.mem_of_getElem? hpart
          exact Nat.succ_lt_succ ((ih part hmem).1 (h part hmem) way node hnode hcontainer)
      · intro h part hmem
        obtain ⟨i, hpart⟩ := List.getElem?_of_mem hmem
        refine (ih part hmem).2 fun way node hnode hcontainer => ?_
        refine Nat.lt_of_succ_lt_succ (h (i :: way) node ?_ hcontainer)
        rw [at?, hpart]
        exact hnode

end ObjectSpec.Tree
