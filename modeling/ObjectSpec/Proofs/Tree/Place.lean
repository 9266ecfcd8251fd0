import ObjectSpec.Proofs.Tree.Shape

/-!
# Places in a tree

A node is found by the way to it from the root: which of its parts to take at each node
on the way. The empty way leads to the root itself. What holds of a node by what it is and by
its parts can be shown without a look at its kind (`inductParts`, `depth_le_succ`).
-/

namespace ObjectSpec.Tree

/-- The trees right below a node, in the order of the text. -/
def parts : Tree → List Tree
  | .literal _ => []
  | .construct _ args _ => args
  | .array items _ => items
  | .map entries _ => entries.map Prod.snd
  | .raw _ _ _ => []

/-- The node that a way leads to. -/
def at? (t : Tree) : List Nat → Option Tree
  | [] => some t
  | i :: way => t.parts[i]?.bind fun part => part.at? way

/-- One part of a node, and on from there. -/
theorem at?_part {node t : Tree} {older newer : List Tree} (h : node.parts = older ++ t :: newer)
    (way : List Nat) : node.at? (older.length :: way) = t.at? way := by
  rw [at?, h, List.getElem?_append_right (Nat.le_refl _), Nat.sub_self]
  rfl

/-! ## A node and its parts -/

/-- A property of all trees may be assumed of what stands right below a node. -/
theorem inductParts {P : Tree → Prop} (step : ∀ t, (∀ part ∈ t.parts, P part) → P t) (t : Tree) :
    P t := by
  induction t with
  | literal l => exact step _ fun part hpart => nomatch hpart
  | construct typeName args span ih => exact step _ ih
  | array items span ih => exact step _ ih
  | map entries span ih =>
    refine step _ fun part hpart => ?_
    obtain ⟨e, he, rfl⟩ := List.mem_map.1 hpart
    exact ih e he
  | raw written content span => exact step _ fun part hpart => nomatch hpart

/-- A node that may have parts. -/
def isContainer : Tree → Bool
  | .construct _ _ _ | .array _ _ | .map _ _ => true
  | .literal _ | .raw _ _ _ => false

theorem parts_of_not_isContainer {t : Tree} (h : t.isContainer = false) : t.parts = [] := by
  cases t with
  | literal l => rfl
  | raw written content span => rfl
  | construct | array | map => cases h

theorem depth_le_zero {t : Tree} : t.depth ≤ 0 ↔ t.isContainer = false := by
  cases t <;> simp [depth, isContainer]

theorem depth_le_succ {t : Tree} {n : Nat} :
    t.depth ≤ n + 1 ↔ ∀ part ∈ t.parts, part.depth ≤ n := by
  cases t with
  | literal l => simp [depth, parts]
  | construct typeName args span => exact depth_construct_le
  | array items span => exact depth_array_le
  | map entries span => rw [depth_map_le, parts, List.forall_mem_map]
  | raw written content span => simp [depth, parts]

end ObjectSpec.Tree
