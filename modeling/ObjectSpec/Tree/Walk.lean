import ObjectSpec.Tree.Basic

/-!
# Walking a tree

Depth first, parts in order. `leaves` meets the literals and raw texts,
`constructs` the constructs, each before the ones in its arguments.
-/

namespace ObjectSpec

/-- A node without parts. -/
inductive Leaf
  | literal (value : Literal)
  | raw (written content : String)

namespace Tree

mutual

def leaves : Tree → List Leaf
  | .literal l => [.literal l]
  | .construct _ args _ => leavesList args
  | .array items _ => leavesList items
  | .map entries _ => leavesEntries entries
  | .raw written content _ => [.raw written content]

def leavesList : List Tree → List Leaf
  | [] => []
  | t :: ts => leaves t ++ leavesList ts

def leavesEntries : List (String × Tree) → List Leaf
  | [] => []
  | (_, t) :: es => leaves t ++ leavesEntries es

end

/-- How many raw texts a tree holds. -/
def rawCount (t : Tree) : Nat :=
  t.leaves.countP fun l => match l with
    | .raw _ _ => true
    | .literal _ => false

end Tree

/-- A construct without the parts of its arguments. -/
structure Call where
  typeName : String
  arity : Nat
  span : Span
deriving DecidableEq

namespace Tree

mutual

/-- The constructs, the outer before the inner. -/
def constructs : Tree → List Call
  | .literal _ => []
  | .construct typeName args span => ⟨typeName, args.length, span⟩ :: constructsList args
  | .array items _ => constructsList items
  | .map entries _ => constructsEntries entries
  | .raw _ _ _ => []

def constructsList : List Tree → List Call
  | [] => []
  | t :: ts => constructs t ++ constructsList ts

def constructsEntries : List (String × Tree) → List Call
  | [] => []
  | (_, t) :: es => constructs t ++ constructsEntries es

end

end Tree

end ObjectSpec
