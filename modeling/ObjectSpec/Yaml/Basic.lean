/-!
# YAML nodes

A document is a node: a scalar with its text, or a mapping. A node may be
anchored, and a reference stands for an anchored node. Sequences are left out:
settings hold none, so a text with one is refused like any text that is no YAML.
-/

namespace ObjectSpec

/-- How a scalar is written. -/
inductive Yaml.Style
  | plain
  | quoted
  | literal
  | folded
deriving DecidableEq

inductive Yaml
  /-- A scalar. Each character of the tag stands for one byte of it. -/
  | scalar (style : Yaml.Style) (tag : Option (List Char)) (text : String)
  | mapping (entries : List (Yaml × Yaml))
  /-- A node that references can stand for. -/
  | anchored (slot : Nat) (node : Yaml)
  | reference (slot : Nat)

namespace Yaml

/-- A value that is not there. -/
def absent : Yaml := .scalar .plain none ""

/-- The tag of whole numbers. -/
def integerTag : List Char := "tag:yaml.org,2002:int".toList

mutual

/-- The anchored nodes, in the order in which they start. -/
def anchors : Yaml → List (Nat × Yaml)
  | .scalar .. | .reference _ => []
  | .mapping entries => anchorsOfEntries entries
  | .anchored slot node => (slot, node) :: anchors node

def anchorsOfEntries : List (Yaml × Yaml) → List (Nat × Yaml)
  | [] => []
  | (key, value) :: entries => anchors key ++ anchors value ++ anchorsOfEntries entries

end

/-- The node itself, or the one it stands for in the document `root`. Of the nodes anchored in one
slot it is the last. -/
def resolve? (root : Yaml) : Yaml → Option Yaml
  | .anchored _ node => some node
  | .reference slot => root.anchors.reverse.lookup slot
  | node => some node

end Yaml

end ObjectSpec
