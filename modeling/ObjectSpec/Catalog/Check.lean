import ObjectSpec.Diagnostic.Basic
import ObjectSpec.Text.Similarity
import ObjectSpec.Tree.Walk

/-!
# Checking a tree against a catalog

A catalog knows the names of the types that can be constructed. A check finds
every construct of a type it does not know, and every construct of a known type
with a number of arguments that the type does not take. Nothing is built.
-/

namespace ObjectSpec

structure Catalog where
  contains : String → Bool
  /-- The names to suggest, in order. -/
  names : List String
  /-- The numbers of arguments that a type takes, if they are known. -/
  arities : String → Option (List Nat)

namespace Catalog

/-- Names below this similarity are not suggested. -/
def threshold : Double := Text.fraction 85 2

/-- The candidate with the highest score, of several the last. -/
def best : List (String × Double) → Option (String × Double)
  | [] => none
  | c :: cs =>
    match best cs with
    | some d => if c.2.atMost d.2 then some d else some c
    | none => some c

/-- The known name that is most similar to an unknown one. -/
def suggest (catalog : Catalog) (name : String) : Option String :=
  let scored := catalog.names.map fun k => (k, Text.similarity name k)
  (best (scored.filter fun c => threshold.atMost c.2)).map Prod.fst

/-- Where the type name of a construct stands. -/
def nameRange (source : String) (call : Call) : LineRange :=
  LineRange.ofOffsets source call.span.start
    (call.span.start + Text.byteCount call.typeName.toList)

/-- What there is to say about a construct. -/
def finding (catalog : Catalog) (source : String) (call : Call) : Option Diagnostic :=
  let range := nameRange source call
  if catalog.contains call.typeName then
    match catalog.arities call.typeName with
    | some accepted =>
      if accepted.contains call.arity then none
      else some (.arityMismatch call.typeName call.arity accepted (some range))
    | none => none
  else
    let fix := (catalog.suggest call.typeName).map fun name =>
      { description := s!"did you mean '{name}'?", replacement := name, range : Fix }
    some { Diagnostic.unknownType call.typeName (some range) with fix }

/-- The result of a check. -/
structure Report where
  diagnostics : List Diagnostic
  constructs : Nat
  unknown : Nat
  raws : Nat
  depth : Nat

namespace Report

def hasErrors (r : Report) : Bool := r.diagnostics.any Diagnostic.isError

def isValid (r : Report) : Bool := !r.hasErrors

end Report

/-- Check every construct of a tree, in the order of the text. -/
def check (catalog : Catalog) (source : String) (tree : Tree) : Report :=
  let calls := tree.constructs
  { diagnostics := calls.filterMap (catalog.finding source)
    constructs := calls.length
    unknown := calls.countP fun c => !catalog.contains c.typeName
    raws := tree.rawCount
    depth := tree.depth }

end Catalog

end ObjectSpec
