import ObjectSpec.Proofs.Tree.Place
import ObjectSpec.Tree.Walk

/-!
# Other type names

`retype` changes the type names of a tree, each with a look at where its construct starts;
`rename` changes them wherever they stand. The parts of a node and the constructs of a tree go
along with other names and spans (`parts_relabel`, `constructs_relabel`).
-/

namespace ObjectSpec

namespace Call

/-- The construct with the type name that `name` makes of its place and type name, and with the
span that `f` makes of its span. -/
def relabel (name : Nat → String → String) (f : Span → Span) (call : Call) : Call :=
  { call with typeName := name call.span.start call.typeName, span := f call.span }

/-- The construct with the type name that `name` makes of its place and type name. -/
def retype (name : Nat → String → String) : Call → Call := relabel name fun s => s

/-- The construct without its span. -/
def shape : Call → Call := relabel (fun _ x => x) fun _ => {}

end Call

namespace Tree

/-- The tree with the type name `name i x` wherever a construct that starts at `i` has `x`. -/
def retype (name : Nat → String → String) : Tree → Tree := relabel name fun s => s

/-- The tree with the type name `f x` wherever it has `x`. -/
def rename (f : String → String) : Tree → Tree := retype fun _ => f

theorem parts_relabel (name : Nat → String → String) (f : Span → Span) (t : Tree) :
    (t.relabel name f).parts = t.parts.map (relabel name f) := by
  cases t with
  | literal l => rfl
  | construct typeName args span => exact relabelList_eq name f args
  | array items span => exact relabelList_eq name f items
  | map entries span =>
    rw [relabel, parts, parts, relabelEntries_eq, List.map_map, List.map_map]
    rfl
  | raw written content span => rfl

/-! ## Constructs -/

theorem constructsList_eq (ts : List Tree) : constructsList ts = ts.flatMap constructs := by
  induction ts with
  | nil => rfl
  | cons t ts ih => rw [constructsList, ih, List.flatMap_cons]

theorem constructsEntries_eq (es : List (String × Tree)) :
    constructsEntries es = es.flatMap fun e => e.2.constructs := by
  induction es with
  | nil => rfl
  | cons e es ih => rw [constructsEntries, ih, List.flatMap_cons]

mutual

theorem constructs_relabel (name : Nat → String → String) (f : Span → Span) :
    ∀ t : Tree, (t.relabel name f).constructs = t.constructs.map (Call.relabel name f)
  | .literal _ => rfl
  | .construct _ args _ => by
    rw [relabel, constructs, constructs, List.map_cons, constructsList_relabel name f args,
      relabelList_eq, List.length_map]
    rfl
  | .array items _ => by rw [relabel, constructs, constructs, constructsList_relabel name f items]
  | .map entries _ => by
    rw [relabel, constructs, constructs, constructsEntries_relabel name f entries]
  | .raw _ _ _ => rfl

theorem constructsList_relabel (name : Nat → String → String) (f : Span → Span) :
    ∀ ts : List Tree,
      constructsList (relabelList name f ts) = (constructsList ts).map (Call.relabel name f)
  | [] => rfl
  | t :: ts => by
    rw [relabelList, constructsList, constructsList, List.map_append, constructs_relabel name f t,
      constructsList_relabel name f ts]

theorem constructsEntries_relabel (name : Nat → String → String) (f : Span → Span) :
    ∀ es : List (String × Tree), constructsEntries (relabelEntries name f es) =
      (constructsEntries es).map (Call.relabel name f)
  | [] => rfl
  | (_, t) :: es => by
    rw [relabelEntries, constructsEntries, constructsEntries, List.map_append,
      constructs_relabel name f t, constructsEntries_relabel name f es]

end

/-- Trees of one shape have the same constructs but for their places. -/
theorem constructs_of_shape {t u : Tree} (h : t.shape = u.shape) :
    t.constructs.map Call.shape = u.constructs.map Call.shape :=
  calc t.constructs.map Call.shape
      = t.shape.constructs := (constructs_relabel _ _ t).symm
    _ = u.shape.constructs := congrArg constructs h
    _ = u.constructs.map Call.shape := constructs_relabel _ _ u

end Tree

end ObjectSpec
