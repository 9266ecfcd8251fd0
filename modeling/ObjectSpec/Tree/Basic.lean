import ObjectSpec.Text.Position
import ObjectSpec.Double.Basic

/-!
# Trees

The tree of a spec text: literals, constructs of a named type, arrays, maps and
raw texts. A map keeps its entries in order, repeated keys included. A type
name stays as written; nothing here knows which types exist.
-/

namespace ObjectSpec

inductive Literal
  | integer (n : Int32)
  | long (n : Int64)
  | double (d : Double)
  | boolean (b : Bool)
  | string (text : String)
deriving DecidableEq

namespace Literal

/-- The name of the kind of a literal. -/
def kind : Literal → String
  | .integer _ => "Integer"
  | .long _ => "Long"
  | .double _ => "Double"
  | .boolean _ => "Boolean"
  | .string _ => "String"

/-- Equality, doubles compared as numbers. -/
def same : Literal → Literal → Bool
  | .integer a, .integer b => a == b
  | .long a, .long b => a == b
  | .double a, .double b => a.same b
  | .boolean a, .boolean b => a == b
  | .string a, .string b => a == b
  | _, _ => false

end Literal

/-- Each node but a literal knows the bytes it was written in. -/
inductive Tree
  | literal (value : Literal)
  | construct (typeName : String) (args : List Tree) (span : Span)
  | array (items : List Tree) (span : Span)
  | map (entries : List (String × Tree)) (span : Span)
  | raw (written content : String) (span : Span)

namespace Tree

/-- The bytes of the node; a literal does not know them. -/
def span : Tree → Span
  | .literal _ => {}
  | .construct _ _ s => s
  | .array _ s => s
  | .map _ s => s
  | .raw _ _ s => s

/-! ## Views -/

def isConstruct : Tree → Bool
  | .construct _ _ _ => true
  | _ => false

def isRaw : Tree → Bool
  | .raw _ _ _ => true
  | _ => false

/-- The text of a string, or what a raw text stands for. -/
def string? : Tree → Option String
  | .literal (.string text) => some text
  | .raw _ content _ => some content
  | _ => none

def integer? : Tree → Option Int32
  | .literal (.integer n) => some n
  | _ => none

/-- A long, or an integer as a long. -/
def long? : Tree → Option Int64
  | .literal (.long n) => some n
  | .literal (.integer n) => some n.toInt64
  | _ => none

def double? : Tree → Option Double
  | .literal (.double d) => some d
  | _ => none

def boolean? : Tree → Option Bool
  | .literal (.boolean b) => some b
  | _ => none

def literal? : Tree → Option Literal
  | .literal l => some l
  | _ => none

def construct? : Tree → Option (String × List Tree)
  | .construct typeName args _ => some (typeName, args)
  | _ => none

def array? : Tree → Option (List Tree)
  | .array items _ => some items
  | _ => none

def map? : Tree → Option (List (String × Tree))
  | .map entries _ => some entries
  | _ => none

/-! ## Depth -/

mutual

/-- How deep constructs, arrays and maps are nested. -/
def depth : Tree → Nat
  | .literal _ => 0
  | .construct _ args _ => 1 + depthList args
  | .array items _ => 1 + depthList items
  | .map entries _ => 1 + depthEntries entries
  | .raw _ _ _ => 0

def depthList : List Tree → Nat
  | [] => 0
  | t :: ts => max (depth t) (depthList ts)

def depthEntries : List (String × Tree) → Nat
  | [] => 0
  | (_, t) :: es => max (depth t) (depthEntries es)

end

/-! ## Equality -/

mutual

/-- Equality, spans included and doubles compared as numbers. -/
def same : Tree → Tree → Bool
  | .literal a, .literal b => a.same b
  | .construct n args s, .construct m brgs t => n == m && sameList args brgs && s == t
  | .array xs s, .array ys t => sameList xs ys && s == t
  | .map es s, .map fs t => sameEntries es fs && s == t
  | .raw w c s, .raw v d t => w == v && c == d && s == t
  | _, _ => false

def sameList : List Tree → List Tree → Bool
  | [], [] => true
  | x :: xs, y :: ys => same x y && sameList xs ys
  | _, _ => false

def sameEntries : List (String × Tree) → List (String × Tree) → Bool
  | [], [] => true
  | (k, x) :: es, (l, y) :: fs => k == l && same x y && sameEntries es fs
  | _, _ => false

end

/-! ## Type names -/

/-- The last segment of a type name. -/
def simpleName (typeName : String) : String :=
  String.ofList (typeName.toList.reverse.takeWhile (· != '.')).reverse

end Tree

end ObjectSpec
