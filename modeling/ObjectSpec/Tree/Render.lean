import ObjectSpec.Double.Decimal
import ObjectSpec.Text.Quoted
import ObjectSpec.Tree.Basic
import ObjectSpec.Token.Basic

/-!
# The canonical text of a tree

One space follows each comma and colon. Raw texts are written as they were
read. A double has a point and never an exponent.
-/

namespace ObjectSpec

namespace Double

/-- Doubles in a spec are written without an exponent; of two equally near decimals the greater. -/
def specLayout : Layout := ⟨.up, fun _ => true⟩

end Double

namespace Literal

def render : Literal → String
  | .integer n => Text.integerText n.toInt
  | .long n => Text.integerText n.toInt ++ "L"
  | .double d => d.text Double.specLayout
  | .boolean b => Token.booleanText b
  | .string text => Text.quote text

end Literal

namespace Tree

/-- What stands between the items of a list. -/
def separator : String := ", "

/-- An opening mark, the items, and the closing mark. -/
def enclose (openMark closeMark : Mark) (items : List String) : String :=
  openMark.char.toString ++ separator.intercalate items ++ closeMark.char.toString

mutual

/-- The canonical text. -/
def render : Tree → String
  | .literal l => l.render
  | .construct typeName args _ =>
    typeName ++ enclose .openParen .closeParen (renderList args)
  | .array items _ => enclose .openBracket .closeBracket (renderList items)
  | .map entries _ => enclose .openBrace .closeBrace (renderEntries entries)
  | .raw written _ _ => written

def renderList : List Tree → List String
  | [] => []
  | t :: ts => render t :: renderList ts

def renderEntries : List (String × Tree) → List String
  | [] => []
  | (key, t) :: es => (Text.quote key ++ ": " ++ render t) :: renderEntries es

end

end Tree

end ObjectSpec
