import ObjectSpec.Entries
import ObjectSpec.Double.Decimal

/-!
# JSON values

A numeral is kept as it is written, so that an integer and a number with a
point stay apart and no digit is lost. A key that comes twice in an object
counts with its last value.
-/

namespace ObjectSpec

inductive Json
  | null
  | boolean (b : Bool)
  | number (numeral : String)
  | string (text : String)
  | array (items : List Json)
  | object (members : List (String × Json))
deriving Inhabited

namespace Json

/-! ## Building -/

def natural (n : Nat) : Json := .number (Text.naturalText n)

def integer (n : Int) : Json := .number (Text.integerText n)

/-- Positional up to sixteen digits before the point and five places after it; of two equally near
decimals the even one. -/
def doubleLayout : Double.Layout := ⟨.even, fun lead => decide (-5 ≤ lead) && decide (lead ≤ 15)⟩

/-- A finite double as a number. JSON has no other doubles. -/
def double (d : Double) : Json :=
  if d.isFinite then .number (d.text doubleLayout) else .null

/-- The value, or null. -/
def option (value : Option Json) : Json := value.getD .null

/-! ## Views -/

/-- The member of an object. -/
def member? (key : String) : Json → Option Json
  | .object members => List.lookup key members
  | _ => none

/-- The member of an object, a missing one being null. -/
def member (key : String) (j : Json) : Json := (j.member? key).getD .null

def string? : Json → Option String
  | .string text => some text
  | _ => none

def boolean? : Json → Option Bool
  | .boolean b => some b
  | _ => none

def array? : Json → Option (List Json)
  | .array items => some items
  | _ => none

def object? : Json → Option (List (String × Json))
  | .object members => some members
  | _ => none

def isNull : Json → Bool
  | .null => true
  | _ => false

/-- The fields of a record that is written as an object. -/
def namedFields? (names : List String) : Json → Option (List Json)
  | .object members => names.mapM fun name => List.lookup name members
  | _ => none

/-- The fields of a record, written as an object or as the list of all its fields. -/
def fields? (names : List String) : Json → Option (List Json)
  | .array items => if items.length = names.length then some items else none
  | j => j.namedFields? names

/-- The key and the value of an object with one member. -/
def single? : Json → Option (String × Json)
  | .object [member] => some member
  | _ => none

/-- Sign, digits and exponent of a numeral. -/
def splitNumeral (numeral : List Char) : Bool × Decimal :=
  let negative := numeral.head? == some '-'
  let text := if negative then numeral.tail else numeral
  let isMark := fun c => c == 'e' || c == 'E'
  let row := text.takeWhile (! isMark ·)
  let mark := (text.dropWhile (! isMark ·)).drop 1
  let shift := Text.readInteger (if mark.head? == some '+' then mark.tail else mark)
  let whole := row.takeWhile (· != '.')
  let fraction := (row.dropWhile (· != '.')).drop 1
  (negative, ⟨Text.readDigits (whole ++ fraction), shift - fraction.length⟩)

/-- A number without point and exponent. Minus zero is no integer. -/
def integer? : Json → Option Int
  | .number numeral =>
    let text := numeral.toList
    let n := Text.readInteger text
    if text.all (fun c => c.isDigit || c == '-') && !(text.head? == some '-' && n == 0) then some n
    else none
  | _ => none

/-- An integer that is not negative. -/
def natural? (j : Json) : Option Nat :=
  j.integer?.bind fun n => if 0 ≤ n then some n.toNat else none

/-- The double nearest to a number. An exponent beyond every double gives infinity or zero. -/
def double? : Json → Option Double
  | .number numeral =>
    let (negative, d) := splitNumeral numeral.toList
    let lead := d.exponent + (Text.writeDigits d.digits).length
    if d.digits = 0 ∨ lead < -400 then some (Double.ofMagnitude negative 0)
    else if 400 < lead then some (Double.ofMagnitude negative Double.infinity)
    else some (d.toDouble negative)
  | _ => none

/-! ## Depth -/

mutual

/-- How deep a value is nested. -/
def depth : Json → Nat
  | .array items => 1 + depthList items
  | .object members => 1 + depthMembers members
  | .null | .boolean _ | .number _ | .string _ => 1

def depthList : List Json → Nat
  | [] => 0
  | j :: js => max (depth j) (depthList js)

def depthMembers : List (String × Json) → Nat
  | [] => 0
  | (_, j) :: ms => max (depth j) (depthMembers ms)

end

end Json

end ObjectSpec
