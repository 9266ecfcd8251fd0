import ObjectSpec.Double.Decimal
import ObjectSpec.Token.SyntaxError
import ObjectSpec.Tree.Basic

/-!
# Numerals

An `L` at the end makes a long, a point a double, and all else is an integer. A
numeral that does not fit its kind is refused.
-/

namespace ObjectSpec

/-- The double nearest to a numeral with a point in it. -/
def doubleOfNumeral (numeral : List Char) : Double :=
  let negative := numeral.head? == some '-'
  let row := if negative then numeral.tail else numeral
  let whole := row.takeWhile (· != '.')
  let fraction := (row.dropWhile (· != '.')).drop 1
  Decimal.toDouble negative ⟨Text.readDigits (whole ++ fraction), -fraction.length⟩

namespace Literal

/-- The 32-bit integer equal to `n`. -/
def narrow? (n : Int) : Option Int32 :=
  if Int32.minValue.toInt ≤ n ∧ n ≤ Int32.maxValue.toInt then some (Int32.ofInt n) else none

/-- The 64-bit integer equal to `n`. -/
def wide? (n : Int) : Option Int64 :=
  if Int64.minValue.toInt ≤ n ∧ n ≤ Int64.maxValue.toInt then some (Int64.ofInt n) else none

theorem narrow?_eq_some_iff {n : Int} {k : Int32} : narrow? n = some k ↔ k.toInt = n := by
  constructor
  · intro h
    obtain ⟨⟨lo, hi⟩, rfl⟩ : (Int32.minValue.toInt ≤ n ∧ n ≤ Int32.maxValue.toInt) ∧
        Int32.ofInt n = k := by simpa [narrow?] using h
    exact Int32.toInt_ofInt_of_le lo (Int.lt_of_le_of_lt hi (by decide))
  · rintro rfl
    rw [narrow?, if_pos ⟨Int32.minValue_le_toInt k, Int32.toInt_le k⟩, Int32.ofInt_toInt]

theorem wide?_eq_some_iff {n : Int} {k : Int64} : wide? n = some k ↔ k.toInt = n := by
  constructor
  · intro h
    obtain ⟨⟨lo, hi⟩, rfl⟩ : (Int64.minValue.toInt ≤ n ∧ n ≤ Int64.maxValue.toInt) ∧
        Int64.ofInt n = k := by simpa [wide?] using h
    exact Int64.toInt_ofInt_of_le lo (Int.lt_of_le_of_lt hi (by decide))
  · rintro rfl
    rw [wide?, if_pos ⟨Int64.minValue_le_toInt k, Int64.toInt_le k⟩, Int64.ofInt_toInt]

/-- The literal that a numeral stands for. -/
def ofNumeral (numeral : List Char) : Except Expectation Literal :=
  if numeral.getLast? = some 'L' then
    let row := numeral.dropLast
    if row.contains '.' then .error .wholeLong
    else match wide? (Text.readInteger row) with
      | some n => .ok (.long n)
      | none => .error .wideInteger
  else if numeral.contains '.' then
    let d := doubleOfNumeral numeral
    if d.isFinite then .ok (.double d) else .error .finiteDouble
  else match narrow? (Text.readInteger numeral) with
    | some n => .ok (.integer n)
    | none => .error .narrowInteger

end Literal

end ObjectSpec
