import ObjectSpec.Double.Basic
import ObjectSpec.Text.Digits

/-!
# Doubles in decimal notation

A decimal is read as the nearest double. A double is written with the fewest
digits that read back as it, of those with the nearest; what is left open, a
tie and where an exponent is written, is a `Layout`.

Main statement: the digits chosen for a finite double read back as it.
-/

namespace ObjectSpec

/-- The number `digits * 10 ^ exponent`. -/
structure Decimal where
  digits : Nat
  exponent : Int
deriving DecidableEq, Inhabited

namespace Decimal

def powerOfTen (n : Nat) : Nat := Nat.pow 10 n

/-- The magnitude of the nearest double. -/
def magnitude (d : Decimal) : Nat :=
  if 0 ≤ d.exponent then
    Double.roundUnits (d.digits * powerOfTen d.exponent.toNat * Double.unitsPerOne) 1
  else
    Double.roundUnits (d.digits * Double.unitsPerOne) (powerOfTen d.exponent.natAbs)

def toDouble (negative : Bool) (d : Decimal) : Double := Double.ofMagnitude negative d.magnitude

end Decimal

namespace Double

open Decimal (powerOfTen)

/-! ## The shortest digits -/

/-- Which of two equally near decimals is written. -/
inductive Tie
  | up
  | even
deriving DecidableEq

/-- Whether `10 ^ e` is at most `u` units. -/
def tenPowLe (e : Int) (u : Nat) : Bool :=
  if 0 ≤ e then decide (powerOfTen e.toNat * unitsPerOne ≤ u)
  else decide (unitsPerOne ≤ u * powerOfTen e.natAbs)

/-- The exponent of the leading digit of `u` units. -/
def leadingExponent (u : Nat) : Int :=
  -- The common logarithm of two is near 0.30103, so the guess is at most one off.
  let guess := ((u.log2 : Int) - places) * 30103 / 100000
  if tenPowLe (guess + 1) u then guess + 1 else if tenPowLe guess u then guess else guess - 1

/-- The quotient of `u` units by `10 ^ e`, as a fraction. -/
def scaleDown (u : Nat) (e : Int) : Nat × Nat :=
  if 0 ≤ e then (u, unitsPerOne * powerOfTen e.toNat)
  else (u * powerOfTen e.natAbs, unitsPerOne)

/-- A decimal with at most `n` digits that reads back as `m`: one of the two neighbours of the
value, the nearer if both do. -/
def withDigits? (tie : Tie) (m n : Nat) : Option Decimal :=
  let u := units m
  let e := leadingExponent u - (n - 1 : Nat)
  let (num, den) := scaleDown u e
  let q := num / den
  let r := num % den
  let lower : Decimal := ⟨q, e⟩
  -- A row of nines becomes a one with zeros, which are not written.
  let upper : Decimal := if q + 1 = powerOfTen n then ⟨1, e + n⟩ else ⟨q + 1, e⟩
  let preferUpper := decide (den < 2 * r) ||
    (decide (2 * r = den) && (tie = .up || q % 2 == 1))
  let (first, second) := if preferUpper then (upper, lower) else (lower, upper)
  [first, second].find? fun d => d.magnitude == m

/-- All digits of a magnitude. -/
def exactDecimal (m : Nat) : Decimal := ⟨units m * Nat.pow 5 places, -places⟩

/-- The fewest digits that read back as the magnitude `m`, and the nearest such. -/
def shortest (tie : Tie) (m : Nat) : Decimal :=
  if m = 0 then ⟨0, 0⟩
  else ((List.range 17).findSome? fun i => withDigits? tie m (i + 1)).getD (exactDecimal m)

theorem powerOfTen_pos (n : Nat) : 0 < powerOfTen n := Nat.pow_pos (by decide)

theorem powerOfTen_eq (n : Nat) : Nat.pow 5 n * (1 <<< n) = powerOfTen n := by
  rw [Nat.shiftLeft_eq, Nat.one_mul]
  exact (Nat.mul_pow 5 2 n).symm

theorem exactDecimal_magnitude {m : Nat} (h : m ≤ infinity) : (exactDecimal m).magnitude = m := by
  have key : units m * Nat.pow 5 places * unitsPerOne = units m * powerOfTen places := by
    rw [unitsPerOne, Nat.mul_assoc, powerOfTen_eq]
  have hneg : ¬ (0 : Int) ≤ -places := by decide
  simp only [Decimal.magnitude, exactDecimal, hneg, if_false, Int.natAbs_neg, Int.natAbs_natCast,
    key]
  exact roundUnits_units h (powerOfTen_pos places)

theorem withDigits?_magnitude {tie : Tie} {m n : Nat} {d : Decimal}
    (h : withDigits? tie m n = some d) : d.magnitude = m := by
  simpa using List.find?_some h

/-- The digits chosen for a magnitude read back as it. -/
theorem shortest_magnitude (tie : Tie) {m : Nat} (h : m ≤ infinity) :
    (shortest tie m).magnitude = m := by
  rw [shortest]
  split
  · next h0 => subst h0; simp [Decimal.magnitude, roundUnits, roundHalfEven]
  · cases hf : (List.range 17).findSome? fun i => withDigits? tie m (i + 1) with
    | none => exact exactDecimal_magnitude h
    | some d =>
      obtain ⟨i, -, hi⟩ := List.exists_of_findSome?_eq_some hf
      exact withDigits?_magnitude hi

/-! ## Layout -/

/-- How a double is written: a tie, and the exponents of the leading digit written without an
exponent mark. -/
structure Layout where
  tie : Tie
  positional : Int → Bool

/-- A decimal without an exponent mark, with at least one digit on each side of the point. -/
def positionalText (d : Decimal) : List Char :=
  let row := Text.writeDigits d.digits
  let e := d.exponent.natAbs
  if 0 ≤ d.exponent then
    row ++ List.replicate e '0' ++ ['.', '0']
  else if e < row.length then
    row.take (row.length - e) ++ '.' :: row.drop (row.length - e)
  else
    '0' :: '.' :: List.replicate (e - row.length) '0' ++ row

/-- A decimal with the point after its first digit and an exponent mark with its sign. -/
def exponentText (d : Decimal) : List Char :=
  let row := Text.writeDigits d.digits
  let lead := d.exponent + (row.length - 1 : Nat)
  let fraction := if row.length ≤ 1 then [] else '.' :: row.drop 1
  let sign := if lead < 0 then '-' else '+'
  row.take 1 ++ fraction ++ 'e' :: sign :: Text.writeDigits lead.natAbs

/-- The text of a double. -/
def text (layout : Layout) (d : Double) : String :=
  if d.isNaN then "NaN"
  else
    let sign := if d.isNegative then ['-'] else []
    if d.isFinite then
      let s := shortest layout.tie d.magnitude
      let lead := s.exponent + ((Text.writeDigits s.digits).length - 1 : Nat)
      String.ofList (sign ++ if layout.positional lead then positionalText s else exponentText s)
    else
      String.ofList (sign ++ ['i', 'n', 'f'])

end Double

end ObjectSpec
