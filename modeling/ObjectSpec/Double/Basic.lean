/-!
# Double precision numbers

A double is its 64 bits: a sign and a magnitude. Every finite magnitude is a
whole number of units, the unit being the least positive double, 2 ^ -1074. So
rounding, arithmetic and decimal notation are exact arithmetic on naturals.
-/

namespace ObjectSpec

structure Double where
  bits : UInt64
deriving DecidableEq, Inhabited

namespace Double

/-- The weight of the sign bit. -/
def signWeight : Nat := 0x8000000000000000

/-- The magnitude of infinity; larger ones are no numbers. -/
def infinity : Nat := 0x7FF0000000000000

def isNegative (d : Double) : Bool := decide (signWeight ≤ d.bits.toNat)

/-- The bits without the sign. -/
def magnitude (d : Double) : Nat := d.bits.toNat % signWeight

def isFinite (d : Double) : Bool := decide (d.magnitude < infinity)

def isNaN (d : Double) : Bool := decide (infinity < d.magnitude)

def ofMagnitude (negative : Bool) (m : Nat) : Double :=
  ⟨UInt64.ofNat (m % signWeight + if negative then signWeight else 0)⟩

/-! ## Units -/

/-- The least magnitude with all 53 bits, and the step from one binary exponent to the next. -/
def leastNormal : Nat := 0x10000000000000

/-- How many units a finite magnitude stands for. -/
def units (m : Nat) : Nat :=
  if m < leastNormal then m
  else (leastNormal + m % leastNormal) <<< (m / leastNormal - 1)

/-- A quotient to the nearest natural, a half to the even one. -/
def roundHalfEven (num den : Nat) : Nat :=
  let q := num / den
  let r := num % den
  if den < 2 * r ∨ (2 * r = den ∧ q % 2 = 1) then q + 1 else q

/-- The magnitude nearest to `num / den` units: 53 bits are kept, a half goes to the even one. -/
def roundUnits (num den : Nat) : Nat :=
  -- The step between doubles of this size is `2 ^ shift` units.
  let shift := (num / den).log2 - 52
  min infinity (roundHalfEven num (den <<< shift) + shift * leastNormal)

/-- The number of binary places of the unit. -/
def places : Nat := 1074

/-- How many units make one. -/
def unitsPerOne : Nat := 1 <<< places

/-- The double nearest to a fraction. -/
def ofFraction (negative : Bool) (num den : Nat) : Double :=
  ofMagnitude negative (roundUnits (num * unitsPerOne) den)

/-- The double nearest to an integer. -/
def ofInt (n : Int) : Double := ofFraction (decide (n < 0)) n.natAbs 1

/-! ## Comparison -/

/-- Equality of numbers: the zeros are equal, and what is no number equals nothing. -/
def same (a b : Double) : Bool :=
  !a.isNaN && !b.isNaN && (a.bits == b.bits || (a.magnitude == 0 && b.magnitude == 0))

/-! ## Finite doubles without a sign -/

/-- The order of numbers, which is that of magnitudes. -/
def atMost (a b : Double) : Bool := decide (a.magnitude ≤ b.magnitude)

def add (a b : Double) : Double :=
  ofMagnitude false (roundUnits (units a.magnitude + units b.magnitude) 1)

/-- The difference, zero where it would be negative. -/
def sub (a b : Double) : Double :=
  ofMagnitude false (roundUnits (units a.magnitude - units b.magnitude) 1)

def mul (a b : Double) : Double :=
  ofMagnitude false (roundUnits (units a.magnitude * units b.magnitude) unitsPerOne)

def div (a b : Double) : Double :=
  ofFraction false (units a.magnitude) (units b.magnitude)

/-! ## Units and rounding undo each other -/

theorem roundHalfEven_mul (n : Nat) {den : Nat} (h : 0 < den) :
    roundHalfEven (n * den) den = n := by
  simp [roundHalfEven, Nat.mul_div_cancel n h]
  omega

theorem log2_units {m : Nat} (h : leastNormal ≤ m) :
    (units m).log2 - 52 = m / leastNormal - 1 := by
  have hm : ¬ m < leastNormal := Nat.not_lt.2 h
  have hl : leastNormal = 2 ^ 52 := rfl
  have hr : m % leastNormal < leastNormal := Nat.mod_lt _ (by decide)
  have hu : units m = (leastNormal + m % leastNormal) * 2 ^ (m / leastNormal - 1) := by
    rw [units, if_neg hm, Nat.shiftLeft_eq]
  have hpos : 0 < 2 ^ (m / leastNormal - 1) := Nat.two_pow_pos _
  have hne : units m ≠ 0 := by
    rw [hu]
    exact Nat.mul_ne_zero (by omega) (Nat.ne_of_gt hpos)
  have : (units m).log2 = 52 + (m / leastNormal - 1) := by
    rw [Nat.log2_eq_iff hne, hu, Nat.add_right_comm, Nat.pow_add, Nat.pow_add]
    constructor
    · exact Nat.mul_le_mul_right _ (by omega)
    · exact Nat.mul_lt_mul_of_pos_right (by omega) hpos
  omega

/-- A double is the nearest to its own value. -/
theorem roundUnits_units {m den : Nat} (hm : m ≤ infinity) (hden : 0 < den) :
    roundUnits (units m * den) den = m := by
  have hdiv : units m * den / den = units m := Nat.mul_div_cancel _ hden
  rw [roundUnits, hdiv]
  by_cases h : m < leastNormal
  · have hu : units m = m := if_pos h
    have hlog : m.log2 - 52 = 0 := by
      rcases Nat.eq_zero_or_pos m with rfl | hp
      · rfl
      · have : m.log2 < 53 := (Nat.log2_lt (by omega)).2 (Nat.lt_trans h (by decide))
        omega
    simp only [hu, hlog, Nat.shiftLeft_zero, Nat.zero_mul, Nat.add_zero]
    rw [roundHalfEven_mul _ hden, Nat.min_eq_right hm]
  · have hle : leastNormal ≤ m := Nat.not_lt.1 h
    have hu : units m * den =
        (leastNormal + m % leastNormal) * (den <<< (m / leastNormal - 1)) := by
      rw [units, if_neg h, Nat.shiftLeft_eq, Nat.shiftLeft_eq, Nat.mul_assoc,
        Nat.mul_comm den]
    have hpos : 0 < den <<< (m / leastNormal - 1) := by
      rw [Nat.shiftLeft_eq]
      exact Nat.mul_pos hden (Nat.two_pow_pos _)
    have hone : 1 ≤ m / leastNormal := (Nat.one_le_div_iff (by decide)).2 hle
    have hsplit : leastNormal + m % leastNormal + (m / leastNormal - 1) * leastNormal = m := by
      have hdm := Nat.div_add_mod m leastNormal
      rw [Nat.sub_mul, Nat.one_mul]
      have := Nat.le_mul_of_pos_left leastNormal hone
      rw [Nat.mul_comm] at hdm
      omega
    simp only [log2_units hle]
    rw [hu, roundHalfEven_mul _ hpos, hsplit, Nat.min_eq_right hm]

end Double

end ObjectSpec
