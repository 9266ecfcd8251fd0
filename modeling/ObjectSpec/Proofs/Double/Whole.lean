import Mathlib.Algebra.Field.Rat
import ObjectSpec.Double.Basic

/-!
# Whole numbers as doubles

A finite double stands for a number of units with a sign (`value`). A whole number of at
most 53 bits is such a number of units, so the double nearest to it is the number itself
(`value_ofInt`). One of at most 64 bits may be rounded, but not to infinity
(`isFinite_ofInt`).
-/

namespace ObjectSpec.Double

/-- The number that a finite double stands for. -/
def value (d : Double) : Rat :=
  (if d.isNegative then -1 else 1) * units d.magnitude / unitsPerOne

/-! ## Sign and magnitude -/

theorem toNat_ofMagnitude (negative : Bool) {m : Nat} (h : m < signWeight) :
    (ofMagnitude negative m).bits.toNat = m + if negative then signWeight else 0 := by
  have hle : (if negative then signWeight else 0) ≤ signWeight := by
    cases negative <;> decide
  rw [ofMagnitude, Nat.mod_eq_of_lt h, UInt64.toNat_ofNat']
  refine Nat.mod_eq_of_lt (Nat.lt_of_lt_of_le (Nat.add_lt_add_of_lt_of_le h hle) ?_)
  decide

theorem magnitude_ofMagnitude (negative : Bool) {m : Nat} (h : m < signWeight) :
    (ofMagnitude negative m).magnitude = m := by
  rw [magnitude, toNat_ofMagnitude negative h]
  cases negative
  · exact Nat.mod_eq_of_lt h
  · exact (Nat.add_mod_right m signWeight).trans (Nat.mod_eq_of_lt h)

theorem isNegative_ofMagnitude (negative : Bool) {m : Nat} (h : m < signWeight) :
    (ofMagnitude negative m).isNegative = negative := by
  rw [isNegative, toNat_ofMagnitude negative h]
  cases negative
  · exact decide_eq_false (Nat.not_le.2 h)
  · exact decide_eq_true (Nat.le_add_left signWeight m)

theorem ofMagnitude_magnitude (d : Double) : ofMagnitude d.isNegative d.magnitude = d := by
  obtain ⟨bits⟩ := d
  have hlt : bits.toNat < 2 ^ 64 := bits.toNat_lt
  have hsum : bits.toNat % signWeight % signWeight +
      (if signWeight ≤ bits.toNat then signWeight else 0) = bits.toNat := by
    rw [Nat.mod_mod, show signWeight = 2 ^ 63 from rfl]
    split
    · omega
    · omega
  simp only [ofMagnitude, isNegative, magnitude, decide_eq_true_eq, hsum, UInt64.ofNat_toNat]

/-! ## Whole numbers of at most 64 bits -/

theorem roundHalfEven_le (num den : Nat) : roundHalfEven num den ≤ num / den + 1 := by
  rw [roundHalfEven]
  split
  · exact Nat.le_refl _
  · exact Nat.le_succ _

/-- As many units as a whole number of 64 bits has are not rounded to infinity. -/
theorem roundUnits_lt {num : Nat} (h : num.log2 < 64 + places) :
    roundUnits num 1 < infinity := by
  obtain ⟨shift, hshift⟩ : ∃ shift, shift = num.log2 - 52 := ⟨_, rfl⟩
  simp only [places] at h
  -- What is kept of the number has 53 bits, so that it is at most doubled by a step up.
  have hkept : num / (1 <<< shift) < 2 ^ 53 := by
    rw [Nat.shiftLeft_eq, Nat.one_mul, Nat.div_lt_iff_lt_mul (Nat.two_pow_pos shift), ← Nat.pow_add]
    exact Nat.lt_of_lt_of_le Nat.lt_log2_self (Nat.pow_le_pow_right Nat.two_pos (by omega))
  have hround := roundHalfEven_le num (1 <<< shift)
  have hsteps : shift * leastNormal ≤ 1085 * leastNormal := Nat.mul_le_mul_right _ (by omega)
  rw [roundUnits, Nat.div_one, ← hshift]
  simp only [leastNormal, infinity] at *
  omega

/-- The double nearest to an integer of at most 64 bits is a number. -/
theorem isFinite_ofInt {n : Int} (h : n.natAbs < 2 ^ 64) : (ofInt n).isFinite = true := by
  have hlog : (n.natAbs * unitsPerOne).log2 < 64 + places := by
    rcases Nat.eq_zero_or_pos n.natAbs with hzero | hpos
    · rw [hzero, Nat.zero_mul]
      decide
    · have hunits : 0 < unitsPerOne := by decide
      rw [Nat.log2_lt (Nat.ne_of_gt (Nat.mul_pos hpos hunits)), Nat.pow_add, unitsPerOne,
        Nat.shiftLeft_eq, Nat.one_mul]
      exact Nat.mul_lt_mul_of_pos_right h (Nat.two_pow_pos places)
  have hlt := roundUnits_lt hlog
  rw [isFinite, ofInt, ofFraction, magnitude_ofMagnitude _ (Nat.lt_trans hlt (by decide))]
  exact decide_eq_true hlt

/-! ## Whole numbers of few bits -/

theorem units_normal (e : Nat) {low : Nat} (h : low < leastNormal) :
    units (leastNormal * (e + 1) + low) = (leastNormal + low) * 2 ^ e := by
  have hbig : ¬ leastNormal * (e + 1) + low < leastNormal := by
    have : leastNormal ≤ leastNormal * (e + 1) := Nat.le_mul_of_pos_right _ (Nat.succ_pos e)
    omega
  have hdiv : (leastNormal * (e + 1) + low) / leastNormal = e + 1 := by
    rw [Nat.mul_add_div (by decide), Nat.div_eq_of_lt h, Nat.add_zero]
  have hmod : (leastNormal * (e + 1) + low) % leastNormal = low := by
    rw [Nat.mul_add_mod, Nat.mod_eq_of_lt h]
  rw [units, if_neg hbig, hdiv, hmod, Nat.shiftLeft_eq, Nat.add_sub_cancel]

/-- Numbers of at most 53 bits are the units of a magnitude. -/
theorem exists_units {n : Nat} (h : n < 2 ^ 53) :
    ∃ m < infinity, units m = n * unitsPerOne := by
  rcases Nat.eq_zero_or_pos n with rfl | hpos
  · exact ⟨0, by decide, by rw [Nat.zero_mul]; rfl⟩
  -- The leading bit has the weight `2 ^ e`; it is moved up to the place 52, with the bits behind it.
  obtain ⟨e, he⟩ : ∃ e, e = n.log2 := ⟨_, rfl⟩
  have hlog := (Nat.log2_eq_iff (Nat.ne_of_gt hpos)).1 he.symm
  have hle : e ≤ 52 := by
    have : e < 53 := he ▸ (Nat.log2_lt (Nat.ne_of_gt hpos)).2 h
    omega
  have hone : leastNormal = 2 ^ e * 2 ^ (52 - e) := by
    rw [← Nat.pow_add, Nat.add_sub_cancel' hle]
    rfl
  have hlow : leastNormal ≤ n * 2 ^ (52 - e) := hone ▸ Nat.mul_le_mul_right _ hlog.1
  have hhigh : n * 2 ^ (52 - e) < leastNormal + leastNormal := by
    have := Nat.mul_lt_mul_of_pos_right hlog.2 (Nat.two_pow_pos (52 - e))
    rw [Nat.pow_succ, Nat.mul_right_comm, ← hone] at this
    omega
  obtain ⟨low, hsplit⟩ := Nat.exists_eq_add_of_le hlow
  have hlt : low < leastNormal := by omega
  refine ⟨leastNormal * (e + 1022 + 1) + low, ?_, ?_⟩
  · have : leastNormal * (e + 1022 + 1) ≤ leastNormal * 1075 := Nat.mul_le_mul_left _ (by omega)
    simp only [leastNormal, infinity] at *
    omega
  · have hplaces : 52 - e + (e + 1022) = places := by
      rw [places]
      omega
    rw [units_normal _ hlt, ← hsplit, Nat.mul_assoc, ← Nat.pow_add, hplaces, unitsPerOne,
      Nat.shiftLeft_eq, Nat.one_mul]

/-- The double nearest to a whole number of at most 53 bits is that number. -/
theorem value_ofInt {n : Int} (h : n.natAbs < 2 ^ 53) :
    (ofInt n).isFinite = true ∧ (ofInt n).value = n := by
  obtain ⟨m, hm, hunits⟩ := exists_units h
  have hround : roundUnits (n.natAbs * unitsPerOne) 1 = m := by
    have := roundUnits_units (Nat.le_of_lt hm) Nat.one_pos
    rwa [hunits, Nat.mul_one] at this
  have hlt : m < signWeight := Nat.lt_trans hm (by decide)
  have hone : (unitsPerOne : Rat) ≠ 0 := by
    rw [Nat.cast_ne_zero]
    decide
  rw [isFinite, value, ofInt, ofFraction, hround, isNegative_ofMagnitude _ hlt,
    magnitude_ofMagnitude _ hlt, hunits, Nat.cast_mul, ← mul_assoc, mul_div_cancel_right₀ _ hone]
  refine ⟨decide_eq_true hm, ?_⟩
  by_cases hneg : n < 0
  · have hn : -(n.natAbs : Int) = n := by omega
    rw [decide_eq_true hneg, if_pos rfl, neg_one_mul, ← Int.cast_natCast, ← Int.cast_neg, hn]
  · have hn : (n.natAbs : Int) = n := by omega
    rw [decide_eq_false hneg, if_neg Bool.false_ne_true, one_mul, ← Int.cast_natCast, hn]

end ObjectSpec.Double
