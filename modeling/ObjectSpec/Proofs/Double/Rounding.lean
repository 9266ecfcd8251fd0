import Mathlib.Algebra.Order.Field.Basic
import Mathlib.Order.Monotone.Basic
import Mathlib.Tactic.FieldSimp
import Mathlib.Tactic.Linarith
import Mathlib.Tactic.NormNum
import Mathlib.Tactic.Ring
import ObjectSpec.Double.Decimal
import ObjectSpec.Proofs.Double.Whole

/-!
# Rounding to the nearest

A number of units lies between those of two neighbouring magnitudes, and is rounded to the nearer
of them, or to the even one if both are as near (`roundUnits_nearest`). Units grow with the
magnitude, so no other magnitude is nearer, and there is one nearest magnitude only
(`Nearest.unique`). Infinity takes part as the magnitude above all finite ones: it is the nearest
one from the middle between it and the last of these on (`Nearest.lt_infinity_iff`).
-/

namespace ObjectSpec

namespace Double

/-! ## Units grow with the magnitude -/

/-- A magnitude with all 53 bits: its binary exponent, and the bits behind the first one. -/
theorem exists_normal {m : Nat} (h : leastNormal ≤ m) :
    ∃ e low, low < leastNormal ∧ m = leastNormal * (e + 1) + low := by
  have hone : 1 ≤ m / leastNormal := (Nat.one_le_div_iff (by decide)).2 h
  refine ⟨m / leastNormal - 1, m % leastNormal, Nat.mod_lt _ (by decide), ?_⟩
  rw [Nat.sub_add_cancel hone, Nat.div_add_mod]

theorem units_strictMono : StrictMono units := by
  apply strictMono_nat_of_lt_succ
  intro m
  rcases Nat.lt_or_ge m leastNormal with hsmall | hnormal
  · rcases Nat.lt_or_ge (m + 1) leastNormal with hnext | hnext
    · rw [units, units, if_pos hsmall, if_pos hnext]
      exact Nat.lt_succ_self m
    · obtain rfl : m = leastNormal - 1 := by omega
      decide
  · obtain ⟨e, low, hlow, rfl⟩ := exists_normal hnormal
    rw [units_normal e hlow]
    rcases Nat.lt_or_ge (low + 1) leastNormal with hnext | hnext
    · rw [Nat.add_assoc, units_normal e hnext]
      exact Nat.mul_lt_mul_of_pos_right (by omega) (Nat.two_pow_pos e)
    · -- The last magnitude of an exponent, and the first one of the next.
      have hsucc : leastNormal * (e + 1) + low + 1 = leastNormal * (e + 1 + 1) + 0 := by
        rw [Nat.mul_succ leastNormal (e + 1)]
        omega
      rw [hsucc, units_normal (e + 1) (by decide), Nat.add_zero, Nat.pow_succ, Nat.mul_comm (2 ^ e),
        ← Nat.mul_assoc]
      exact Nat.mul_lt_mul_of_pos_right (by omega) (Nat.two_pow_pos e)

/-- The units of as many steps of one size as 53 bits can count. -/
theorem units_steps {k shift : Nat} (hk : k ≤ 2 * leastNormal)
    (hfull : shift = 0 ∨ leastNormal ≤ k) : units (k + shift * leastNormal) = k * 2 ^ shift := by
  rcases Nat.lt_or_ge k leastNormal with hsmall | hnormal
  · obtain rfl : shift = 0 := hfull.resolve_right (Nat.not_le.2 hsmall)
    rw [Nat.zero_mul, Nat.add_zero, units, if_pos hsmall, Nat.pow_zero, Nat.mul_one]
  · obtain ⟨low, rfl⟩ := Nat.exists_eq_add_of_le hnormal
    rcases Nat.lt_or_ge low leastNormal with hlow | hlow
    · have hsum : leastNormal + low + shift * leastNormal = leastNormal * (shift + 1) + low := by
        rw [Nat.mul_succ, Nat.mul_comm]
        omega
      rw [hsum, units_normal shift hlow]
    · obtain rfl : low = leastNormal := by omega
      have hsum : leastNormal + leastNormal + shift * leastNormal =
          leastNormal * (shift + 1 + 1) + 0 := by
        rw [Nat.mul_succ, Nat.mul_succ, Nat.mul_comm]
        omega
      rw [hsum, units_normal (shift + 1) (by decide), Nat.pow_succ]
      ring

/-! ## The nearest magnitude -/

/-- No other magnitude is nearer to `x` units, and none is as near unless this one is even. -/
structure Nearest (x : Rat) (m : Nat) : Prop where
  le : m ≤ infinity
  near : ∀ k ≤ infinity, |(units m : Rat) - x| ≤ |(units k : Rat) - x|
  even : ∀ k ≤ infinity, k ≠ m → |(units k : Rat) - x| = |(units m : Rat) - x| → m % 2 = 0

theorem units_lt {k m : Nat} (h : k < m) : (units k : Rat) < units m :=
  Nat.cast_lt.2 (units_strictMono h)

theorem units_le {k m : Nat} (h : k ≤ m) : (units k : Rat) ≤ units m :=
  Nat.cast_le.2 (units_strictMono.monotone h)

theorem abs_below {x : Rat} {k lower : Nat} (hk : k ≤ lower) (h : (units lower : Rat) ≤ x) :
    |(units k : Rat) - x| = x - units k := by
  have := units_le hk
  rw [abs_of_nonpos (by linarith), neg_sub]

theorem abs_above {x : Rat} {k upper : Nat} (hk : upper ≤ k) (h : x ≤ (units upper : Rat)) :
    |(units k : Rat) - x| = units k - x := by
  have := units_le hk
  exact abs_of_nonneg (by linarith)

/-- No finite magnitude is as near to what is not below infinity. -/
theorem nearest_infinity {x : Rat} (h : (units infinity : Rat) ≤ x) : Nearest x infinity := by
  refine ⟨Nat.le_refl _, ?_, ?_⟩
  · intro k hk
    have := units_le hk
    rw [abs_below hk h, abs_below (Nat.le_refl _) h]
    linarith
  · intro k hk hne heq
    have := units_lt (Nat.lt_of_le_of_ne hk hne)
    rw [abs_below hk h, abs_below (Nat.le_refl _) h] at heq
    linarith

/-- Of two neighbours the nearer one is chosen, or the even one if both are as near. -/
structure Chosen (x : Rat) (lower m : Nat) : Prop where
  below : (units lower : Rat) ≤ x
  above : x < units (lower + 1)
  choice : (m = lower ∧ x - units lower ≤ units (lower + 1) - x) ∨
    (m = lower + 1 ∧ (units (lower + 1) : Rat) - x ≤ x - units lower)
  tie : x - units lower = units (lower + 1) - x → m % 2 = 0

namespace Chosen

variable {x : Rat} {lower m : Nat}

/-- What is chosen is as near as either neighbour. -/
theorem le_both (h : Chosen x lower m) :
    |(units m : Rat) - x| ≤ x - units lower ∧ |(units m : Rat) - x| ≤ units (lower + 1) - x := by
  have habove := le_of_lt h.above
  rcases h.choice with ⟨rfl, hle⟩ | ⟨rfl, hle⟩
  · rw [abs_below (Nat.le_refl _) h.below]
    exact ⟨le_refl _, hle⟩
  · rw [abs_above (Nat.le_refl _) habove]
    exact ⟨hle, le_refl _⟩

/-- Only the other neighbour can be as near. -/
theorem tie_of_eq (h : Chosen x lower m) {k : Nat} (hne : k ≠ m)
    (heq : |(units k : Rat) - x| = |(units m : Rat) - x|) :
    x - units lower = units (lower + 1) - x := by
  have hbelow := h.below
  have habove := le_of_lt h.above
  rcases Nat.lt_or_ge lower k with hk | hk
  · have hle := units_le (Nat.succ_le_of_lt hk)
    rw [abs_above hk habove] at heq
    rcases h.choice with ⟨rfl, hfirst⟩ | ⟨rfl, hfirst⟩
    · rw [abs_below (Nat.le_refl _) hbelow] at heq
      linarith
    · have := units_lt (Nat.lt_of_le_of_ne hk (Ne.symm hne))
      rw [abs_above (Nat.le_refl _) habove] at heq
      linarith
  · have hle := units_le hk
    rw [abs_below hk hbelow] at heq
    rcases h.choice with ⟨rfl, hfirst⟩ | ⟨rfl, hfirst⟩
    · have := units_lt (Nat.lt_of_le_of_ne hk hne)
      rw [abs_below (Nat.le_refl _) hbelow] at heq
      linarith
    · rw [abs_above (Nat.le_refl _) habove] at heq
      linarith

theorem nearest (h : Chosen x lower m) : Nearest x (min infinity m) := by
  have hm : m = lower ∨ m = lower + 1 := h.choice.imp And.left And.left
  rcases Nat.lt_or_ge lower infinity with hlt | hge
  · rw [Nat.min_eq_right (by omega)]
    refine ⟨by omega, ?_, fun k _ hne heq => h.tie (h.tie_of_eq hne heq)⟩
    -- Other magnitudes lie behind one of the two neighbours.
    intro k _
    obtain ⟨hdown, hup⟩ := h.le_both
    rcases Nat.lt_or_ge lower k with hk | hk
    · have := units_le (Nat.succ_le_of_lt hk)
      rw [abs_above hk (le_of_lt h.above)]
      linarith
    · have := units_le hk
      rw [abs_below hk h.below]
      linarith
  · rw [Nat.min_eq_left (by omega)]
    exact nearest_infinity ((units_le hge).trans h.below)

end Chosen

theorem Nearest.not_lt {x : Rat} {m k : Nat} (hm : Nearest x m) (hk : Nearest x k) : ¬ m < k := by
  intro hlt
  have heq : |(units k : Rat) - x| = |(units m : Rat) - x| :=
    le_antisymm (hk.near m hm.le) (hm.near k hk.le)
  have heven := hm.even k hk.le (Nat.ne_of_gt hlt) heq
  have hodd := hk.even m hm.le (Nat.ne_of_lt hlt) heq.symm
  -- Both are even, so there is a magnitude between them, and that one is nearer.
  have hle := hk.le
  have hnear := hm.near (m + 1) (by omega)
  have hlow := units_lt (Nat.lt_succ_self m)
  have hhigh := units_lt (show m + 1 < k by omega)
  rcases abs_eq_abs.1 heq with hsame | hmiddle
  · linarith
  · rw [abs_of_nonpos (by linarith), le_abs'] at hnear
    rcases hnear with h | h
    · linarith
    · linarith

theorem Nearest.unique {x : Rat} {m k : Nat} (hm : Nearest x m) (hk : Nearest x k) : m = k :=
  Nat.le_antisymm (Nat.not_lt.1 (hk.not_lt hm)) (Nat.not_lt.1 (hm.not_lt hk))

/-! ## Rounding chooses the nearest magnitude -/

/-- As many bits are kept as a magnitude has, all of them unless none are dropped. -/
theorem kept_bits (n : Nat) :
    n / 2 ^ (n.log2 - 52) < 2 * leastNormal ∧
      (n.log2 - 52 = 0 ∨ leastNormal ≤ n / 2 ^ (n.log2 - 52)) := by
  have hpos := Nat.two_pow_pos (n.log2 - 52)
  rcases Nat.eq_zero_or_pos n with rfl | hn
  · decide
  obtain ⟨hlow, hhigh⟩ := (Nat.log2_eq_iff (Nat.ne_of_gt hn)).1 rfl
  constructor
  · rw [Nat.div_lt_iff_lt_mul hpos, show 2 * leastNormal = 2 ^ 53 from rfl, ← Nat.pow_add]
    exact Nat.lt_of_lt_of_le hhigh (Nat.pow_le_pow_right Nat.two_pos (by omega))
  · rcases Nat.eq_zero_or_pos (n.log2 - 52) with hzero | hsome
    · exact .inl hzero
    · right
      rw [Nat.le_div_iff_mul_le hpos, show leastNormal = 2 ^ 52 from rfl, ← Nat.pow_add]
      exact Nat.le_trans (Nat.pow_le_pow_right Nat.two_pos (by omega)) hlow

theorem roundHalfEven_nearer (num den : Nat) :
    (roundHalfEven num den = num / den ∧ 2 * (num % den) ≤ den) ∨
      (roundHalfEven num den = num / den + 1 ∧ den ≤ 2 * (num % den)) := by
  unfold roundHalfEven
  dsimp only
  split
  · exact .inr ⟨rfl, by omega⟩
  · exact .inl ⟨rfl, by omega⟩

theorem roundHalfEven_tie {num den : Nat} (h : 2 * (num % den) = den) :
    roundHalfEven num den % 2 = 0 := by
  unfold roundHalfEven
  dsimp only
  split
  · omega
  · omega

/-- The distances from two neighbouring magnitudes: the remainder, and what it lacks of a step. -/
theorem units_distances {den q r shift : Nat} (h : 0 < den) (hq : q < 2 * leastNormal)
    (hfull : shift = 0 ∨ leastNormal ≤ q) :
    (((den * 2 ^ shift * q + r : Nat) : Rat) / den - units (q + shift * leastNormal) = r / den) ∧
      ((units (q + shift * leastNormal + 1) : Rat) - ((den * 2 ^ shift * q + r : Nat) : Rat) / den =
        (den * 2 ^ shift - r) / den) := by
  have hden : (0 : Rat) < den := Nat.cast_pos.2 h
  have hlower := units_steps (Nat.le_of_lt hq) hfull
  have hupper := units_steps (Nat.succ_le_of_lt hq) (hfull.imp_right Nat.le_succ_of_le)
  rw [Nat.succ_add] at hupper
  rw [hlower, hupper]
  push_cast
  constructor
  · field_simp
    ring
  · field_simp
    ring

theorem roundUnits_nearest (num : Nat) {den : Nat} (h : 0 < den) :
    Nearest (num / den : Rat) (roundUnits num den) := by
  obtain ⟨hkept, hfull⟩ := kept_bits (num / den)
  obtain ⟨shift, hshift⟩ : ∃ shift, shift = (num / den).log2 - 52 := ⟨_, rfl⟩
  rw [← hshift, Nat.div_div_eq_div_mul] at hkept hfull
  rw [roundUnits, ← hshift, Nat.shiftLeft_eq]
  have hnearer := roundHalfEven_nearer num (den * 2 ^ shift)
  have htie := @roundHalfEven_tie num (den * 2 ^ shift)
  have hmod := Nat.mod_lt num (Nat.mul_pos h (Nat.two_pow_pos shift))
  have hsplit := Nat.div_add_mod num (den * 2 ^ shift)
  generalize num / (den * 2 ^ shift) = q at *
  generalize num % (den * 2 ^ shift) = r at *
  generalize roundHalfEven num (den * 2 ^ shift) = k at *
  obtain ⟨hbelow, habove⟩ := @units_distances den q r shift h hkept hfull
  rw [hsplit] at hbelow habove
  have hden : (0 : Rat) < den := Nat.cast_pos.2 h
  have hstep : (r : Rat) < den * 2 ^ shift := by exact_mod_cast hmod
  refine @Chosen.nearest _ (q + shift * leastNormal) _ ⟨?_, ?_, ?_, ?_⟩
  · rw [← sub_nonneg, hbelow]
    exact div_nonneg (Nat.cast_nonneg r) (le_of_lt hden)
  · rw [← sub_pos, habove]
    exact div_pos (by linarith) hden
  · rw [hbelow, habove, div_le_div_iff_of_pos_right hden, div_le_div_iff_of_pos_right hden]
    rcases hnearer with ⟨rfl, hle⟩ | ⟨rfl, hle⟩
    · have : (2 * r : Rat) ≤ den * 2 ^ shift := by exact_mod_cast hle
      exact .inl ⟨rfl, by linarith⟩
    · have : (den * 2 ^ shift : Rat) ≤ 2 * r := by exact_mod_cast hle
      exact .inr ⟨by omega, by linarith⟩
  · rw [hbelow, habove, div_left_inj' (ne_of_gt hden)]
    intro heq
    have : (2 * r : Rat) = den * 2 ^ shift := by linarith
    have hk := htie (by exact_mod_cast this)
    simp only [leastNormal]
    omega

/-! ## What stays finite -/

/-- The middle between the greatest double and the power of two behind it. -/
theorem units_middle :
    (units (infinity - 1) + units infinity : Rat) = 2 * ((2 ^ 1024 - 2 ^ 970) * unitsPerOne) := by
  have hlast : infinity - 1 = 2 * leastNormal - 1 + 2045 * leastNormal := rfl
  have hinfinity : infinity = leastNormal + 2046 * leastNormal := rfl
  have hbits : ((2 * leastNormal - 1 : Nat) : Rat) = 2 ^ 53 - 1 := by norm_num [leastNormal]
  have hone : (leastNormal : Rat) = 2 ^ 52 := by norm_num [leastNormal]
  have hlow : (2 : Rat) ^ 2045 = 2 ^ 970 * 2 ^ 1074 * 2 ^ 1 := by rw [← pow_add, ← pow_add]
  have hhigh : (2 : Rat) ^ 2046 = 2 ^ 970 * 2 ^ 1074 * 2 ^ 2 := by rw [← pow_add, ← pow_add]
  have htop : (2 : Rat) ^ 1024 = 2 ^ 970 * 2 ^ 54 := by rw [← pow_add]
  rw [hlast, units_steps (by decide) (.inr (by decide)), hinfinity,
    units_steps (by decide) (.inr (by decide)), unitsPerOne, Nat.shiftLeft_eq, Nat.one_mul,
    Nat.cast_mul, Nat.cast_mul, Nat.cast_pow, Nat.cast_pow, Nat.cast_pow, Nat.cast_ofNat, places,
    hbits, hone, hlow, hhigh, htop]
  generalize (2 : Rat) ^ 970 = a
  generalize (2 : Rat) ^ 1074 = b
  ring

/-- What is nearer to the greatest double than to the power of two behind it stays finite. -/
theorem Nearest.lt_infinity_iff {x : Rat} {m : Nat} (h : Nearest x m) :
    m < infinity ↔ x < (2 ^ 1024 - 2 ^ 970) * unitsPerOne := by
  have hmiddle := units_middle
  have hlast := units_lt (show infinity - 1 < infinity by decide)
  generalize ((2 ^ 1024 - 2 ^ 970) * unitsPerOne : Rat) = middle at *
  constructor
  · intro hm
    by_contra hge
    have hle := units_le (show m ≤ infinity - 1 by omega)
    have hnear := h.near infinity (Nat.le_refl _)
    rw [abs_of_nonpos (by linarith), le_abs'] at hnear
    rcases hnear with hfar | hfar
    · linarith
    · -- As near as the last magnitude, which is odd.
      have hsame : units m = units (infinity - 1) := by
        have : (units m : Rat) = units (infinity - 1) := by linarith
        exact_mod_cast this
      obtain rfl := units_strictMono.injective hsame
      have htie : |(units infinity : Rat) - x| = |(units (infinity - 1) : Rat) - x| := by
        rw [abs_of_nonneg (by linarith), abs_of_nonpos (by linarith)]
        linarith
      exact absurd (h.even infinity (Nat.le_refl _) (by decide) htie) (by decide)
  · intro hx
    refine Nat.lt_of_le_of_ne h.le ?_
    rintro rfl
    have hnear := h.near (infinity - 1) (Nat.sub_le _ _)
    rw [abs_of_nonneg (by linarith), le_abs'] at hnear
    rcases hnear with hfar | hfar
    · linarith
    · linarith

/-! ## The nearest double -/

/-- The factor that a sign stands for. -/
def sign (negative : Bool) : Rat := if negative then -1 else 1

theorem abs_sign (negative : Bool) : |sign negative| = 1 := by
  cases negative <;> simp [sign]

/-- No other double is nearer to `x`, and none is as near unless this one is even. Infinity counts
as the power of two behind the finite doubles. -/
structure Rounds (x : Rat) (d : Double) : Prop where
  isNaN : d.isNaN = false
  near : ∀ c : Double, c.isNaN = false → |d.value - x| ≤ |c.value - x|
  even : ∀ c : Double, c.isNaN = false → c.value ≠ d.value → |c.value - x| = |d.value - x| →
    d.magnitude % 2 = 0

theorem unitsPerOne_pos : (0 : Rat) < unitsPerOne := Nat.cast_pos.2 (by decide)

theorem isNaN_eq_false_iff {d : Double} : d.isNaN = false ↔ d.magnitude ≤ infinity := by
  rw [isNaN, decide_eq_false_iff_not, Nat.not_lt]

/-- The distance to a number of the same sign, in units. -/
theorem units_sub (d : Double) (y : Rat) :
    |d.value - sign d.isNegative * y| * unitsPerOne = |units d.magnitude - y * unitsPerOne| := by
  have hpos := unitsPerOne_pos
  have hfactor : d.value - sign d.isNegative * y =
      sign d.isNegative * ((units d.magnitude - y * unitsPerOne) / unitsPerOne) := by
    unfold value
    rw [sub_div, mul_div_cancel_right₀ _ (ne_of_gt hpos), mul_sub, mul_div_assoc]
    rfl
  rw [hfactor, abs_mul, abs_sign, one_mul, abs_div, abs_of_pos hpos,
    div_mul_cancel₀ _ (ne_of_gt hpos)]

theorem magnitude_of_value {c d : Double} (h : c.value = d.value) : c.magnitude = d.magnitude := by
  have hunits : ∀ b : Double, |b.value| * unitsPerOne = units b.magnitude := by
    intro b
    have hzero := units_sub b 0
    rwa [mul_zero, sub_zero, zero_mul, sub_zero, Nat.abs_cast] at hzero
  have hcast : (units c.magnitude : Rat) = units d.magnitude := by
    rw [← hunits, ← hunits, h]
  exact units_strictMono.injective (Nat.cast_injective hcast)

/-- The distance to a number of the other sign, in units. -/
theorem units_add {d : Double} {negative : Bool} (h : d.isNegative ≠ negative) {y : Rat}
    (hy : 0 ≤ y) :
    |d.value - sign negative * y| * unitsPerOne = units d.magnitude + y * unitsPerOne := by
  have hflip : sign negative = -sign d.isNegative := by
    cases hd : d.isNegative <;> cases negative <;> simp_all [sign]
  rw [hflip, neg_mul, ← mul_neg, units_sub d (-y), neg_mul, sub_neg_eq_add]
  exact abs_of_nonneg (add_nonneg (Nat.cast_nonneg _) (mul_nonneg hy (le_of_lt unitsPerOne_pos)))

/-- Another sign makes the distance no less. -/
theorem units_sub_le (d : Double) (negative : Bool) {y : Rat} (hy : 0 ≤ y) :
    |units d.magnitude - y * unitsPerOne| ≤ |d.value - sign negative * y| * unitsPerOne := by
  by_cases h : d.isNegative = negative
  · rw [← h, units_sub]
  · have hunits : (0 : Rat) ≤ units d.magnitude := Nat.cast_nonneg _
    have hside := mul_nonneg hy (le_of_lt unitsPerOne_pos)
    rw [units_add h hy, abs_le]
    constructor
    · linarith
    · linarith

/-- Each magnitude is that of a double with a given sign. -/
theorem exists_magnitude (negative : Bool) (y : Rat) {k : Nat} (hk : k ≤ infinity) :
    ∃ c : Double, c.isNaN = false ∧ c.magnitude = k ∧
      |c.value - sign negative * y| * unitsPerOne = |units k - y * unitsPerOne| := by
  have hlt : k < signWeight := Nat.lt_of_le_of_lt hk (by decide)
  have hm := magnitude_ofMagnitude negative hlt
  have hdist := units_sub (ofMagnitude negative k) y
  rw [isNegative_ofMagnitude negative hlt, hm] at hdist
  exact ⟨_, isNaN_eq_false_iff.2 (hm.symm ▸ hk), hm, hdist⟩

variable {d : Double} {y : Rat}

theorem Rounds.nearest (h : Rounds (sign d.isNegative * y) d) :
    Nearest (y * unitsPerOne) d.magnitude := by
  obtain ⟨hnan, hnear, heven⟩ := h
  have hpos := unitsPerOne_pos
  refine ⟨isNaN_eq_false_iff.1 hnan, ?_, ?_⟩
  · intro k hk
    obtain ⟨c, hc, -, hdist⟩ := exists_magnitude d.isNegative y hk
    rw [← units_sub d y, ← hdist]
    exact mul_le_mul_of_nonneg_right (hnear c hc) (le_of_lt hpos)
  · intro k hk hne heq
    obtain ⟨c, hc, hm, hdist⟩ := exists_magnitude d.isNegative y hk
    rw [← units_sub d y, ← hdist] at heq
    refine heven c hc ?_ (mul_right_cancel₀ (ne_of_gt hpos) heq)
    intro hvalue
    exact hne (hm.symm.trans (magnitude_of_value hvalue))

theorem Nearest.rounds (hy : 0 ≤ y) (h : Nearest (y * unitsPerOne) d.magnitude) :
    Rounds (sign d.isNegative * y) d := by
  obtain ⟨hle, hnear, heven⟩ := h
  have hpos := unitsPerOne_pos
  have hhere := units_sub d y
  have hfar := fun c : Double => units_sub_le c d.isNegative hy
  refine ⟨isNaN_eq_false_iff.2 hle, ?_, ?_⟩
  · intro c hc
    have := (hnear _ (isNaN_eq_false_iff.1 hc)).trans (hfar c)
    rw [← hhere] at this
    exact le_of_mul_le_mul_right this hpos
  · intro c hc hne heq
    have hk := isNaN_eq_false_iff.1 hc
    by_cases hm : c.magnitude = d.magnitude
    · -- Only zero is as near as its negative.
      have hsign : c.isNegative ≠ d.isNegative := by
        intro hs
        exact hne (by rw [value, value, hs, hm])
      have hzero := hnear 0 (Nat.zero_le _)
      have hside := mul_nonneg hy (le_of_lt hpos)
      have hcast : ((units 0 : Nat) : Rat) = 0 := Nat.cast_zero
      rw [← hhere, ← heq, units_add hsign hy, hcast, zero_sub, abs_neg, abs_of_nonneg hside,
        hm] at hzero
      have hunits : (units d.magnitude : Rat) ≤ units 0 := by linarith
      rw [Nat.le_zero.1 (units_strictMono.le_iff_le.1 (Nat.cast_le.1 hunits))]
    · refine heven _ hk hm (le_antisymm ?_ (hnear _ hk))
      rw [← hhere, ← heq]
      exact hfar c

/-- A number has one nearest double of each sign. -/
theorem Rounds.unique {c : Double} (h : c.isNegative = d.isNegative)
    (hc : Rounds (sign d.isNegative * y) c) (hd : Rounds (sign d.isNegative * y) d) : c = d := by
  rw [← h] at hc
  have hm := hc.nearest.unique hd.nearest
  rw [← ofMagnitude_magnitude c, ← ofMagnitude_magnitude d, h, hm]

end Double

namespace Decimal

def value (d : Decimal) : Rat := d.digits * (10 : Rat) ^ d.exponent

theorem powerOfTen_cast (n : Nat) : (powerOfTen n : Rat) = 10 ^ n := Nat.cast_pow 10 n

theorem magnitude_nearest (d : Decimal) :
    Double.Nearest (d.value * Double.unitsPerOne) d.magnitude := by
  unfold value magnitude
  split
  · next h =>
    obtain ⟨e, he⟩ := Int.eq_ofNat_of_zero_le h
    have hnearest := Double.roundUnits_nearest
      (d.digits * powerOfTen e * Double.unitsPerOne) Nat.one_pos
    rw [Nat.cast_one, div_one, Nat.cast_mul, Nat.cast_mul, powerOfTen_cast] at hnearest
    rw [he, Int.toNat_natCast, zpow_natCast]
    exact hnearest
  · next h =>
    obtain ⟨e, he⟩ := Int.exists_eq_neg_ofNat (le_of_not_ge h)
    have hnearest := Double.roundUnits_nearest
      (d.digits * Double.unitsPerOne) (Double.powerOfTen_pos e)
    rw [Nat.cast_mul, powerOfTen_cast] at hnearest
    rw [he, Int.natAbs_neg, Int.natAbs_natCast, zpow_neg, zpow_natCast, mul_right_comm,
      ← div_eq_mul_inv]
    exact hnearest

end Decimal

end ObjectSpec
