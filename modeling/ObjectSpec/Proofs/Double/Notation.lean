import ObjectSpec.Proofs.Double.Whole
import ObjectSpec.Proofs.Token.Words
import ObjectSpec.Tree.Numeral
import ObjectSpec.Tree.Render

/-!
# Numbers as numerals

The text of a number is one numeral (`isNumeral_render`), and that numeral stands for
the number again (`ofNumeral_render`). For a double this rests on the digits chosen
for it, which read back as the double: the point is put between them, and zeros where
the digits do not reach, and neither changes the nearest double (`positionalText_eq`).
-/

namespace ObjectSpec

/-! ## Rows of digits with zeros -/

namespace Text

theorem readDigits_append_zeros (row : List Char) (n : Nat) :
    readDigits (row ++ List.replicate n '0') = readDigits row * Decimal.powerOfTen n := by
  induction n with
  | zero => simp [Decimal.powerOfTen]
  | succ n ih =>
    have hzero : digitValue '0' = 0 := rfl
    have hten : Decimal.powerOfTen (n + 1) = Decimal.powerOfTen n * 10 := rfl
    rw [List.replicate_succ', ← List.append_assoc, readDigits_append_one, ih, hzero, Nat.add_zero,
      hten, Nat.mul_comm 10, Nat.mul_assoc]

theorem readDigits_zeros_append (n : Nat) (row : List Char) :
    readDigits (List.replicate n '0' ++ row) = readDigits row := by
  induction n with
  | zero => rfl
  | succ n ih => exact ih

end Text

/-! ## The double of a positional text -/

namespace Double

theorem roundHalfEven_scale (num den : Nat) {k : Nat} (hk : 0 < k) :
    roundHalfEven (num * k) (den * k) = roundHalfEven num den := by
  have hlt : ∀ r : Nat, den * k < 2 * (r * k) ↔ den < 2 * r := fun r => by
    rw [← Nat.mul_assoc]
    exact Nat.mul_lt_mul_right hk
  have heq : ∀ r : Nat, 2 * (r * k) = den * k ↔ 2 * r = den := fun r => by
    rw [← Nat.mul_assoc]
    exact Nat.mul_left_inj (Nat.ne_of_gt hk)
  simp only [roundHalfEven, Nat.mul_div_mul_right num den hk, Nat.mul_mod_mul_right, hlt, heq]

/-- Rounding is a matter of the quotient alone. -/
theorem roundUnits_scale (num den : Nat) {k : Nat} (hk : 0 < k) :
    roundUnits (num * k) (den * k) = roundUnits num den := by
  have hshift : ∀ n, (den * k) <<< n = (den <<< n) * k := fun n => by
    rw [Nat.shiftLeft_eq, Nat.shiftLeft_eq, Nat.mul_right_comm]
  simp only [roundUnits, Nat.mul_div_mul_right num den hk, hshift, roundHalfEven_scale _ _ hk]

/-- A zero behind the digits, the point moved by one, changes nothing. -/
theorem magnitude_append_zero {digits e : Nat} :
    (⟨digits * Decimal.powerOfTen e * 10, -1⟩ : Decimal).magnitude =
      (⟨digits, e⟩ : Decimal).magnitude := by
  have hneg : ¬ (0 : Int) ≤ -1 := by decide
  have hpos : (0 : Int) ≤ e := Int.natCast_nonneg e
  simp only [Decimal.magnitude, hneg, hpos, if_true, if_false, Int.toNat_natCast]
  have hscale := roundUnits_scale (digits * Decimal.powerOfTen e * unitsPerOne) 1
    (show 0 < 10 by decide)
  rw [Nat.mul_right_comm] at hscale
  exact hscale

/-- Two rows of digits with a point between them, which stand for the nearest double. -/
structure Positional (row : List Char) (m : Nat) (whole fraction : List Char) : Prop where
  row_eq : row = whole ++ '.' :: fraction
  whole_ne : whole ≠ []
  fraction_ne : fraction ≠ []
  digits : ∀ c ∈ whole ++ fraction, c.isDigit = true
  magnitude : (⟨Text.readDigits (whole ++ fraction), -fraction.length⟩ : Decimal).magnitude = m

theorem positionalText_eq (d : Decimal) :
    ∃ whole fraction, Positional (positionalText d) d.magnitude whole fraction := by
  obtain ⟨digits, exponent⟩ := d
  have hrow := Text.readDigits_writeDigits digits
  have hne := Text.writeDigits_ne_nil digits
  have hdigit : ∀ c ∈ Text.writeDigits digits, c.isDigit = true :=
    fun c hc => Text.isDigit_of_mem_writeDigits hc
  have hzeros : ∀ n, ∀ c ∈ List.replicate n '0', c.isDigit = true := by
    intro n c hc
    rw [List.eq_of_mem_replicate hc]
    decide
  unfold positionalText
  dsimp only
  generalize Text.writeDigits digits = row at *
  split
  · -- The point stands behind all digits and some zeros.
    next h =>
    obtain ⟨e, rfl⟩ := Int.eq_ofNat_of_zero_le h
    refine ⟨row ++ List.replicate e '0', ['0'], ?_, by simp [hne], by simp, ?_, ?_⟩
    · rw [Int.natAbs_natCast]
    · intro c hc
      simp only [List.mem_append, List.mem_singleton] at hc
      rcases hc with (hc | hc) | rfl
      · exact hdigit c hc
      · exact hzeros e c hc
      · decide
    · have hread : Text.readDigits (row ++ List.replicate e '0' ++ ['0']) =
          digits * Decimal.powerOfTen e * 10 := by
        have hone := Text.readDigits_append_zeros (row ++ List.replicate e '0') 1
        rwa [Text.readDigits_append_zeros row, hrow] at hone
      rw [hread]
      exact magnitude_append_zero
  · next h =>
    obtain ⟨e, rfl, he⟩ : ∃ e : Nat, exponent = -(e : Int) ∧ 0 < e :=
      ⟨exponent.natAbs, by omega, by omega⟩
    rw [Int.natAbs_neg, Int.natAbs_natCast]
    split
    · -- The point stands between the digits.
      next hlt =>
      refine ⟨row.take (row.length - e), row.drop (row.length - e), rfl, ?_, ?_, ?_, ?_⟩
      · intro hnil
        have := congrArg List.length hnil
        rw [List.length_take, List.length_nil] at this
        omega
      · intro hnil
        have := congrArg List.length hnil
        rw [List.length_drop, List.length_nil] at this
        omega
      · rw [List.take_append_drop]
        exact hdigit
      · have hlen : (row.drop (row.length - e)).length = e := by
          rw [List.length_drop]
          omega
        rw [List.take_append_drop, hlen, hrow]
    · -- The point stands before all digits, with some zeros between.
      next hge =>
      have hlen : (List.replicate (e - row.length) '0' ++ row).length = e := by
        rw [List.length_append, List.length_replicate]
        omega
      refine ⟨['0'], List.replicate (e - row.length) '0' ++ row, rfl, by simp, by simp [hne], ?_, ?_⟩
      · intro c hc
        simp only [List.mem_append, List.mem_singleton] at hc
        rcases hc with rfl | hc | hc
        · decide
        · exact hzeros _ c hc
        · exact hdigit c hc
      · have hread := Text.readDigits_zeros_append (e - row.length + 1) row
        rw [List.replicate_succ, List.cons_append, hrow] at hread
        rw [hlen, List.singleton_append, hread]

/-! ## The text of a finite double -/

theorem text_eq {d : Double} (h : d.isFinite = true) :
    (d.text specLayout).toList =
      (if d.isNegative then ['-'] else []) ++ positionalText (shortest .up d.magnitude) := by
  have hnan : d.isNaN = false := by
    simp only [isFinite, isNaN, decide_eq_true_eq, decide_eq_false_iff_not] at h ⊢
    omega
  simp only [text, hnan, h, specLayout, Bool.false_eq_true, if_true, if_false,
    String.toList_ofList]

variable {row whole fraction : List Char} {m : Nat}

theorem Positional.ne_minus (h : Positional row m whole fraction) :
    (row.head? == some '-') = false := by
  cases whole with
  | nil => exact absurd rfl h.whole_ne
  | cons c cs =>
    rw [h.row_eq, List.cons_append, List.head?_cons, beq_eq_false_iff_ne]
    intro hc
    have hd := h.digits c List.mem_cons_self
    rw [Option.some.inj hc] at hd
    exact absurd hd (by decide)

theorem Positional.doubleOfNumeral (h : Positional row m whole fraction) (negative : Bool) :
    doubleOfNumeral ((if negative then ['-'] else []) ++ row) = ofMagnitude negative m := by
  have hpoint : ∀ c ∈ whole, (c != '.') = true := by
    intro c hc
    have hd := h.digits c (List.mem_append_left _ hc)
    simp only [bne_iff_ne]
    rintro rfl
    exact absurd hd (by decide)
  have hwhole : row.takeWhile (· != '.') = whole := by
    rw [h.row_eq, List.takeWhile_append_of_pos hpoint]
    simp
  have hfraction : (row.dropWhile (· != '.')).drop 1 = fraction := by
    rw [h.row_eq, List.dropWhile_append_of_pos hpoint]
    simp
  cases negative with
  | false =>
    simp only [ObjectSpec.doubleOfNumeral, Bool.false_eq_true, if_false, List.nil_append,
      h.ne_minus, hwhole, hfraction, Decimal.toDouble, h.magnitude]
  | true =>
    simp only [ObjectSpec.doubleOfNumeral, if_true, List.singleton_append, List.head?_cons,
      beq_self_eq_true, List.tail_cons, hwhole, hfraction, Decimal.toDouble, h.magnitude]

theorem Positional.isNumeral (h : Positional row m whole fraction) (negative : Bool) :
    Token.IsNumeral ((if negative then ['-'] else []) ++ row) := by
  have hsign : (if negative then ['-'] else []) = [] ∨ (if negative then ['-'] else []) = ['-'] := by
    cases negative <;> simp
  have hfraction : Token.IsFraction ('.' :: fraction) := by
    cases hf : fraction with
    | nil => exact absurd hf h.fraction_ne
    | cons c cs => exact .some fun d hd => h.digits d (List.mem_append_right _ (hf ▸ hd))
  have := Token.IsNumeral.mk hsign h.whole_ne (fun c hc => h.digits c (List.mem_append_left _ hc))
    hfraction (.inl rfl)
  rwa [List.append_nil, List.append_assoc, ← h.row_eq] at this

/-- The text of a finite double stands for that double, negative zero included. -/
theorem doubleOfNumeral_text {d : Double} (h : d.isFinite = true) :
    ObjectSpec.doubleOfNumeral (d.text specLayout).toList = d := by
  have hle : d.magnitude ≤ infinity := Nat.le_of_lt (by simpa [isFinite] using h)
  obtain ⟨whole, fraction, hp⟩ := positionalText_eq (shortest .up d.magnitude)
  rw [text_eq h, hp.doubleOfNumeral, shortest_magnitude .up hle, ofMagnitude_magnitude]

theorem isNumeral_text {d : Double} (h : d.isFinite = true) :
    Token.IsNumeral (d.text specLayout).toList := by
  obtain ⟨whole, fraction, hp⟩ := positionalText_eq (shortest .up d.magnitude)
  rw [text_eq h]
  exact hp.isNumeral _

/-- The text has a point, and a digit after it. -/
theorem text_point {d : Double} (h : d.isFinite = true) :
    '.' ∈ (d.text specLayout).toList ∧ (d.text specLayout).toList.getLast? ≠ some 'L' := by
  obtain ⟨whole, fraction, hp⟩ := positionalText_eq (shortest .up d.magnitude)
  rw [text_eq h, hp.row_eq]
  refine ⟨by simp, fun hl => ?_⟩
  have hmem : 'L' ∈ fraction := by
    have hf := hp.fraction_ne
    cases fraction with
    | nil => exact absurd rfl hf
    | cons c cs =>
      rw [List.getLast?_append, List.getLast?_append, List.getLast?_cons_cons] at hl
      have : (c :: cs).getLast? = some 'L' := by
        cases hcs : (c :: cs).getLast? with
        | none => simp at hcs
        | some x => rw [hcs] at hl; exact hl
      exact List.mem_of_getLast? this
  exact absurd (hp.digits 'L' (List.mem_append_right _ hmem)) (by decide)

end Double

/-! ## Literals -/

namespace Literal

/-- A literal that is written as a numeral. -/
inductive Numeric : Literal → Prop
  | integer (n : Int32) : Numeric (.integer n)
  | long (n : Int64) : Numeric (.long n)
  | double {d : Double} : d.isFinite = true → Numeric (.double d)

theorem mem_writeInteger {n : Int} {c : Char} (h : c ∈ Text.writeInteger n) :
    c.isDigit = true ∨ c = '-' := by
  rw [Text.writeInteger] at h
  split at h
  · rcases List.mem_cons.1 h with rfl | h
    · exact .inr rfl
    · exact .inl (Text.isDigit_of_mem_writeDigits h)
  · exact .inl (Text.isDigit_of_mem_writeDigits h)

theorem not_mem_writeInteger {c : Char} (hd : c.isDigit = false) (hm : c ≠ '-') (n : Int) :
    c ∉ Text.writeInteger n := by
  intro h
  rcases mem_writeInteger h with h | h
  · rw [hd] at h
    cases h
  · exact hm h

theorem isNumeral_writeInteger (n : Int) {suffix : List Char} (hs : suffix = [] ∨ suffix = ['L']) :
    Token.IsNumeral (Text.writeInteger n ++ suffix) := by
  have hdigits : ∀ c ∈ Text.writeDigits n.natAbs, c.isDigit = true :=
    fun c hc => Text.isDigit_of_mem_writeDigits hc
  have hsign : ∀ sign, sign = [] ∨ sign = ['-'] →
      Token.IsNumeral (sign ++ Text.writeDigits n.natAbs ++ suffix) := by
    intro sign h
    have := Token.IsNumeral.mk h (Text.writeDigits_ne_nil _) hdigits .none hs
    rwa [List.append_nil] at this
  rw [Text.writeInteger]
  split
  · exact hsign ['-'] (.inr rfl)
  · exact hsign [] (.inl rfl)

/-- The text of a number is one numeral. -/
theorem isNumeral_render {l : Literal} (h : l.Numeric) : Token.IsNumeral l.render.toList := by
  cases h with
  | integer n =>
    have := isNumeral_writeInteger n.toInt (.inl rfl)
    rwa [render, Text.integerText, String.toList_ofList, ← List.append_nil (Text.writeInteger _)]
  | long n =>
    have := isNumeral_writeInteger n.toInt (.inr rfl)
    rwa [render, Text.integerText, String.toList_append, String.toList_ofList]
  | double hd => exact Double.isNumeral_text hd

/-- The text of a number stands for that number. -/
theorem ofNumeral_render {l : Literal} (h : l.Numeric) : ofNumeral l.render.toList = .ok l := by
  cases h with
  | integer n =>
    have hlast : ¬ (Text.writeInteger n.toInt).getLast? = some 'L' := fun hl =>
      not_mem_writeInteger (by decide) (by decide) _ (List.mem_of_getLast? hl)
    have hpoint : ¬ (Text.writeInteger n.toInt).contains '.' = true := by
      simpa using not_mem_writeInteger (c := '.') (by decide) (by decide) n.toInt
    rw [render, Text.integerText, String.toList_ofList, ofNumeral, if_neg hlast, if_neg hpoint,
      Text.readInteger_writeInteger, narrow?_eq_some_iff.2 rfl]
  | long n =>
    have hpoint : ¬ (Text.writeInteger n.toInt).contains '.' = true := by
      simpa using not_mem_writeInteger (c := '.') (by decide) (by decide) n.toInt
    have hrow : (Text.integerText n.toInt ++ "L").toList = Text.writeInteger n.toInt ++ ['L'] := by
      rw [String.toList_append, Text.integerText, String.toList_ofList]
      rfl
    rw [render, hrow, ofNumeral, if_pos List.getLast?_concat]
    dsimp only
    rw [List.dropLast_concat, if_neg hpoint, Text.readInteger_writeInteger,
      wide?_eq_some_iff.2 rfl]
  | @double d hd =>
    obtain ⟨hpoint, hlast⟩ := Double.text_point hd
    rw [render, ofNumeral, if_neg hlast, if_pos (List.contains_iff_mem.2 hpoint)]
    dsimp only
    rw [Double.doubleOfNumeral_text hd, if_pos hd]

/-- What reading a numeral can give. -/
inductive Outcome : Except Expectation Literal → Prop
  | read {l} : Numeric l → Outcome (.ok l)
  | wholeLong : Outcome (.error .wholeLong)
  | wideInteger : Outcome (.error .wideInteger)
  | finiteDouble : Outcome (.error .finiteDouble)
  | narrowInteger : Outcome (.error .narrowInteger)

theorem outcome_ofNumeral (numeral : List Char) : Outcome (ofNumeral numeral) := by
  unfold ofNumeral
  dsimp only
  split
  · split
    · exact .wholeLong
    · split
      · exact .read (.long _)
      · exact .wideInteger
  · split
    · split
      · next hfinite => exact .read (.double hfinite)
      · exact .finiteDouble
    · split
      · exact .read (.integer _)
      · exact .narrowInteger

/-- A numeral stands for a number, and never for a double that is not finite. -/
theorem numeric_of_ofNumeral {numeral : List Char} {l : Literal} (h : ofNumeral numeral = .ok l) :
    l.Numeric := by
  have houtcome := outcome_ofNumeral numeral
  rw [h] at houtcome
  cases houtcome with
  | read hl => exact hl

end Literal

end ObjectSpec
