import Mathlib.Data.List.Induction
import Mathlib.Data.Nat.Digits.Defs
import ObjectSpec.Proofs.Double.Notation
import ObjectSpec.Proofs.Double.Rounding
import ObjectSpec.Tree.Parser

/-!
# Numerals are exact or refused

A `Numeral` is a sign, digits before and after a point, and a mark for longs. It has a value,
whatever its length. An integer or a long is that value, a double the one nearest to it, and a
value out of range is refused (`Numeral.literal_exact`).
-/

namespace ObjectSpec

namespace Text

/-- At least one digit. -/
structure IsRow (row : List Char) : Prop where
  ne_nil : row ≠ []
  digits : ∀ c ∈ row, c.isDigit = true

theorem readDigits_eq_ofDigits (row : List Char) :
    readDigits row = Nat.ofDigits 10 (row.map digitValue).reverse := by
  induction row using List.reverseRecOn with
  | nil => rfl
  | append_singleton row c ih =>
    rw [readDigits_append_one, ih, List.map_append, List.reverse_append, List.map_singleton,
      List.reverse_singleton, List.singleton_append, Nat.ofDigits_cons, Nat.add_comm]

theorem ofDigits_append (front rest : List Char) :
    Nat.ofDigits 10 ((front ++ rest).map digitValue).reverse =
      Nat.ofDigits 10 (front.map digitValue).reverse * 10 ^ rest.length +
        Nat.ofDigits 10 (rest.map digitValue).reverse := by
  rw [List.map_append, List.reverse_append, Nat.ofDigits_append, List.length_reverse,
    List.length_map, Nat.mul_comm, Nat.add_comm]

end Text

/-- An optional minus, digits, optionally a point and digits, optionally an `L`. -/
structure Numeral where
  negative : Bool
  whole : List Char
  fraction : Option (List Char)
  long : Bool
  whole_row : Text.IsRow whole
  fraction_row : ∀ row ∈ fraction, Text.IsRow row

namespace Numeral

variable (n : Numeral)

/-! ## Text and value -/

/-- The minus and the digits before the point. -/
def front : List Char := (if n.negative then ['-'] else []) ++ n.whole

def behind : List Char :=
  match n.fraction with
  | none => []
  | some row => '.' :: row

def text : List Char := n.front ++ n.behind ++ if n.long then ['L'] else []

/-- The number that decimal digits denote, of which the last one counts ones. -/
def number (row : List Char) : Nat := Nat.ofDigits 10 (row.map Text.digitValue).reverse

/-- What the digits before the point denote, with the sign. -/
def integer : Int := if n.negative then -(number n.whole : Int) else number n.whole

/-- What all digits denote. -/
def size : Rat :=
  number n.whole + number (n.fraction.getD []) / 10 ^ (n.fraction.getD []).length

def value : Rat := Double.sign n.negative * n.size

/-- The lexer takes such texts for numerals, and no others. -/
theorem isNumeral_iff {row : List Char} : Token.IsNumeral row ↔ ∃ n : Numeral, n.text = row := by
  constructor
  · intro h
    cases h with
    | @mk sign whole fraction suffix hsign hne hwhole hfraction hsuffix =>
      obtain ⟨negative, rfl⟩ : ∃ b : Bool, (if b then ['-'] else []) = sign := by
        rcases hsign with rfl | rfl
        · exact ⟨false, rfl⟩
        · exact ⟨true, rfl⟩
      obtain ⟨long, rfl⟩ : ∃ b : Bool, (if b then ['L'] else []) = suffix := by
        rcases hsuffix with rfl | rfl
        · exact ⟨false, rfl⟩
        · exact ⟨true, rfl⟩
      cases hfraction with
      | none => exact ⟨⟨negative, whole, none, long, ⟨hne, hwhole⟩, nofun⟩, rfl⟩
      | @some c cs hdigits =>
        refine ⟨⟨negative, whole, some (c :: cs), long, ⟨hne, hwhole⟩, ?_⟩, rfl⟩
        intro row hrow
        obtain rfl := Option.some.inj hrow
        exact ⟨List.cons_ne_nil c cs, hdigits⟩
  · rintro ⟨n, rfl⟩
    have hsign : (if n.negative then ['-'] else []) = [] ∨
        (if n.negative then ['-'] else []) = ['-'] := by
      cases n.negative <;> simp
    have hsuffix : (if n.long then ['L'] else []) = [] ∨
        (if n.long then ['L'] else []) = ['L'] := by
      cases n.long <;> simp
    refine .mk hsign n.whole_row.ne_nil n.whole_row.digits ?_ hsuffix
    unfold behind
    cases hf : n.fraction with
    | none => exact .none
    | some row =>
      obtain ⟨hne, hdigits⟩ := n.fraction_row row hf
      cases row with
      | nil => exact absurd rfl hne
      | cons c cs => exact .some hdigits

/-! ## Reading the text -/

theorem readInteger_front : Text.readInteger n.front = n.integer := by
  unfold front integer number
  rw [← Text.readDigits_eq_ofDigits]
  cases n.negative with
  | true => rfl
  | false =>
    cases hw : n.whole with
    | nil => exact absurd hw n.whole_row.ne_nil
    | cons c cs =>
      have hc : c ≠ '-' := by
        rintro rfl
        have := n.whole_row.digits '-' (hw ▸ List.mem_cons_self)
        exact absurd this (by decide)
      exact if_neg hc

theorem not_mem_front {c : Char} (hd : c.isDigit = false) (hm : c ≠ '-') : c ∉ n.front := by
  intro h
  unfold front at h
  rcases List.mem_append.1 h with h | h
  · split at h
    · exact hm (List.mem_singleton.1 h)
    · cases h
  · rw [n.whole_row.digits c h] at hd
    cases hd

theorem not_mem_behind {c : Char} (hd : c.isDigit = false) (hp : c ≠ '.') : c ∉ n.behind := by
  intro h
  unfold behind at h
  cases hf : n.fraction with
  | none =>
    rw [hf] at h
    cases h
  | some row =>
    rw [hf] at h
    rcases List.mem_cons.1 h with h | h
    · exact hp h
    · rw [(n.fraction_row row hf).digits c h] at hd
      cases hd

/-- The digits with the point between them, as they are read. -/
def decimal : Decimal :=
  ⟨Text.readDigits (n.whole ++ n.fraction.getD []), -(n.fraction.getD []).length⟩

theorem value_decimal : n.decimal.value = n.size := by
  have hpow : (10 : Rat) ^ (n.fraction.getD []).length ≠ 0 := pow_ne_zero _ (by norm_num)
  unfold decimal Decimal.value size number
  rw [Text.readDigits_eq_ofDigits, Text.ofDigits_append, zpow_neg, zpow_natCast]
  push_cast
  rw [← div_eq_mul_inv, add_div, mul_div_cancel_right₀ _ hpow]

/-- The double nearest to the value. -/
def double : Double := n.decimal.toDouble n.negative

theorem doubleOfNumeral_front {row : List Char} (h : n.fraction = some row) :
    doubleOfNumeral (n.front ++ '.' :: row) = n.double := by
  obtain ⟨hne, hdigits⟩ := n.fraction_row row h
  have hpositional : Double.Positional (n.whole ++ '.' :: row) n.decimal.magnitude n.whole row := by
    refine ⟨rfl, n.whole_row.ne_nil, hne, ?_, ?_⟩
    · intro c hc
      exact (List.mem_append.1 hc).elim (n.whole_row.digits c) (hdigits c)
    · rw [decimal, h, Option.getD_some]
  rw [front, List.append_assoc]
  exact hpositional.doubleOfNumeral n.negative

theorem behind_of_none (h : n.fraction = none) : n.behind = [] := by rw [behind, h]

theorem behind_of_some {row : List Char} (h : n.fraction = some row) : n.behind = '.' :: row := by
  rw [behind, h]

/-- A numeral is read by its kind, of which there are four. -/
def literal? : Option Literal :=
  match n.long, n.fraction with
  | true, none => (Literal.wide? n.integer).map .long
  | true, some _ => none
  | false, none => (Literal.narrow? n.integer).map .integer
  | false, some _ => if n.double.isFinite then some (.double n.double) else none

/-- What a numeral of this kind has to be. -/
def expected : Expectation :=
  match n.long, n.fraction with
  | true, none => .wideInteger
  | true, some _ => .wholeLong
  | false, none => .narrowInteger
  | false, some _ => .finiteDouble

theorem ofNumeral_text : Literal.ofNumeral n.text = n.literal?.elim (.error n.expected) .ok := by
  have hfront := n.not_mem_front (c := '.') (by decide) (by decide)
  have hno : ¬ n.front.contains '.' = true := by simpa using hfront
  have hpoint : ∀ row, (n.front ++ '.' :: row).contains '.' = true := by simp
  have hmark : ¬ (n.front ++ n.behind).getLast? = some 'L' := by
    intro h
    rcases List.mem_append.1 (List.mem_of_getLast? h) with h | h
    · exact n.not_mem_front (by decide) (by decide) h
    · exact n.not_mem_behind (by decide) (by decide) h
  unfold text Literal.ofNumeral literal? expected
  cases n.long with
  | true =>
    rw [if_pos rfl, if_pos List.getLast?_concat, List.dropLast_concat]
    dsimp only
    cases hf : n.fraction with
    | none =>
      rw [n.behind_of_none hf, List.append_nil, if_neg hno, readInteger_front]
      cases Literal.wide? n.integer <;> rfl
    | some row =>
      rw [n.behind_of_some hf, if_pos (hpoint row)]
      rfl
  | false =>
    rw [if_neg Bool.false_ne_true, List.append_nil, if_neg hmark]
    dsimp only
    cases hf : n.fraction with
    | none =>
      rw [n.behind_of_none hf, List.append_nil, if_neg hno, readInteger_front]
      cases Literal.narrow? n.integer <;> rfl
    | some row =>
      rw [n.behind_of_some hf, if_pos (hpoint row), n.doubleOfNumeral_front hf]
      cases n.double.isFinite <;> rfl

/-! ## The nearest double -/

theorem size_nonneg : 0 ≤ n.size := by
  unfold size
  positivity

theorem magnitude_double : n.double.magnitude = n.decimal.magnitude ∧
    n.double.isNegative = n.negative := by
  have hlt : n.decimal.magnitude < Double.signWeight :=
    Nat.lt_of_le_of_lt n.decimal.magnitude_nearest.le (by decide)
  exact ⟨Double.magnitude_ofMagnitude n.negative hlt, Double.isNegative_ofMagnitude n.negative hlt⟩

theorem nearest_double : Double.Nearest (n.size * Double.unitsPerOne) n.double.magnitude := by
  rw [n.magnitude_double.1, ← value_decimal]
  exact n.decimal.magnitude_nearest

theorem eq_double_iff {d : Double} :
    d = n.double ↔ d.isNegative = n.negative ∧ d.Rounds n.value := by
  have hsign := n.magnitude_double.2
  have hrounds : Double.Rounds n.value n.double := by
    rw [value, ← hsign]
    exact n.nearest_double.rounds n.size_nonneg
  constructor
  · rintro rfl
    exact ⟨hsign, hrounds⟩
  · rintro ⟨hd, hr⟩
    rw [value, ← hsign] at hr hrounds
    exact Double.Rounds.unique (hd.trans hsign.symm) hr hrounds

/-- The double is finite if the digits denote less than the middle between the greatest double and
the power of two behind it. -/
theorem isFinite_double : n.double.isFinite = true ↔ n.size < 2 ^ 1024 - 2 ^ 970 := by
  rw [Double.isFinite, decide_eq_true_iff, n.nearest_double.lt_infinity_iff]
  exact mul_lt_mul_iff_of_pos_right Double.unitsPerOne_pos

/-! ## The literal -/

theorem ofNumeral_eq_ok {l : Literal} : Literal.ofNumeral n.text = .ok l ↔ n.literal? = some l := by
  rw [ofNumeral_text]
  cases n.literal? <;> simp

theorem ofNumeral_eq_error (h : ∀ l, Literal.ofNumeral n.text ≠ .ok l) :
    Literal.ofNumeral n.text = .error n.expected := by
  rw [ofNumeral_text] at h ⊢
  cases hl : n.literal? with
  | none => rfl
  | some l =>
    rw [hl] at h
    exact absurd rfl (h l)

theorem ofNumeral_long {i : Int64} : Literal.ofNumeral n.text = .ok (.long i) ↔
    n.long = true ∧ n.fraction = none ∧ i.toInt = n.integer := by
  rw [ofNumeral_eq_ok, literal?, ← Literal.wide?_eq_some_iff]
  split <;> simp [*]

theorem ofNumeral_integer {i : Int32} : Literal.ofNumeral n.text = .ok (.integer i) ↔
    n.long = false ∧ n.fraction = none ∧ i.toInt = n.integer := by
  rw [ofNumeral_eq_ok, literal?, ← Literal.narrow?_eq_some_iff]
  split <;> simp [*]

theorem ofNumeral_double {d : Double} : Literal.ofNumeral n.text = .ok (.double d) ↔
    n.long = false ∧ n.fraction ≠ none ∧ n.double.isFinite = true ∧ n.double = d := by
  rw [ofNumeral_eq_ok, literal?]
  split <;> simp [*]

end Numeral

/-! ## Ranges -/

theorem Literal.exists_wide_iff {k : Int} :
    (∃ i : Int64, i.toInt = k) ↔ -2 ^ 63 ≤ k ∧ k ≤ 2 ^ 63 - 1 := by
  constructor
  · rintro ⟨i, rfl⟩
    exact ⟨Int64.minValue_le_toInt i, Int64.toInt_le i⟩
  · rintro ⟨hlo, hhi⟩
    exact ⟨Int64.ofInt k, Int64.toInt_ofInt_of_le hlo (by omega)⟩

theorem Literal.exists_narrow_iff {k : Int} :
    (∃ i : Int32, i.toInt = k) ↔ -2 ^ 31 ≤ k ∧ k ≤ 2 ^ 31 - 1 := by
  constructor
  · rintro ⟨i, rfl⟩
    exact ⟨Int32.minValue_le_toInt i, Int32.toInt_le i⟩
  · rintro ⟨hlo, hhi⟩
    exact ⟨Int32.ofInt k, Int32.toInt_ofInt_of_le hlo (by omega)⟩

/-- A numeral is read where it stands, or refused there. -/
theorem Rule.literal_number {r : Reader} {numeral : String} {span : Span} {rest : List Placed}
    (h : r.cursor.rest = ⟨.number numeral, span⟩ :: rest) :
    ∃ s, s.cursor.rest = rest ∧ Rule.literal r =
      match Literal.ofNumeral numeral.toList with
      | .ok l => .ok (.literal l) s
      | .error expected => .error ⟨span.start, expected, .numeral numeral⟩ s := by
  obtain ⟨⟨taken, _, finish⟩, depth⟩ := r
  obtain rfl : _ = _ := h
  refine ⟨⟨⟨⟨.number numeral, span⟩ :: taken, rest, finish⟩, depth⟩, rfl, ?_⟩
  simp only [Rule.literal, bind, EStateM.bind, Rule.advance, Cursor.advance]
  cases Literal.ofNumeral numeral.toList <;> rfl

namespace Numeral

variable (n : Numeral)

/-! ## Exact or refused -/

/-- What a numeral denotes is in the range of its kind. -/
def Fits : Prop :=
  match n.long, n.fraction with
  | true, none => -2 ^ 63 ≤ n.integer ∧ n.integer ≤ 2 ^ 63 - 1
  | true, some _ => False
  | false, none => -2 ^ 31 ≤ n.integer ∧ n.integer ≤ 2 ^ 31 - 1
  | false, some _ => |n.value| < 2 ^ 1024 - 2 ^ 970

theorem abs_value : |n.value| = n.size := by
  rw [value, abs_mul, Double.abs_sign, one_mul, abs_of_nonneg n.size_nonneg]

theorem fits_iff : (∃ l, Literal.ofNumeral n.text = .ok l) ↔ n.Fits := by
  simp only [ofNumeral_eq_ok]
  unfold literal? Fits
  rw [← Option.isSome_iff_exists]
  split
  · rw [Option.isSome_map, Option.isSome_iff_exists, ← Literal.exists_wide_iff]
    simp only [Literal.wide?_eq_some_iff]
  · simp
  · rw [Option.isSome_map, Option.isSome_iff_exists, ← Literal.exists_narrow_iff]
    simp only [Literal.narrow?_eq_some_iff]
  · rw [abs_value, ← isFinite_double]
    cases n.double.isFinite <;> simp

/-- What a numeral stands for. -/
structure Exact (n : Numeral) : Prop where
  token : tokenize (String.ofList n.text) =
    .ok [⟨.number (String.ofList n.text), ⟨0, Text.byteCount (String.ofList n.text).toList⟩⟩]
  long_iff : ∀ k : Int, (∃ i : Int64, i.toInt = k ∧ Literal.ofNumeral n.text = .ok (.long i)) ↔
    n.long = true ∧ n.fraction = none ∧ n.integer = k ∧ -2 ^ 63 ≤ k ∧ k ≤ 2 ^ 63 - 1
  integer_iff : ∀ k : Int,
    (∃ i : Int32, i.toInt = k ∧ Literal.ofNumeral n.text = .ok (.integer i)) ↔
      n.long = false ∧ n.fraction = none ∧ n.integer = k ∧ -2 ^ 31 ≤ k ∧ k ≤ 2 ^ 31 - 1
  double_iff : ∀ d : Double, Literal.ofNumeral n.text = .ok (.double d) ↔
    n.long = false ∧ n.fraction ≠ none ∧
      d.isNegative = n.negative ∧ d.Rounds n.value ∧ d.isFinite = true
  ok_iff : (∃ l, Literal.ofNumeral n.text = .ok l) ↔ n.Fits
  refused : ¬ n.Fits → ∀ (r : Reader) span rest,
    r.cursor.rest = ⟨.number (String.ofList n.text), span⟩ :: rest → ∃ s, Rule.literal r =
      .error ⟨span.start, n.expected, .numeral (String.ofList n.text)⟩ s
  again : ∀ l, Literal.ofNumeral n.text = .ok l →
    tokenize l.render = .ok [⟨.number l.render, ⟨0, Text.byteCount l.render.toList⟩⟩] ∧
      Literal.ofNumeral l.render.toList = .ok l

/-- A numeral of any length is the number it denotes, or the nearest double, or is refused. -/
theorem literal_exact : n.Exact where
  token := by
    have hrow : Token.IsNumeral (String.ofList n.text).toList := by
      rw [String.toList_ofList]
      exact isNumeral_iff.2 ⟨n, rfl⟩
    exact (Token.stable_number hrow).tokenize
  long_iff := by
    intro k
    simp only [ofNumeral_long, ← Literal.exists_wide_iff]
    grind
  integer_iff := by
    intro k
    simp only [ofNumeral_integer, ← Literal.exists_narrow_iff]
    grind
  double_iff := by
    intro d
    rw [ofNumeral_double]
    constructor
    · rintro ⟨hl, hf, hfin, rfl⟩
      obtain ⟨hsign, hrounds⟩ := n.eq_double_iff.1 rfl
      exact ⟨hl, hf, hsign, hrounds, hfin⟩
    · rintro ⟨hl, hf, hsign, hrounds, hfin⟩
      obtain rfl := n.eq_double_iff.2 ⟨hsign, hrounds⟩
      exact ⟨hl, hf, hfin, rfl⟩
  ok_iff := n.fits_iff
  refused := by
    intro hfits r span rest hrest
    have herror := n.ofNumeral_eq_error fun l hl => hfits (n.fits_iff.1 ⟨l, hl⟩)
    obtain ⟨s, -, hs⟩ := Rule.literal_number hrest
    rw [String.toList_ofList, herror] at hs
    exact ⟨s, hs⟩
  again := by
    intro l hl
    have hnumeric := Literal.numeric_of_ofNumeral hl
    exact ⟨(Token.stable_number (Literal.isNumeral_render hnumeric)).tokenize,
      Literal.ofNumeral_render hnumeric⟩

/-- Zeros in front do not matter, and there is one negative number more than positive ones. -/
example : ["-009223372036854775808L", "9223372036854775808L"].map
      (fun numeral => Literal.ofNumeral numeral.toList) =
    [.ok (.long Int64.minValue), .error .wideInteger] := rfl

end Numeral

end ObjectSpec
