/-!
# Rows of digits

Reading and writing rows of decimal and hexadecimal digits, and the texts of
integers. Writing a natural in decimal and reading the row gives the natural
back.
-/

namespace ObjectSpec.Text

def digitValue (c : Char) : Nat := c.toNat - '0'.toNat

/-- The natural that a row of digits stands for. -/
def readDigits (row : List Char) : Nat := row.foldl (fun n c => 10 * n + digitValue c) 0

def writeDigits (n : Nat) : List Char := Nat.toDigits 10 n

/-- An optional minus sign before a row of digits. -/
def readInteger : List Char → Int
  | [] => 0
  | c :: cs => if c = '-' then -(readDigits cs : Int) else readDigits (c :: cs)

def writeInteger (n : Int) : List Char :=
  if n < 0 then '-' :: writeDigits n.natAbs else writeDigits n.natAbs

def integerText (n : Int) : String := String.ofList (writeInteger n)

def naturalText (n : Nat) : String := String.ofList (writeDigits n)

/-- A row with zeros in front, so that it has at least `width` digits. -/
def padZeros (width : Nat) (row : List Char) : List Char :=
  List.replicate (width - row.length) '0' ++ row

/-! ## Hexadecimal -/

/-- The value of a hexadecimal digit of either case. -/
def hexValue? (c : Char) : Option Nat :=
  if c.isDigit then some (digitValue c)
  else if 'a' ≤ c ∧ c ≤ 'f' then some (c.toNat - 'a'.toNat + 10)
  else if 'A' ≤ c ∧ c ≤ 'F' then some (c.toNat - 'A'.toNat + 10)
  else none

/-- The natural that a row stands for, if all of it are digits. -/
def readHex? (row : List Char) : Option Nat :=
  row.foldlM (fun n c => (hexValue? c).map (16 * n + ·)) 0

def writeHex (n : Nat) : List Char := Nat.toDigits 16 n

/-! ## Writing and reading decimals -/

theorem readDigits_append_one (row : List Char) (c : Char) :
    readDigits (row ++ [c]) = 10 * readDigits row + digitValue c := by
  simp [readDigits, List.foldl_append]

theorem digitValue_digitChar {d : Nat} (h : d < 10) : digitValue d.digitChar = d := by
  simp only [digitValue, Nat.toNat_digitChar_of_lt_ten h]
  simp

theorem readDigits_writeDigits (n : Nat) : readDigits (writeDigits n) = n := by
  induction n using Nat.strongRecOn with
  | _ n ih =>
    rw [writeDigits, Nat.toDigits_eq_if (by decide)]
    split
    · next h => simp [readDigits, digitValue_digitChar h]
    · next h =>
      have := ih (n / 10) (by omega)
      rw [writeDigits] at this
      rw [readDigits_append_one, this, digitValue_digitChar (Nat.mod_lt _ (by decide))]
      omega

theorem writeDigits_ne_nil (n : Nat) : writeDigits n ≠ [] := Nat.toDigits_ne_nil

theorem isDigit_of_mem_writeDigits {n : Nat} {c : Char} (h : c ∈ writeDigits n) : c.isDigit :=
  Nat.isDigit_of_mem_toDigits (by decide) (by decide) h

theorem readInteger_writeInteger (n : Int) : readInteger (writeInteger n) = n := by
  by_cases h : n < 0
  · simp only [writeInteger, h, if_true, readInteger, readDigits_writeDigits]
    omega
  · simp only [writeInteger, h, if_false]
    cases hw : writeDigits n.natAbs with
    | nil => exact absurd hw (writeDigits_ne_nil _)
    | cons c cs =>
      have hc : c ≠ '-' := by
        rintro rfl
        have : ('-' : Char).isDigit := isDigit_of_mem_writeDigits (n := n.natAbs) (by simp [hw])
        exact absurd this (by decide)
      rw [readInteger, if_neg hc, ← hw, readDigits_writeDigits]
      omega

end ObjectSpec.Text
