/-!
# Blank characters

The characters with the Unicode property `White_Space`: they separate tokens,
may not stand in an identity, and are trimmed from names that must not be empty.
-/

namespace ObjectSpec.Text

/-- A character with the property `White_Space`. -/
def isBlank (c : Char) : Bool :=
  let n := c.toNat
  (9 ≤ n && n ≤ 13) || n == 0x20 || n == 0x85 || n == 0xA0 || n == 0x1680 ||
    (0x2000 ≤ n && n ≤ 0x200A) || n == 0x2028 || n == 0x2029 || n == 0x202F ||
    n == 0x205F || n == 0x3000

/-- The text from its first character that is not blank. -/
def skipBlank (text : List Char) : List Char := text.dropWhile isBlank

/-- Nothing but blank characters. -/
def allBlank (text : List Char) : Bool := text.all isBlank

theorem isBlank_of_isWhitespace {c : Char} (h : c.isWhitespace) : isBlank c := by
  simp only [Char.isWhitespace, Bool.or_eq_true, decide_eq_true_eq] at h
  rcases h with ((rfl | rfl) | rfl) | rfl <;> decide

theorem skipBlank_length (text : List Char) : (skipBlank text).length ≤ text.length :=
  (List.dropWhile_sublist _).length_le

end ObjectSpec.Text
