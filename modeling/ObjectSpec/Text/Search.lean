/-!
# Searching a text

One text is contained in another if its characters stand there in a row.
-/

namespace ObjectSpec.Text

/-- Whether `part` stands somewhere in a text. -/
def contains (part : List Char) : List Char → Bool
  | [] => part.isEmpty
  | c :: cs => part.isPrefixOf (c :: cs) || contains part cs

theorem contains_iff {part text : List Char} : contains part text = true ↔ part <:+: text := by
  induction text with
  | nil => simp [contains]
  | cons c cs ih => rw [contains, Bool.or_eq_true, List.isPrefixOf_iff_prefix, ih, List.infix_cons_iff]

end ObjectSpec.Text
