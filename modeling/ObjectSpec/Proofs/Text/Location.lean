import Mathlib.Data.List.Induction
import ObjectSpec.Text.Position

/-!
# Lines and columns

The line and the column of an offset are counted off the text in front of it
(`Location.locate_append`). So an offset behind another one is on a later line, or behind it on
the same line (`Text.lineBehind_append`), and in a text that a 32-bit word can count no line or
column is cut short (`LineRange.between_before`).
-/

namespace ObjectSpec

namespace Text

/-- The line behind a text: one more than its newlines. -/
def lineBehind (front : List Char) : Nat := front.count '\n' + 1

/-- The column behind a text: one more than the characters behind its last newline. -/
def columnBehind (front : List Char) : Nat := (front.reverse.takeWhile (· != '\n')).length + 1

theorem foldl_step (front : List Char) :
    front.foldl Location.step (1, 1) = (lineBehind front, columnBehind front) := by
  induction front using List.reverseRecOn with
  | nil => rfl
  | append_singleton front c ih =>
    rw [List.foldl_append, ih, List.foldl_cons, List.foldl_nil, Location.step]
    split
    · next hc =>
      subst hc
      simp [lineBehind, columnBehind]
    · next hc => simp [lineBehind, columnBehind, hc]

theorem length_le_byteCount (text : List Char) : text.length ≤ byteCount text := by
  induction text with
  | nil => exact Nat.le_refl _
  | cons c cs ih =>
    have hc := c.utf8Size_pos
    rw [List.length_cons, byteCount]
    omega

theorem lineBehind_le (front : List Char) : lineBehind front ≤ byteCount front + 1 :=
  Nat.succ_le_succ (Nat.le_trans List.count_le_length (length_le_byteCount front))

theorem columnBehind_le (front : List Char) : columnBehind front ≤ byteCount front + 1 := by
  have hrow := (List.takeWhile_sublist (· != '\n') (l := front.reverse)).length_le
  rw [List.length_reverse] at hrow
  exact Nat.succ_le_succ (Nat.le_trans hrow (length_le_byteCount front))

/-- Behind more text the line is a later one, or else the column is. -/
theorem lineBehind_append (front : List Char) {inner : List Char} (h : inner ≠ []) :
    lineBehind front < lineBehind (front ++ inner) ∨
      lineBehind front = lineBehind (front ++ inner) ∧
        columnBehind front < columnBehind (front ++ inner) := by
  by_cases hbreak : '\n' ∈ inner
  · have hcount := List.count_pos_iff.2 hbreak
    left
    rw [lineBehind, lineBehind, List.count_append]
    omega
  · have hinner : ∀ c ∈ inner.reverse, (c != '\n') = true := by
      intro c hc
      rw [List.mem_reverse] at hc
      rw [bne_iff_ne]
      rintro rfl
      exact hbreak hc
    have hlength := List.length_pos_iff.2 h
    right
    rw [lineBehind, lineBehind, List.count_append, List.count_eq_zero.2 hbreak, columnBehind,
      columnBehind, List.reverse_append, List.takeWhile_append_of_pos hinner, List.length_append,
      List.length_reverse]
    exact ⟨rfl, by omega⟩

end Text

open Text (byteCount byteCount_append lineBehind columnBehind)

/-- Lines and columns are counted off the text in front of the offset. -/
theorem Location.locate_append {text : String} {front rest : List Char}
    (h : text.toList = front ++ rest) :
    locate text (byteCount front) = ⟨lineBehind front, columnBehind front, byteCount front⟩ := by
  have hle : byteCount front ≤ byteCount (front ++ rest) := by
    rw [byteCount_append]
    exact Nat.le_add_right _ _
  simp only [locate, h, Text.before_append, Text.foldl_step, Nat.min_eq_left hle]

namespace LineRange

/-- The range from behind the text `front` to behind the text `whole`. -/
def between (front whole : List Char) : LineRange :=
  ⟨min (lineBehind front) bound, min (columnBehind front) bound,
    min (lineBehind whole) bound, min (columnBehind whole) bound⟩

theorem ofOffsets_append {text : String} {front inner rest : List Char}
    (h : text.toList = front ++ inner ++ rest) :
    ofOffsets text (byteCount front) (byteCount front + byteCount inner) =
      between front (front ++ inner) := by
  have hfront : text.toList = front ++ (inner ++ rest) := by rw [h, List.append_assoc]
  rw [← byteCount_append, ofOffsets, Location.locate_append hfront, Location.locate_append h]
  rfl

/-- The range starts on an earlier line, or earlier on the same line. -/
def Before (a b : LineRange) : Prop :=
  a.startLine < b.startLine ∨ a.startLine = b.startLine ∧ a.startColumn < b.startColumn

/-- As long as nothing is cut short, what stands behind more text starts later. -/
theorem between_before {front inner : List Char} (h : inner ≠ [])
    (hbound : byteCount (front ++ inner) < bound) (whole more : List Char) :
    (between front whole).Before (between (front ++ inner) more) := by
  have hfront : byteCount front < bound := by
    rw [byteCount_append] at hbound
    omega
  have hline := Text.lineBehind_le front
  have hcolumn := Text.columnBehind_le front
  have hline' := Text.lineBehind_le (front ++ inner)
  have hcolumn' := Text.columnBehind_le (front ++ inner)
  rw [Before, between, between]
  simp only
  rw [Nat.min_eq_left (by omega), Nat.min_eq_left (by omega), Nat.min_eq_left (by omega),
    Nat.min_eq_left (by omega)]
  exact Text.lineBehind_append front h

end LineRange

end ObjectSpec
