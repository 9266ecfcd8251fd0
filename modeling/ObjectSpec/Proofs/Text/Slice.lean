import ObjectSpec.Text.Position

/-!
# Boundaries and slices

An offset is a boundary if it lies between two characters, or at an end of the text.
A span has a slice just if both its ends are boundaries in order, and the slice is what
stands between them (`slice?_eq_some_iff`).
-/

namespace ObjectSpec

namespace Text

/-- The offset lies between two characters of the text or at one of its ends. -/
def IsBoundary (text : List Char) (offset : Nat) : Prop :=
  ∃ front rest, text = front ++ rest ∧ byteCount front = offset

theorem byteCount_pos {text : List Char} (h : text ≠ []) : 0 < byteCount text := by
  cases text with
  | nil => exact absurd rfl h
  | cons c cs => exact Nat.add_pos_left c.utf8Size_pos _

theorem IsBoundary.le {text : List Char} {offset : Nat} (h : IsBoundary text offset) :
    offset ≤ byteCount text := by
  obtain ⟨front, rest, rfl, rfl⟩ := h
  rw [byteCount_append]
  exact Nat.le_add_right _ _

theorem dropBytes?_cons (c : Char) (cs : List Char) (n : Nat) :
    dropBytes? (c :: cs) (c.utf8Size + n) = dropBytes? cs n := by
  have hc := c.utf8Size_pos
  rw [show c.utf8Size + n = (c.utf8Size - 1 + n) + 1 by omega, dropBytes?, if_pos (by omega)]
  congr 1
  omega

theorem takeBytes?_cons (c : Char) (cs : List Char) (n : Nat) :
    takeBytes? (c :: cs) (c.utf8Size + n) = (takeBytes? cs n).map (c :: ·) := by
  have hc := c.utf8Size_pos
  rw [show c.utf8Size + n = (c.utf8Size - 1 + n) + 1 by omega, takeBytes?, if_pos (by omega)]
  congr 2
  omega

theorem dropBytes?_append (front rest : List Char) :
    dropBytes? (front ++ rest) (byteCount front) = some rest := by
  induction front with
  | nil => cases rest <;> rfl
  | cons c cs ih => rw [List.cons_append, byteCount, dropBytes?_cons, ih]

theorem takeBytes?_append (front rest : List Char) :
    takeBytes? (front ++ rest) (byteCount front) = some front := by
  induction front with
  | nil => cases rest <;> rfl
  | cons c cs ih =>
    rw [List.cons_append, byteCount, takeBytes?_cons, ih]
    rfl

theorem dropBytes?_eq_some_iff {text rest : List Char} {n : Nat} :
    dropBytes? text n = some rest ↔ ∃ front, text = front ++ rest ∧ byteCount front = n := by
  constructor
  · intro h
    fun_induction dropBytes? text n with
    | case1 =>
      cases h
      exact ⟨[], rfl, rfl⟩
    | case2 => cases h
    | case3 c cs n hc ih =>
      obtain ⟨front, rfl, hn⟩ := ih h
      exact ⟨c :: front, rfl, by rw [byteCount, hn]; omega⟩
    | case4 => cases h
  · rintro ⟨front, rfl, rfl⟩
    exact dropBytes?_append front rest

theorem takeBytes?_eq_some_iff {text front : List Char} {n : Nat} :
    takeBytes? text n = some front ↔ ∃ rest, text = front ++ rest ∧ byteCount front = n := by
  constructor
  · intro h
    fun_induction takeBytes? text n generalizing front with
    | case1 cs =>
      cases h
      exact ⟨cs, rfl, rfl⟩
    | case2 => cases h
    | case3 c cs n hc ih =>
      obtain ⟨front, hf, rfl⟩ := Option.map_eq_some_iff.1 h
      obtain ⟨rest, rfl, hn⟩ := ih hf
      exact ⟨rest, rfl, by rw [byteCount, hn]; omega⟩
    | case4 => cases h
  · rintro ⟨rest, rfl, rfl⟩
    exact takeBytes?_append front rest

end Text

open Text (byteCount byteCount_append)

/-- The slice of a span is what stands between its ends. -/
theorem Span.slice?_eq_some_iff {s : Span} {text slice : String} :
    s.slice? text = some slice ↔ ∃ front rest, text.toList = front ++ slice.toList ++ rest ∧
      s = ⟨byteCount front, byteCount (front ++ slice.toList)⟩ := by
  rcases s with ⟨start, stop⟩
  constructor
  · intro h
    rw [Span.slice?] at h
    split at h
    · next hle =>
      obtain ⟨cs, hcs, rfl⟩ := Option.map_eq_some_iff.1 h
      obtain ⟨tail, hdrop, htake⟩ := Option.bind_eq_some_iff.1 hcs
      obtain ⟨front, htext, hstart⟩ := Text.dropBytes?_eq_some_iff.1 hdrop
      obtain ⟨rest, rfl, hlength⟩ := Text.takeBytes?_eq_some_iff.1 htake
      refine ⟨front, rest, ?_, ?_⟩
      · rw [htext, String.toList_ofList, List.append_assoc]
      · rw [String.toList_ofList, byteCount_append, hstart, hlength, Span.length]
        simp only at hle ⊢
        congr
        omega
    · cases h
  · rintro ⟨front, rest, htext, hs⟩
    cases hs
    have hlength : Span.length ⟨byteCount front, byteCount (front ++ slice.toList)⟩ =
        byteCount slice.toList := by
      rw [Span.length, byteCount_append, Nat.add_sub_cancel_left]
    rw [Span.slice?, if_pos (by rw [byteCount_append]; exact Nat.le_add_right _ _), htext,
      List.append_assoc, Text.dropBytes?_append, hlength, Option.bind_some,
      Text.takeBytes?_append, Option.map_some, String.ofList_toList]

end ObjectSpec
