/-!
# Positions in a text

An offset counts bytes of the UTF-8 form. Lines and columns count characters
and start at 1; a line ends after its newline. An offset past the end stands
for the end.
-/

namespace ObjectSpec

namespace Text

/-- The number of bytes in the UTF-8 form. -/
def byteCount : List Char → Nat
  | [] => 0
  | c :: cs => c.utf8Size + byteCount cs

/-- The characters that start before `offset`. -/
def before : List Char → Nat → List Char
  | [], _ => []
  | c :: cs, offset => if offset = 0 then [] else c :: before cs (offset - c.utf8Size)

/-- The characters from `offset` on, if it lies between two characters. -/
def dropBytes? : List Char → Nat → Option (List Char)
  | cs, 0 => some cs
  | [], _ + 1 => none
  | c :: cs, n + 1 => if c.utf8Size ≤ n + 1 then dropBytes? cs (n + 1 - c.utf8Size) else none

/-- The characters up to `offset`, if it lies between two characters. -/
def takeBytes? : List Char → Nat → Option (List Char)
  | _, 0 => some []
  | [], _ + 1 => none
  | c :: cs, n + 1 =>
    if c.utf8Size ≤ n + 1 then (takeBytes? cs (n + 1 - c.utf8Size)).map (c :: ·) else none

theorem byteCount_append (a b : List Char) : byteCount (a ++ b) = byteCount a + byteCount b := by
  induction a with
  | nil => simp [byteCount]
  | cons c cs ih => simp [byteCount, ih, Nat.add_assoc]

/-- An offset at a boundary has just the characters in front of it before it. -/
theorem before_append (a b : List Char) : before (a ++ b) (byteCount a) = a := by
  induction a with
  | nil => cases b <;> simp [before, byteCount]
  | cons c cs ih =>
    have := c.utf8Size_pos
    simp [before, byteCount, ih, show ¬ (c.utf8Size = 0 ∧ byteCount cs = 0) by omega]

end Text

/-- A range of bytes, the end not included. -/
structure Span where
  start : Nat := 0
  stop : Nat := 0
deriving DecidableEq, Inhabited

namespace Span

def length (s : Span) : Nat := s.stop - s.start

def isEmpty (s : Span) : Bool := decide (s.stop ≤ s.start)

/-- The covered text, if both ends lie between characters of `text` and are in order. -/
def slice? (s : Span) (text : String) : Option String :=
  if s.start ≤ s.stop then
    ((Text.dropBytes? text.toList s.start).bind (Text.takeBytes? · s.length)).map String.ofList
  else
    none

end Span

/-- A place in a text. -/
structure Location where
  line : Nat
  column : Nat
  offset : Nat
deriving DecidableEq

namespace Location

/-- Line and column after one more character. -/
def step : Nat × Nat → Char → Nat × Nat
  | (line, column), c => if c = '\n' then (line + 1, 1) else (line, column + 1)

/-- The place of an offset. -/
def locate (text : String) (offset : Nat) : Location :=
  let cs := text.toList
  let (line, column) := (Text.before cs offset).foldl step (1, 1)
  ⟨line, column, min offset (Text.byteCount cs)⟩

def text (l : Location) : String := s!"{l.line}:{l.column}"

end Location

/-- A range of places, for messages. Lines and columns stop at the largest 32-bit word. -/
structure LineRange where
  startLine : Nat
  startColumn : Nat
  endLine : Nat
  endColumn : Nat
deriving DecidableEq

namespace LineRange

/-- The largest line or column a range can hold. -/
def bound : Nat := UInt32.size - 1

/-- The range between two byte offsets. -/
def ofOffsets (text : String) (start stop : Nat) : LineRange :=
  let a := Location.locate text start
  let b := Location.locate text stop
  ⟨min a.line bound, min a.column bound, min b.line bound, min b.column bound⟩

/-- The start of the range. -/
def text (r : LineRange) : String := s!"{r.startLine}:{r.startColumn}"

end LineRange

end ObjectSpec
