/-!
# Places in a YAML text

The characters that a YAML text may hold and the classes that its grammar
needs, and places in a text with their line, column and offset. A line ends with
a newline or with one of the two separators; every other break counts as a
newline.
-/

namespace ObjectSpec.Yaml

/-! ## Characters -/

/-- A character that may stand in a text. -/
def isAllowed (c : Char) : Bool :=
  let n := c.toNat
  n == 9 || n == 10 || n == 13 || (0x20 ≤ n && n ≤ 0x7E) || n == 0x85 ||
    (0xA0 ≤ n && n ≤ 0xFFFD) || 0x10000 ≤ n

/-- A carriage return, alone or before a newline, and a next-line character become a newline. -/
def unifyBreaks : List Char → List Char
  | [] => []
  | c :: cs =>
    if c = '\r' then
      match cs with
      | '\n' :: _ => unifyBreaks cs
      | _ => '\n' :: unifyBreaks cs
    else if c = '\u0085' then '\n' :: unifyBreaks cs
    else c :: unifyBreaks cs

/-- A newline, a line separator or a paragraph separator. -/
def isBreak (c : Char) : Bool := c == '\n' || c == '\u2028' || c == '\u2029'

/-- A space or a tab. -/
def isInlineBlank (c : Char) : Bool := c == ' ' || c == '\t'

def isSpacing (c : Char) : Bool := isInlineBlank c || isBreak c

/-- The mark that may stand at the start of a line. It means nothing there, but takes a column. -/
def isByteOrderMark (c : Char) : Bool := c == '\uFEFF'

/-- The characters of which names of anchors, tags and directives are made. -/
def isWordChar (c : Char) : Bool := c.isAlphanum || c == '_' || c == '-'

/-- A blank, a line break, or the end of the text. -/
def spacingOrEnd (text : List Char) : Bool := text.head?.all isSpacing

/-- A line break or the end of the text. -/
def lineEnds (text : List Char) : Bool := text.head?.all isBreak

/-! ## Places -/

/-- A place in a text: what follows, and where that is. The offset counts bytes. -/
structure Spot where
  rest : List Char
  line : Nat := 0
  column : Nat := 0
  offset : Nat := 0
deriving DecidableEq

namespace Spot

/-- The place after the next character. -/
def next (s : Spot) : Spot :=
  match s.rest with
  | [] => s
  | c :: cs =>
    let offset := s.offset + c.utf8Size
    if isBreak c then ⟨cs, s.line + 1, 0, offset⟩ else ⟨cs, s.line, s.column + 1, offset⟩

/-- The place so many characters further. -/
def skip : Nat → Spot → Spot
  | 0, s => s
  | n + 1, s => s.next.skip n

/-- The place after the piece of text that stands here. -/
def after (s : Spot) (piece : List Char) : Spot := s.skip piece.length

/-- The longest piece that stands here and holds only such characters. -/
def run (s : Spot) (p : Char → Bool) : List Char := s.rest.takeWhile p

def afterRun (s : Spot) (p : Char → Bool) : Spot := s.after (s.run p)

/-- The character that stands here. -/
def holds (s : Spot) (c : Char) : Bool := s.rest.head? == some c

/-- Three equal characters at the start of a line, which mark the bounds of a document. -/
def atMarker (s : Spot) (c : Char) : Bool :=
  s.column == 0 && s.rest.take 3 == [c, c, c] && spacingOrEnd (s.rest.drop 3)

def atDocumentMarker (s : Spot) : Bool := s.atMarker '-' || s.atMarker '.'

/-- The place at the end of the line, if nothing but blanks and a comment stand before it. -/
def lineEnd? (s : Spot) : Option Spot :=
  let t := s.afterRun isInlineBlank
  let u := if t.holds '#' then t.afterRun (! isBreak ·) else t
  if lineEnds u.rest then some u else none

end Spot

end ObjectSpec.Yaml
