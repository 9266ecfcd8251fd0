import ObjectSpec.Text.Digits
import ObjectSpec.Yaml.Spot

/-!
# Block scalars

A scalar whose lines stand below a header, all at one column. A literal one
keeps its line breaks; a folded one joins lines that start with no blank. The
header may give the column, and says what becomes of the breaks at the end.
-/

namespace ObjectSpec.Yaml

/-- What becomes of the line breaks at the end of a block scalar. -/
inductive Chomping
  /-- None stays. -/
  | strip
  /-- The break of the last line stays. -/
  | clip
  | keep
deriving DecidableEq

namespace Chomping

def ofChar? (c : Char) : Option Chomping :=
  if c = '-' then some .strip else if c = '+' then some .keep else none

end Chomping

/-- How far the lines of a block scalar are indented, if the digit says so. Zero is refused. -/
def indentation? (text : List Char) : Option (Option Nat) :=
  match text with
  | c :: _ =>
    if !c.isDigit then some none
    else if c = '0' then none
    else some (some (Text.digitValue c))
  | [] => some none

/-- The header of a block scalar behind its first character: chomping, indentation, and the place
where its line ends. -/
def blockHeader? (s : Spot) : Option (Chomping × Option Nat × Spot) := do
  match s.rest.head?.bind Chomping.ofChar? with
  | some chomping =>
    let indentation ← indentation? s.next.rest
    let t := if indentation.isSome then s.next.next else s.next
    return (chomping, indentation, ← t.lineEnd?)
  | none =>
    let indentation ← indentation? s.rest
    if indentation.isNone then return (.clip, none, ← s.lineEnd?)
    match s.next.rest.head?.bind Chomping.ofChar? with
    | some chomping => return (chomping, indentation, ← s.next.next.lineEnd?)
    | none => return (.clip, indentation, ← s.next.lineEnd?)

/-- The empty lines from here on. -/
structure EmptyLines where
  breaks : List Char
  /-- The place behind them and behind the indentation of the next line. -/
  after : Spot
  /-- The greatest column that spaces lead to. -/
  widest : Nat

/-- Skip empty lines and the indentation of the next one, up to the column `indent` if that is
known. No tab may stand before it. -/
def emptyLines (indent : Option Nat) : Nat → Spot → Option EmptyLines
  | 0, s => some ⟨[], s, s.column⟩
  | fuel + 1, s =>
    let spaces := s.run (· == ' ')
    let t := s.after (indent.elim spaces fun n => spaces.take (n - s.column))
    if t.holds '\t' && indent.all (fun n => decide (t.column < n)) then none
    else
      match t.rest with
      | c :: _ =>
        if isBreak c then do
          let more ← emptyLines indent fuel t.next
          return ⟨c :: more.breaks, more.after, max t.column more.widest⟩
        else some ⟨[], t, t.column⟩
      | [] => some ⟨[], t, t.column⟩

/-- What a folded scalar leaves of the breaks between two lines, a literal one leaving all. -/
def joinLines (isFolded afterBlank beforeBlank : Bool) (first further : List Char) : List Char :=
  if isFolded && first == ['\n'] && !afterBlank && !beforeBlank then
    if further.isEmpty then [' '] else further
  else first ++ further

/-- The lines at the column `indent` from the start of one of them, after the breaks `first` and
`further` and a line that did or did not start with a blank. -/
def blockLines (isFolded : Bool) (chomping : Chomping) (indent : Nat) :
    Nat → Bool → List Char → List Char → Spot → Option (List Char × Spot)
  | 0, _, _, _, _ => none
  | fuel + 1, afterBlank, first, further, s =>
    if s.column ≠ indent ∨ s.rest.isEmpty then
      match chomping with
      | .strip => some ([], s)
      | .clip => some (first, s)
      | .keep => some (first ++ further, s)
    else do
      let startsBlank := s.rest.head?.any isInlineBlank
      let line := s.run (! isBreak ·)
      let t := s.after line
      let lines ← emptyLines (some indent) (s.rest.length + 1) t.next
      let (more, last) ←
        blockLines isFolded chomping indent fuel startsBlank (t.rest.take 1) lines.breaks
          lines.after
      return (joinLines isFolded afterBlank startsBlank first further ++ line ++ more, last)

/-- The block scalar whose first character stands here. Without an indentation in the header, its
column is the greatest that spaces lead to above its first line, but at least `least` and one. -/
def blockScalar? (isFolded : Bool) (least : Nat) (s : Spot) : Option (List Char × Spot) := do
  let (chomping, indentation, t) ← blockHeader? s.next
  let given := indentation.map (least - 1 + ·)
  let fuel := s.rest.length + 1
  let lines ← emptyLines given fuel t.next
  let indent := given.getD (max lines.widest (max least 1))
  blockLines isFolded chomping indent fuel false [] lines.breaks lines.after

end ObjectSpec.Yaml
