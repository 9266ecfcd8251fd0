import ObjectSpec.Text.Digits
import ObjectSpec.Yaml.Spot

/-!
# Plain and quoted scalars

A scalar may go on over several lines. Where it does, the break between two
lines is folded: a newline becomes a space, or nothing if more breaks follow,
which stay; a separator stays in any case. Blanks beside the breaks are dropped.
-/

namespace ObjectSpec.Yaml

/-! ## Gaps -/

/-- Blanks and line breaks between two pieces of a scalar. -/
structure Gap where
  /-- The blanks, if there is no break. -/
  blanks : List Char
  breaks : List Char
deriving DecidableEq

namespace Gap

/-- The gap that a row of blanks and breaks makes. -/
def ofSpacing (spacing : List Char) : Gap :=
  ⟨spacing.takeWhile isInlineBlank, spacing.filter isBreak⟩

/-- What a gap leaves in the scalar. -/
def folded (g : Gap) : List Char :=
  match g.breaks with
  | [] => g.blanks
  | ['\n'] => [' ']
  | '\n' :: further => further
  | breaks => breaks

/-- A tab stands before the column `least` in a line that starts in the spacing. The column is not
known before the first break. -/
def tabIndents (least : Nat) : Option Nat → List Char → Bool
  | _, [] => false
  | column, c :: cs =>
    if isBreak c then tabIndents least (some 0) cs
    else column.any (fun n => c == '\t' && decide (n < least)) ||
      tabIndents least (column.map (· + 1)) cs

end Gap

/-! ## Plain scalars -/

/-- Characters that bound the parts of a mapping in braces. -/
def isFlowIndicator (c : Char) : Bool :=
  c == ',' || c == '[' || c == ']' || c == '\x7b' || c == '\x7d'

/-- Characters that begin something other than a plain scalar. -/
def indicators : List Char :=
  ['-', '?', ':', ',', '[', ']', '\x7b', '\x7d', '#', '&', '*', '!', '|', '>', '\x27', '\x22', '%',
    '@', '\x60']

/-- A plain scalar can start here. -/
def startsPlain (inBraces : Bool) (text : List Char) : Bool :=
  match text with
  | [] => false
  | c :: cs =>
    if isSpacing c then false
    else if c = '-' then !cs.head?.any isInlineBlank
    else if c = '?' ∨ c = ':' then !inBraces && !spacingOrEnd cs
    else !indicators.contains c

/-- A plain text up to the next blank, or up to what ends the scalar. In braces, a colon may not
stand before an indicator. -/
def plainPiece (inBraces : Bool) : List Char → Option (List Char)
  | [] => some []
  | c :: cs =>
    if isSpacing c then some []
    else if inBraces ∧ c = ':' ∧ cs.head?.any (fun d => isFlowIndicator d || d == '?') then none
    else if (c = ':' ∧ spacingOrEnd cs) ∨ (inBraces ∧ isFlowIndicator c) then some []
    else (plainPiece inBraces cs).map (c :: ·)

/-- A plain scalar that has been read. -/
structure Plain where
  text : List Char
  /-- The place after it and the spacing behind it. -/
  after : Spot
  /-- There is a line break in that spacing. -/
  broken : Bool

/-- The rest of a plain scalar, from the end of one of its pieces. Markers, comments and, outside
braces, lines that start before the column `least` do not belong to it. -/
def plainRest (inBraces : Bool) (least : Nat) : Nat → Spot → Option Plain
  | 0, s => some ⟨[], s, false⟩
  | fuel + 1, s =>
    let spacing := s.run isSpacing
    let gap := Gap.ofSpacing spacing
    let t := s.after spacing
    let broken := !gap.breaks.isEmpty
    if spacing.isEmpty then some ⟨[], s, false⟩
    else if Gap.tabIndents least none spacing then none
    else if (!inBraces && decide (t.column < least)) || t.atDocumentMarker || t.holds '#' then
      some ⟨[], t, broken⟩
    else do
      let piece ← plainPiece inBraces t.rest
      if piece.isEmpty then return ⟨[], t, broken⟩
      let more ← plainRest inBraces least fuel (t.after piece)
      return { more with text := gap.folded ++ piece ++ more.text }

/-- The plain scalar that starts here. -/
def plain? (inBraces : Bool) (least : Nat) (s : Spot) : Option Plain := do
  let piece ← plainPiece inBraces s.rest
  let more ← plainRest inBraces least s.rest.length (s.after piece)
  return { more with text := piece ++ more.text }

/-! ## Quoted scalars -/

/-- What a one-letter escape stands for. -/
def shortEscape? (c : Char) : Option Char :=
  [('0', '\x00'), ('a', '\x07'), ('b', '\x08'), ('t', '\t'), ('\t', '\t'), ('n', '\n'),
    ('v', '\x0b'), ('f', '\x0c'), ('r', '\r'), ('e', '\x1b'), (' ', ' '), ('\x22', '\x22'),
    ('/', '/'), ('\\', '\\'), ('N', '\u0085'), ('_', '\u00a0'), ('L', '\u2028'),
    ('P', '\u2029')].lookup c

/-- How many hexadecimal digits follow an escape. -/
def hexLength? (c : Char) : Option Nat :=
  [('x', 2), ('u', 4), ('U', 8)].lookup c

/-- The character of an escape, and how many characters after the backslash it takes. -/
def escape? (text : List Char) : Option (Char × Nat) :=
  match text with
  | [] => none
  | c :: cs =>
    match shortEscape? c with
    | some d => some (d, 1)
    | none => do
      let length ← hexLength? c
      let row := cs.take length
      if row.length < length then none
      else
        let n ← Text.readHex? row
        if (0xD800 ≤ n ∧ n ≤ 0xDFFF) ∨ 0x10FFFF < n then none
        else some (Char.ofNat n, length + 1)

/-- The text up to the closing quote `q`, and the place after it. Only between double quotes there
are escapes; an escaped line break counts for nothing. -/
def quotedRest (q : Char) : Nat → Spot → Option (List Char × Spot)
  | 0, _ => none
  | fuel + 1, s =>
    if s.atDocumentMarker then none
    else
      match s.rest with
      | [] => none
      | c :: cs =>
        if c = q then
          if q = '\x27' ∧ cs.head? = some q then do
            let (more, last) ← quotedRest q fuel (s.skip 2)
            some (q :: more, last)
          else some ([], s.next)
        else if c = '\\' ∧ q = '\x22' then
          if cs.head?.any isBreak then do
            let spacing := s.next.next.run isSpacing
            let (more, last) ← quotedRest q fuel (s.next.next.after spacing)
            some (spacing.filter isBreak ++ more, last)
          else do
            let (d, length) ← escape? cs
            let (more, last) ← quotedRest q fuel (s.skip (length + 1))
            some (d :: more, last)
        else if isSpacing c then do
          let spacing := s.run isSpacing
          let (more, last) ← quotedRest q fuel (s.after spacing)
          some ((Gap.ofSpacing spacing).folded ++ more, last)
        else do
          let (more, last) ← quotedRest q fuel s.next
          some (c :: more, last)

/-- The quoted scalar that starts here with the quote `q`. -/
def quoted? (q : Char) (s : Spot) : Option (List Char × Spot) :=
  quotedRest q (s.rest.length + 1) s.next

end ObjectSpec.Yaml
