import ObjectSpec.Yaml.BlockScalar
import ObjectSpec.Yaml.Scalar
import ObjectSpec.Yaml.Tag

/-!
# Splitting a YAML text into tokens

A block mapping is held together by its column: it opens with a key further
right than the mapping around it, and ends before the first token further left.
Whether a node is a key shows only at the colon behind it. So a place where a
key may start is remembered, and the colon puts the missing tokens there. Such a
key stands on one line, and the colon not more than 1024 bytes behind its start.
-/

namespace ObjectSpec.Yaml

/-- A place where a key may have started. -/
structure PossibleKey where
  /-- How many tokens stand before it. -/
  number : Nat
  start : Spot
  /-- Nothing else than a key may stand there. -/
  required : Bool
deriving DecidableEq

/-- A key that was found: the number of its first token, and whether it opens a block mapping. -/
structure KeyMark where
  number : Nat
  opens : Bool
deriving DecidableEq

structure Lexer where
  spot : Spot
  tokens : Array Token := #[]
  marks : List KeyMark := []
  /-- The columns of the open block mappings, innermost first. -/
  columns : List Nat := []
  /-- Where the innermost mapping may have a key. -/
  key : Option PossibleKey := none
  /-- The same for the mappings around the braces that are open. -/
  outer : List (Option PossibleKey) := []
  /-- A key without a mark may start at the next token. -/
  keyAllowed : Bool := true

namespace Lexer

def inBraces (l : Lexer) : Bool := !l.outer.isEmpty

/-- The least column at which a node inside the innermost block mapping may go on. -/
def least (l : Lexer) : Nat := l.columns.head?.elim 0 (· + 1)

/-- Take a token and go to the place after it. -/
def push (l : Lexer) (token : Token) (after : Spot) : Lexer :=
  { l with tokens := l.tokens.push token, spot := after }

/-! ## Block mappings -/

/-- A key at this column opens a block mapping. -/
def opensBlock (l : Lexer) (column : Nat) : Bool := !l.inBraces && decide (l.least ≤ column)

/-- Open a block mapping here if the column asks for it. -/
def openBlock (l : Lexer) : Lexer :=
  if l.opensBlock l.spot.column then
    { l with tokens := l.tokens.push .blockStart, columns := l.spot.column :: l.columns }
  else l

/-- Close the block mappings whose columns are not kept. Nothing closes inside braces. -/
def closeBlocks (l : Lexer) (kept : Nat → Bool) : Lexer :=
  if l.inBraces then l
  else
    let closed := l.columns.takeWhile (! kept ·)
    { l with
      tokens := l.tokens ++ Array.replicate closed.length .blockEnd
      columns := l.columns.dropWhile (! kept ·) }

/-! ## Keys -/

/-- No key started where one was thought possible. -/
def dropKey (l : Lexer) : Option Lexer :=
  if l.key.any PossibleKey.required then none else some { l with key := none }

/-- Remember that a key may start here. -/
def noteKey (l : Lexer) : Option Lexer :=
  if !l.keyAllowed then some l
  else
    let required := !l.inBraces && l.columns.head? == some l.spot.column
    l.dropKey.map ({ · with key := some ⟨l.tokens.size, l.spot, required⟩ })

/-- The place is too far behind the start of a key for the key to end here. -/
def isStale (here : Spot) (key : PossibleKey) : Bool :=
  decide (key.start.line < here.line) || decide (key.start.offset + 1024 < here.offset)

/-- Forget the keys that can no longer end here. A required one must not be among them. -/
def dropStaleKeys (l : Lexer) : Option Lexer :=
  let stale := fun (key : Option PossibleKey) => key.any (isStale l.spot)
  if (l.key :: l.outer).any fun key => stale key && key.any PossibleKey.required then none
  else
    let keep := fun (key : Option PossibleKey) => key.filter (! isStale l.spot ·)
    some { l with key := keep l.key, outer := l.outer.map keep }

/-! ## Between tokens -/

/-- Skip blanks, comments and line breaks, and a byte order mark at the start of a line. Where a key
may start outside braces, tabs are not skipped. A line break allows keys there. -/
def skipSpacing (inBraces : Bool) : List Char → Spot → Bool → Bool → Spot × Bool
  | [], s, keyAllowed, _ => (s, keyAllowed)
  | c :: cs, s, keyAllowed, inComment =>
    if isBreak c then skipSpacing inBraces cs s.next (keyAllowed || !inBraces) false
    else if inComment || c == ' ' || (c == '\t' && (inBraces || !keyAllowed)) ||
        (isByteOrderMark c && s.column == 0) then
      skipSpacing inBraces cs s.next keyAllowed inComment
    else if c == '#' then skipSpacing inBraces cs s.next keyAllowed true
    else (s, keyAllowed)

/-- At the next token, with the block mappings closed that end before it. -/
def advance (l : Lexer) : Option Lexer := do
  let (spot, keyAllowed) := skipSpacing l.inBraces l.spot.rest l.spot l.keyAllowed false
  let l ← dropStaleKeys { l with spot, keyAllowed }
  return l.closeBlocks fun column => decide (column ≤ spot.column)

/-! ## One token -/

/-- A token at the bounds of a document, before which all is closed. -/
def bound (l : Lexer) (token : Token) (after : Spot) : Option Lexer :=
  (l.closeBlocks fun _ => false).dropKey.map fun l =>
    { l with keyAllowed := false }.push token after

/-- An opening brace, which may start a key. -/
def openBrace (l : Lexer) : Option Lexer :=
  l.noteKey.map fun l =>
    { l with key := none, outer := l.key :: l.outer, keyAllowed := true }.push
      .braceOpen l.spot.next

def closeBrace (l : Lexer) : Option Lexer :=
  l.dropKey.map fun l =>
    { l with key := l.outer.headD none, outer := l.outer.tail, keyAllowed := false }.push
      .braceClose l.spot.next

def comma (l : Lexer) : Option Lexer :=
  l.dropKey.map fun l => { l with keyAllowed := true }.push .comma l.spot.next

/-- A question mark, which announces a key. -/
def markedKey (l : Lexer) : Option Lexer :=
  if !l.inBraces && !l.keyAllowed then none
  else
    l.openBlock.dropKey.map fun l =>
      { l with keyAllowed := !l.inBraces }.push .key l.spot.next

/-- A colon. What stands before it turns out to be a key, or the key was announced. -/
def colon (l : Lexer) : Option Lexer :=
  match l.key with
  | some key =>
    let opens := l.opensBlock key.start.column
    some ({ l with
      marks := ⟨key.number, opens⟩ :: l.marks
      columns := if opens then key.start.column :: l.columns else l.columns
      key := none
      keyAllowed := false }.push .value l.spot.next)
  | none =>
    if !l.inBraces && !l.keyAllowed then none
    else
      let l := l.openBlock
      some ({ l with keyAllowed := !l.inBraces }.push .value l.spot.next)

/-- A token that may start a key and that no key may follow. -/
def opening (l : Lexer) (token : Token) (after : Spot) : Option Lexer :=
  l.noteKey.map fun l => { l with keyAllowed := false }.push token after

def plainScalar (l : Lexer) : Option Lexer := do
  let plain ← plain? l.inBraces l.least l.spot
  let l ← l.opening (.scalar .plain plain.text) plain.after
  return { l with keyAllowed := plain.broken }

def quotedScalar (l : Lexer) (quote : Char) : Option Lexer := do
  let (text, after) ← quoted? quote l.spot
  l.opening (.scalar .quoted text) after

/-- A block scalar, which is no key. -/
def blockScalar (l : Lexer) (style : Style) : Option Lexer := do
  let l ← l.dropKey
  let (text, after) ← blockScalar? (style == .folded) l.least l.spot
  return { l with keyAllowed := true }.push (.scalar style text) after

/-- Take the token that stands here. Brackets and dashes, which make sequences, are refused. -/
def token (l : Lexer) : Option Lexer :=
  let s := l.spot
  let marksNode := l.inBraces || spacingOrEnd (s.rest.drop 1)
  if s.column == 0 && s.holds '%' then (directive? s).bind fun (token, after) => l.bound token after
  else if s.atMarker '-' then l.bound .documentStart (s.skip 3)
  else if s.atMarker '.' then l.bound .documentEnd (s.skip 3)
  else if s.holds '\x7b' then l.openBrace
  else if s.holds '\x7d' then l.closeBrace
  else if s.holds ',' then l.comma
  else if s.holds '-' && spacingOrEnd (s.rest.drop 1) then none
  else if s.holds '?' && marksNode then l.markedKey
  else if s.holds ':' && marksNode then l.colon
  else if s.holds '*' then
    (anchorName? s).bind fun (name, after) => l.opening (.reference name) after
  else if s.holds '&' then (anchorName? s).bind fun (name, after) => l.opening (.anchor name) after
  else if s.holds '!' then (tag? l.inBraces s).bind fun (token, after) => l.opening token after
  else if s.holds '|' && !l.inBraces then l.blockScalar .literal
  else if s.holds '>' && !l.inBraces then l.blockScalar .folded
  else if s.holds '\x27' then l.quotedScalar '\x27'
  else if s.holds '\x22' then l.quotedScalar '\x22'
  else if startsPlain l.inBraces s.rest then l.plainScalar
  else none

/-- All tokens up to the end of the text. -/
def finish : Nat → Lexer → Option Lexer
  | 0, _ => none
  | fuel + 1, l => do
    let l ← l.advance
    if l.spot.rest.isEmpty then (l.closeBlocks fun _ => false).dropKey
    else finish fuel (← l.token)

end Lexer

/-! ## All tokens -/

/-- The tokens from number `number` on, with those that the keys among them add. -/
def withKeys (marks : List KeyMark) : Nat → List Token → List Token
  | _, [] => []
  | number, token :: tokens =>
    let added :=
      match marks.find? (·.number == number) with
      | some mark => if mark.opens then [.blockStart, .key] else [.key]
      | none => []
    added ++ token :: withKeys marks (number + 1) tokens

/-- The tokens of a text. -/
def tokens? (text : List Char) : Option (List Token) := do
  let l ← Lexer.finish (text.length + 1) { spot := ⟨text, 0, 0, 0⟩ }
  return withKeys l.marks 0 l.tokens.toList

end ObjectSpec.Yaml
