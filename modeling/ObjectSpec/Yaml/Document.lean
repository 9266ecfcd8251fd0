import ObjectSpec.Entries
import ObjectSpec.Yaml.Lexer

/-!
# The document of a YAML text

Tokens make nodes, and a text makes at most one document. A key or a value that
is not there is an empty plain scalar, but a value without a key is none.
-/

namespace ObjectSpec.Yaml

/-- The slots of the anchors that have been met. A new anchor takes the slot whose number is the
count of the names before it, also if its name is not new. -/
abbrev Slots := List (String × Nat)

/-- What tags mean: each handle with what it stands for. -/
abbrev Handles := List (List Char × List Char)

/-- A node that has been read, the tokens behind it and the anchors met so far. -/
structure Reading (α : Type) where
  result : α
  tokens : List Token
  slots : Slots

/-! ## Anchors and tags -/

/-- What may stand before a node: an anchor and a tag, in either order. -/
def properties : List Token → Option (List Char) × Option (List Char × List Char) × List Token
  | .anchor name :: .tag handle suffix :: tokens => (some name, some (handle, suffix), tokens)
  | .tag handle suffix :: .anchor name :: tokens => (some name, some (handle, suffix), tokens)
  | .anchor name :: tokens => (some name, none, tokens)
  | .tag handle suffix :: tokens => (none, some (handle, suffix), tokens)
  | tokens => (none, none, tokens)

/-- The tag that a handle and a suffix spell. -/
def resolveTag? (handles : Handles) (handle suffix : List Char) : Option (List Char) :=
  if handle.isEmpty then some suffix else (handles.lookup handle).map (· ++ suffix)

/-- Give an anchor its slot. -/
def register (slots : Slots) (name : List Char) : Slots :=
  Entries.insert (String.ofList name) slots.length slots

/-! ## Mappings -/

/-- A node, or an absent one before a token that ends its place. -/
def nodeOrAbsent (node : List Token → Slots → Option (Reading Yaml)) (ends : Token → Bool)
    (tokens : List Token) (slots : Slots) : Option (Reading Yaml) :=
  if tokens.head?.any ends then some ⟨absent, tokens, slots⟩ else node tokens slots

/-- The value of a key, absent where no colon stands. -/
def valueOrAbsent (node : List Token → Slots → Option (Reading Yaml)) (ends : Token → Bool)
    (tokens : List Token) (slots : Slots) : Option (Reading Yaml) :=
  match tokens with
  | .value :: tokens => nodeOrAbsent node ends tokens slots
  | tokens => some ⟨absent, tokens, slots⟩

/-- The entries of a block mapping. -/
def blockEntries (node : List Token → Slots → Option (Reading Yaml)) :
    Nat → List Token → Slots → Option (Reading (List (Yaml × Yaml)))
  | 0, _, _ => none
  | fuel + 1, tokens, slots =>
    let ends := fun token => token == .key || token == .value || token == .blockEnd
    match tokens with
    | .blockEnd :: tokens => some ⟨[], tokens, slots⟩
    | .key :: tokens => do
      let key ← nodeOrAbsent node ends tokens slots
      let value ← valueOrAbsent node ends key.tokens key.slots
      let more ← blockEntries node fuel value.tokens value.slots
      return { more with result := (key.result, value.result) :: more.result }
    | _ => none

/-- One entry in braces. A key without a mark has no value. -/
def entryInBraces (node : List Token → Slots → Option (Reading Yaml)) (tokens : List Token)
    (slots : Slots) : Option (Reading (Yaml × Yaml)) :=
  let ends := fun token => token == .comma || token == .braceClose
  match tokens with
  | .key :: tokens => do
    let key ← nodeOrAbsent node (fun token => token == .value || ends token) tokens slots
    let value ← valueOrAbsent node ends key.tokens key.slots
    return { value with result := (key.result, value.result) }
  | tokens => do
    let key ← node tokens slots
    return { key with result := (key.result, absent) }

/-- The entries up to the closing brace. A comma may stand before it. -/
def entriesInBraces (node : List Token → Slots → Option (Reading Yaml)) :
    Nat → List Token → Slots → Option (Reading (List (Yaml × Yaml)))
  | 0, _, _ => none
  | fuel + 1, tokens, slots =>
    match tokens with
    | .braceClose :: tokens => some ⟨[], tokens, slots⟩
    | tokens => do
      let entry ← entryInBraces node tokens slots
      match entry.tokens with
      | .braceClose :: tokens => return ⟨[entry.result], tokens, entry.slots⟩
      | .comma :: tokens =>
        let more ← entriesInBraces node fuel tokens entry.slots
        return { more with result := entry.result :: more.result }
      | _ => none

/-! ## Nodes -/

/-- The node that the tokens start with. In braces there are no block mappings. -/
def node (handles : Handles) :
    Nat → (inBraces : Bool) → List Token → Slots → Option (Reading Yaml)
  | 0, _, _, _ => none
  | fuel + 1, inBraces, tokens, slots =>
    match tokens with
    | .reference name :: tokens =>
      (slots.lookup (String.ofList name)).map fun slot => ⟨.reference slot, tokens, slots⟩
    | tokens => do
      let (anchor, written, rest) := properties tokens
      let tag ← match written with
        | some (handle, suffix) => (resolveTag? handles handle suffix).map some
        | none => some none
      let slot := slots.length
      let slots := anchor.elim slots (register slots)
      let content : Reading Yaml ←
        match rest with
        | .scalar style text :: rest => some ⟨.scalar style tag (String.ofList text), rest, slots⟩
        | .braceOpen :: rest => do
          let entries ← entriesInBraces (node handles fuel true) rest.length rest slots
          some ⟨.mapping entries.result, entries.tokens, entries.slots⟩
        | .blockStart :: rest =>
          if inBraces then none
          else do
            let entries ← blockEntries (node handles fuel false) rest.length rest slots
            some ⟨.mapping entries.result, entries.tokens, entries.slots⟩
        | rest =>
          if anchor.isSome ∨ tag.isSome then some ⟨.scalar .plain tag "", rest, slots⟩ else none
      return { content with
        result := if anchor.isSome then .anchored slot content.result else content.result }

/-! ## Documents -/

/-- What the handles mean that need no directive. -/
def usualHandles : Handles := [(['!'], ['!']), (['!', '!'], "tag:yaml.org,2002:".toList)]

/-- The directives in front: one version, 1.1 or 1.2, and each handle once. -/
def directives : (versioned : Bool) → Handles → List Token → Option (Handles × List Token)
  | versioned, handles, .version major minor :: tokens =>
    if versioned ∨ major ≠ 1 ∨ (minor ≠ 1 ∧ minor ≠ 2) then none
    else directives true handles tokens
  | versioned, handles, .handle name lead :: tokens =>
    if (handles.lookup name).isSome then none
    else directives versioned (handles ++ [(name, lead)]) tokens
  | _, handles, tokens => some (handles, tokens)

/-- A token that cannot belong to a document. -/
def Token.endsDocument : Token → Bool
  | .version .. | .handle .. | .documentStart | .documentEnd => true
  | _ => false

/-- The document that the tokens make, absent if there are none. Directives need a marker behind
them. -/
def document? (tokens : List Token) : Option Yaml := do
  let (handles, rest) ← directives false [] tokens
  let handles := handles ++ usualHandles
  let read := node handles (tokens.length + 1) false
  let reading : Reading Yaml ←
    match rest with
    | .documentStart :: rest =>
      if rest.head?.all Token.endsDocument then some ⟨absent, rest, []⟩ else read rest []
    | rest =>
      if tokens.isEmpty then some ⟨absent, [], []⟩
      else if rest.length < tokens.length then none
      else read rest []
  if reading.tokens.all (· == .documentEnd) then return reading.result else none

/-- The document of a text. -/
def read? (source : String) : Option Yaml :=
  let text := source.toList
  if text.all isAllowed then (tokens? (unifyBreaks text)).bind document? else none

end ObjectSpec.Yaml
