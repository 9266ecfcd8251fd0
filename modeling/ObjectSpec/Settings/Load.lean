import ObjectSpec.Settings.Basic
import ObjectSpec.Yaml.Document

/-!
# Reading settings

Settings are a mapping with the keys `max_depth` and `aliases`, both optional.
The depth is an unquoted whole number, the aliases a mapping of texts. They come
from a file that is named, or that lies in the working directory, or from
nowhere.
-/

namespace ObjectSpec.Settings

/-! ## From YAML -/

/-- A row of digits to a base, without signs. -/
def readBase (base : Nat) (row : List Char) : Option Nat :=
  if row.isEmpty then none
  else
    row.foldlM (fun n c => (Text.hexValue? c).bind fun d =>
      if d < base then some (base * n + d) else none) 0

/-- A whole number without a sign or with a plus: hexadecimal after `0x`, octal after `0o`, binary
after `0b`, else decimal without a zero in front. -/
def readNatural (text : List Char) : Option Nat :=
  let row := if text.head? = some '+' then text.tail else text
  match row with
  | ['0'] => some 0
  | '0' :: 'x' :: digits => readBase 16 digits
  | '0' :: 'o' :: digits => readBase 8 digits
  | '0' :: 'b' :: digits => readBase 2 digits
  | '0' :: _ => none
  | _ => readBase 10 row

/-- A scalar that may be read as a number: a plain one, or a literal one with the tag of whole
numbers. -/
def mayBeNumber (style : Yaml.Style) (tag : Option (List Char)) : Bool :=
  style == .plain || (style == .literal && tag == some Yaml.integerTag)

/-- A nesting depth: a number of 64 bits. -/
def depth? (root y : Yaml) : Option Nat := do
  match ← root.resolve? y with
  | .scalar style tag text =>
    let n ← readNatural text.toList
    if mayBeNumber style tag && decide (n < UInt64.size) then some n else none
  | _ => none

def text? (root y : Yaml) : Option String := do
  match ← root.resolve? y with
  | .scalar _ _ text => some text
  | _ => none

/-- The entries of a mapping; an absent value has none. -/
def entries? (root y : Yaml) : Option (List (Yaml × Yaml)) := do
  match ← root.resolve? y with
  | .mapping entries => some entries
  | .scalar .plain _ "" => some []
  | _ => none

def aliases? (root y : Yaml) : Option Aliases := do
  let pairs ← (← entries? root y).mapM fun (name, target) => do
    return (← text? root name, ← text? root target)
  return Entries.ofList pairs

/-- The settings of a document. No key may be unknown, and none may come twice. -/
def ofYaml? (root : Yaml) : Option Settings := do
  let fields ← (← entries? root root).mapM fun (name, value) => do return (← text? root name, value)
  let names := fields.map Prod.fst
  if names.eraseDups.length ≠ names.length then none
  else if !names.all (["max_depth", "aliases"].contains ·) then none
  else
    let maxDepth ← match fields.lookup "max_depth" with
      | some value => depth? root value
      | none => some Tree.defaultLimit
    let aliases ← match fields.lookup "aliases" with
      | some value => aliases? root value
      | none => some []
    return { maxDepth, aliases }

/-- Why a text gives no settings. -/
inductive ParseError
  /-- It is no YAML, or not of the form of settings. -/
  | malformed
  | fault (f : SettingsFault)
deriving DecidableEq

/-- The settings that a text holds. -/
def parse (source : String) : Except ParseError Settings :=
  match (Yaml.read? source).bind ofYaml? with
  | none => .error .malformed
  | some s => s.validate.mapError .fault

/-! ## From a file -/

/-- The file that is looked for in the working directory. -/
def defaultFile : String := "spec-repo.yaml"

/-- The environment variable that names another file. -/
def pathVariable : String := "SPEC_REPO_CONFIG"

/-- Where settings come from: the named file, else the file in the working directory if there is
one, else nowhere. -/
def path? (named : Option String) (present : String → Bool) : Option String :=
  named.or (if present defaultFile then some defaultFile else none)

inductive LoadError
  | unreadable (path : String)
  | unusable (path : String) (e : ParseError)
deriving DecidableEq

namespace LoadError

/-- What was being done. -/
def summary : LoadError → String
  | .unreadable path => s!"Failed to read {path}"
  | .unusable path _ => s!"Failed to parse {path}"

/-- What was being done, and the fault of the settings if that is the reason. -/
def message (e : LoadError) : String :=
  match e with
  | .unusable _ (.fault f) => s!"{e.summary}: {f.message}"
  | _ => e.summary

end LoadError

/-- The settings in a file, `contents` giving the text of the files that can be read. -/
def load (contents : String → Option String) (path : Option String) : Except LoadError Settings :=
  match path with
  | none => .ok {}
  | some path =>
    match contents path with
    | none => .error (.unreadable path)
    | some source => (parse source).mapError (.unusable path)

end ObjectSpec.Settings
