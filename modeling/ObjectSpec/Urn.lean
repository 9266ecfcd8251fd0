import ObjectSpec.Text.Blank
import ObjectSpec.Text.Position

/-!
# Identities

An identity is written `urn:namespace:specific`. The letter case of `urn` and of
the namespace does not count; the specific part stays as written and may hold
colons.
-/

namespace ObjectSpec

structure Urn where
  namespaceName : String
  specific : String
deriving DecidableEq

/-- Why a text is no identity. -/
inductive UrnError
  | missingScheme (text : String)
  | invalidNamespace (text namespaceName : String)
  | invalidSpecific (text : String)
deriving DecidableEq

namespace UrnError

def message : UrnError → String
  | .missingScheme text => s!"URN '{text}' must start with 'urn:'"
  | .invalidNamespace text name => s!"URN '{text}' has an invalid namespace '{name}'"
  | .invalidSpecific text => s!"URN '{text}' has an empty or malformed specific part"

end UrnError

namespace Urn

/-- The text up to the first colon, and what follows the colon. -/
def splitColon (text : List Char) : List Char × List Char :=
  (text.takeWhile (· != ':'), (text.dropWhile (· != ':')).drop 1)

/-- Upper case ASCII letters in lower case. -/
def lower (text : List Char) : List Char := text.map Char.toLower

def isNamespaceStart (c : Char) : Bool := c.isLower || c.isDigit

def isNamespaceChar (c : Char) : Bool := isNamespaceStart c || c == '-'

/-- One to 32 lower case letters, digits and hyphens, the first no hyphen. -/
def validNamespace (name : List Char) : Bool :=
  (name.head?.any isNamespaceStart) && decide (name.length ≤ 32) && name.all isNamespaceChar

/-- At least one character, and no blank one. -/
def validSpecific (text : List Char) : Bool := !text.isEmpty && !text.any Text.isBlank

/-- The identity that a text stands for. -/
def parse (text : String) : Except UrnError Urn :=
  let (scheme, rest) := splitColon text.toList
  let (written, specific) := splitColon rest
  let name := lower written
  if lower scheme ≠ ['u', 'r', 'n'] then .error (.missingScheme text)
  else if !validNamespace name then .error (.invalidNamespace text (String.ofList name))
  else if !validSpecific specific then .error (.invalidSpecific text)
  else .ok ⟨String.ofList name, String.ofList specific⟩

/-- The identity with the given parts. -/
def new (namespaceName specific : String) : Except UrnError Urn :=
  parse s!"urn:{namespaceName}:{specific}"

def text (u : Urn) : String := s!"urn:{u.namespaceName}:{u.specific}"

/-- The identity of nobody in particular. -/
def anonymous : Urn := ⟨"anonymous", "0"⟩

def isAnonymous (u : Urn) : Bool := u.namespaceName == "anonymous"

/-- The namespace decides, then the specific part, both by code point. -/
def before (a b : Urn) : Bool :=
  decide (a.namespaceName < b.namespaceName) ||
    (a.namespaceName == b.namespaceName && decide (a.specific < b.specific))

/-- In order, each identity once. -/
def sort (us : List Urn) : List Urn :=
  (us.mergeSort fun a b => !before b a).eraseDups

end Urn

end ObjectSpec
