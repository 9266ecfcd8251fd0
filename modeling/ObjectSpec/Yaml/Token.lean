import ObjectSpec.Yaml.Basic

/-!
# Tokens of a YAML text

What a text consists of once its layout is understood: a block mapping stands
between two tokens, and a key is announced by a token even where the text has
no mark for it.
-/

namespace ObjectSpec.Yaml

inductive Token
  | version (major minor : Nat)
  /-- A handle for tags and what it stands for. -/
  | handle (name lead : List Char)
  | documentStart
  | documentEnd
  | blockStart
  | blockEnd
  | braceOpen
  | braceClose
  | comma
  | key
  | value
  | anchor (name : List Char)
  | reference (name : List Char)
  | tag (handle suffix : List Char)
  | scalar (style : Style) (text : List Char)
deriving DecidableEq

end ObjectSpec.Yaml
