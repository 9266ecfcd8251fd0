import ObjectSpec.Build
import ObjectSpec.Text.Blank

/-!
# Settings

How deep a spec may be nested, and other names for types.
-/

namespace ObjectSpec

structure Settings where
  maxDepth : Nat := Tree.defaultLimit
  aliases : Aliases := []
deriving DecidableEq

/-- Why settings make no sense. -/
inductive SettingsFault
  | noDepth
  | emptyAlias (name target : String)
deriving DecidableEq

namespace SettingsFault

def message : SettingsFault → String
  | .noDepth => "max_depth must be at least 1"
  | .emptyAlias name target => s!"alias '{name}' -> '{target}' has an empty side"

end SettingsFault

namespace Settings

/-- The settings, if they make sense: some depth, and no alias with a blank side. Of several such
aliases the last one is named. -/
def validate (s : Settings) : Except SettingsFault Settings :=
  if s.maxDepth = 0 then .error .noDepth
  else
    let blank := fun (text : String) => Text.allBlank text.toList
    match s.aliases.reverse.find? fun (name, target) => blank name || blank target with
    | some (name, target) => .error (.emptyAlias name target)
    | none => .ok s

end Settings

end ObjectSpec
