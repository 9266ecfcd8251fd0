import ObjectSpec.Text.Digits
import ObjectSpec.Text.Printable

/-!
# Texts in a dump

How a text is shown inside the dump of a record: between double quotes, with
escapes for quotes, backslashes and everything that is not printable.
-/

namespace ObjectSpec.Text

def showChar (c : Char) : List Char :=
  match c with
  | '\x22' => ['\\', '\x22']
  | '\\' => ['\\', '\\']
  | '\n' => ['\\', 'n']
  | '\r' => ['\\', 'r']
  | '\t' => ['\\', 't']
  | '\x00' => ['\\', '0']
  | c => if isPrintable c then [c] else ['\\', 'u', '\x7b'] ++ writeHex c.toNat ++ ['\x7d']

/-- The text as a dump shows it. -/
def shown (text : String) : String :=
  String.ofList ('\x22' :: text.toList.flatMap showChar ++ ['\x22'])

/-- A record in a dump: its name, and each field with its value. -/
def shownRecord (name : String) (fields : List (String × String)) : String :=
  let parts := fields.map fun (field, value) => field ++ ": " ++ value
  name ++ " \x7b " ++ ", ".intercalate parts ++ " \x7d"

def shownBool (b : Bool) : String := if b then "true" else "false"

end ObjectSpec.Text
