import MethodLift.Decimal.Shortest
import MethodLift.Text.Quoted
import MethodLift.Toml.Value

/-!
# What can be wrong with settings

Settings are read from a TOML table.  A text that is no TOML is refused as a whole; else the first
entry that is unknown, or has a value of the wrong kind, is reported.
-/

namespace MethodLift

/-- Why settings cannot be read. -/
inductive SettingsError
  /-- The text is not TOML. -/
  | malformed
  | unknownField (name : String) (known : List String)
  | invalidType (found : Toml.Value) (expected : String)
deriving Inhabited

namespace SettingsError

/-- A value as messages show it. -/
def describe : Toml.Value → String
  | .string text => "string " ++ Text.quoteText text
  | .integer n => "integer `" ++ toString n ++ "`"
  | .float x => "floating point `" ++ x.textWithPoint ++ "`"
  | .boolean b => "boolean `" ++ (if b then "true" else "false") ++ "`"
  | .array _ | .tables _ => "sequence"
  | .table .. | .dateTime => "map"

/-- Names that could stand somewhere: one, one or the other, or one of several. -/
def alternatives : List String → String
  | [] => "nothing"
  | [a] => "`" ++ a ++ "`"
  | [a, b] => "`" ++ a ++ "` or `" ++ b ++ "`"
  | names => "one of " ++ ", ".intercalate (names.map fun name => "`" ++ name ++ "`")

/-- The wording of an error. -/
def message : SettingsError → String
  | malformed => "invalid TOML"
  | unknownField name known => "unknown field `" ++ name ++ "`, expected " ++ alternatives known
  | invalidType found expected => "invalid type: " ++ describe found ++ ", expected " ++ expected

end SettingsError

end MethodLift
