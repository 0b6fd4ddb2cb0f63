import MethodLift.Settings.Error
import MethodLift.Settings.Filter
import MethodLift.Toml.Document
import MethodLift.Workspace.Path

/-!
# Settings

What can be set for a workspace, in a TOML file at its top: which log messages are written and how,
what temporaries are called, and where modules are imported from.  Whatever is not set has a
default.
-/

namespace MethodLift

/-- Which log messages are written, and how. -/
structure LogSettings where
  /-- A level, or the directives of a filter. -/
  level : String
  json : Bool
  /-- Whether anything is written at all. -/
  stderr : Bool
deriving DecidableEq, Repr, Inhabited

/-- How methods are lifted. -/
structure LiftSettings where
  temporaryName : String
  /-- The directories that modules are imported from. -/
  sourceRoots : List String
deriving DecidableEq, Repr, Inhabited

structure Settings where
  logging : LogSettings
  lifting : LiftSettings
deriving DecidableEq, Repr, Inhabited

open Toml (Value)

namespace Settings

/-! ## Defaults -/

/-- The level that is set where none is. -/
def defaultLevel : String := "warn"

/-- The name of temporaries where none is set. -/
def defaultTemporaryName : String := "tmp"

/-- Where modules are imported from if nothing is set. -/
def defaultSourceRoots : List String := ["."]

/-- The settings where nothing is set. -/
def default : Settings :=
  ⟨⟨defaultLevel, false, true⟩, ⟨defaultTemporaryName, defaultSourceRoots⟩⟩

/-! ## Reading values -/

/-- A text. -/
def readString : Value → Except SettingsError String
  | .string text => .ok text
  | other => .error (.invalidType other "a string")

/-- A truth value. -/
def readBool : Value → Except SettingsError Bool
  | .boolean b => .ok b
  | other => .error (.invalidType other "a boolean")

/-- A path. -/
def readPath : Value → Except SettingsError String
  | .string text => .ok text
  | other => .error (.invalidType other "path string")

/-- A list of paths. -/
def readPaths : Value → Except SettingsError (List String)
  | .array elements | .tables elements => elements.mapM readPath
  | other => .error (.invalidType other "a sequence")

/-- The entry that a date counts as where entries are asked for. -/
def dateTimeField : String := "$__toml_private_datetime"

/-- Reads entries one after the other, from a table, or from a list in the order of the known names;
`what` names what should be there. -/
def readEntries {σ : Type} (what : String) (known : List String)
    (set : σ → String × Value → Except SettingsError σ) (start : σ) :
    Value → Except SettingsError σ
  | .table _ entries => entries.foldlM set start
  | .array elements | .tables elements => (known.zip elements).foldlM set start
  | .dateTime => set start (dateTimeField, .string "")
  | other => .error (.invalidType other what)

/-- The entries of the section on log messages. -/
def logFields : List String := ["level", "json", "stderr"]

/-- Takes an entry on log messages. -/
def setLog (s : LogSettings) : String × Value → Except SettingsError LogSettings
  | ("level", v) => do return { s with level := ← readString v }
  | ("json", v) => do return { s with json := ← readBool v }
  | ("stderr", v) => do return { s with stderr := ← readBool v }
  | (name, _) => .error (.unknownField name logFields)

/-- The entries of the section on lifting. -/
def liftFields : List String := ["temp_name", "source_roots"]

/-- Takes an entry on lifting. -/
def setLift (s : LiftSettings) : String × Value → Except SettingsError LiftSettings
  | ("temp_name", v) => do return { s with temporaryName := ← readString v }
  | ("source_roots", v) => do return { s with sourceRoots := ← readPaths v }
  | (name, _) => .error (.unknownField name liftFields)

/-- The sections. -/
def sections : List String := ["logging", "refactor"]

/-- Takes a section. -/
def setSection (s : Settings) : String × Value → Except SettingsError Settings
  | ("logging", v) => do
    let logging ← readEntries "struct LoggingConfig" logFields setLog default.logging v
    return { s with logging }
  | ("refactor", v) => do
    let lifting ← readEntries "struct RefactorConfig" liftFields setLift default.lifting v
    return { s with lifting }
  | (name, _) => .error (.unknownField name sections)

/-! ## Whole settings -/

/-- Puts defaults where a setting is blank. -/
def fillBlanks (s : Settings) : Settings :=
  let name := String.ofList (Text.trim s.lifting.temporaryName.toList)
  { s with lifting := {
    temporaryName := if name.isEmpty then defaultTemporaryName else name
    sourceRoots :=
      if s.lifting.sourceRoots.isEmpty then defaultSourceRoots else s.lifting.sourceRoots } }

/-- Reads settings. -/
def ofText (text : String) : Except SettingsError Settings :=
  match Toml.read? text with
  | none => .error .malformed
  | some entries => do return fillBlanks (← entries.foldlM setSection default)

/-- Whether nothing is set that differs from the defaults.  Other ways to write the path `.` are the
same path. -/
def isDefault (s : Settings) : Bool :=
  s.logging == default.logging && s.lifting.temporaryName == defaultTemporaryName
    && match s.lifting.sourceRoots with
      | [root] => Path.isHere root
      | _ => false

end Settings

namespace LogSettings

/-- The directives of the filter: other names of levels are replaced, and nothing stands for the
default. -/
def directives (s : LogSettings) : String :=
  let level := String.ofList (Text.trim s.level.toList)
  let name := String.ofList (level.toList.map Char.toLower)
  if name == "" then Settings.defaultLevel
  else if name == "warning" then "warn"
  else if name == "none" then "off"
  else if LogFilter.Level.all.any (·.name == name) then name
  else level

/-- The filter; directives that cannot be read leave one for warnings. -/
def filter (s : LogSettings) : LogFilter :=
  (LogFilter.ofText? s.directives).getD LogFilter.warnings

end LogSettings

end MethodLift
