import MethodLift.Disk.Host
import MethodLift.Settings.Basic

/-!
# Settings files

Settings stand in a file of a fixed name at the top of a workspace, or in one that is named.
-/

namespace MethodLift

/-- Why a settings file cannot be used. -/
inductive SettingsFileError
  | unreadable (path : String) (error : DiskError)
  | invalid (error : SettingsError)
deriving Inhabited

/-- The messages of an error, each followed by its cause. -/
def SettingsFileError.causes : SettingsFileError → List String
  | unreadable path error =>
    ["failed to read config file " ++ path ++ ": " ++ error.message, error.message]
  | invalid error => ["failed to parse toml config: " ++ error.message]

namespace Settings

variable {m : Type → Type} [Monad m]

/-- The name of the settings file of a workspace. -/
def fileName : String := "hoist.toml"

/-- Reads the settings file at a path. -/
def load (host : Host m) (path : String) : ExceptT SettingsFileError m Settings := do
  match ← host.read path with
  | .error e => throw (.unreadable path e)
  | .ok text =>
    match ofText text with
    | .error e => throw (.invalid e)
    | .ok s => return s

/-- Reads the settings file of a workspace, if there is one. -/
def discover (host : Host m) (root : String) : ExceptT SettingsFileError m Settings := do
  let path := joinPath root fileName
  if ← host.isFile path then load host path else return default

end Settings

end MethodLift
