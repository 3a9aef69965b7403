import DependencyAudit.Disk.Basic
import DependencyAudit.Settings.Text

/-! The settings file. -/
namespace DependencyAudit

inductive SettingsError where
  | unreadable (path : String)
  | invalid (path : String)
deriving DecidableEq

def SettingsError.message : SettingsError → String
  | .unreadable path => s!"failed to read {path}"
  | .invalid path => s!"invalid configuration in {path}"

/-- Why settings were not saved. -/
inductive SaveFailure where
  | disk (fault : DiskFault)
  /-- A number is beyond those that a settings file can hold. -/
  | unwritable
deriving DecidableEq

def SaveFailure.message : SaveFailure → String
  | .disk fault => fault.message
  | .unwritable => "the settings cannot be written"

namespace Settings

def loadFrom (dirs : Directories) (path : String) (d : Disk) : Except SettingsError Settings :=
  match d.readText (.ofText path) with
  | .error _ => .error (.unreadable path)
  | .ok text =>
    match (Settings.default dirs).ofText text with
    | none => .error (.invalid path)
    | some s => .ok s

/-- Where there is no file, the defaults hold. -/
def loadOrDefault (dirs : Directories) (path : String) (d : Disk) : Except SettingsError Settings :=
  if d.holds (.ofText path) then loadFrom dirs path d else .ok (Settings.default dirs)

def load (dirs : Directories) (d : Disk) : Except SettingsError Settings :=
  loadOrDefault dirs dirs.settingsFile d

/-- The disk with the directory for the settings file, which is made where nothing is. -/
def makeDirectory (r : Route) (d : Disk) : Except DiskFault Unit × Disk :=
  match r.parent? with
  | some parent => if d.holds parent then (.ok (), d) else d.makeDirectories parent
  | none => (.ok (), d)

/-- Writes the settings file; nothing but directories is left of an attempt that failed. -/
def save (s : Settings) (dirs : Directories) (d : Disk) : Except SaveFailure Unit × Disk :=
  let r := Route.ofText dirs.settingsFile
  match makeDirectory r d with
  | (.error fault, d) => (.error (.disk fault), d)
  | (.ok (), d) =>
    match s.text? with
    | none => (.error .unwritable, d)
    | some text =>
      match d.writeText r text with
      | .error fault => (.error (.disk fault), d)
      | .ok d => (.ok (), d)

end Settings
end DependencyAudit
