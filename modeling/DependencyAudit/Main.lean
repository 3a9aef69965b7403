import DependencyAudit.CommandLine.Program
import Std.Time.DateTime.Timestamp

/-! The command line over the files of the machine. What a command may read is taken up before it
runs, and what it changed is written back. No request is sent: the network is always closed. -/
namespace DependencyAudit.Machine

def now : IO Timestamp := do
  let t ← Std.Time.Timestamp.now
  let nanos := t.toNanosecondsSinceUnixEpoch.val
  let midnight : Timestamp := ⟨⟨1970, 1, 1⟩, 0, (nanos % Timestamp.nanosPerSecond).toNat⟩
  return midnight.plus (nanos / Timestamp.nanosPerSecond)

def path (place : Place) : String := "/" ++ "/".intercalate place

/-- The place that a path names, whatever is there. -/
def place (d : Disk) (r : Route) : Place :=
  r.names.foldl Disk.step (d.start r)

def isDirectory (path : String) : IO Bool := do
  try (← IO.FS.realPath path).isDir catch _ => return false

def node? (path : String) : IO (Option DiskNode) := do
  if ← isDirectory path then return some .directory
  try return some (.file (← IO.FS.readBinFile path)) catch _ => return none

/-- Takes up what stands at a place and on the way to it. -/
def take (d : Disk) (place : Place) : IO Disk := do
  let mut disk := d
  for count in [1:place.length + 1] do
    let here := place.take count
    match ← node? (path here) with
    | some node => disk := disk.put here node
    | none => break
  return disk

def takeAll (d : Disk) (paths : List String) : IO Disk :=
  paths.foldlM (fun d p => take d (place d (.ofText p))) d

def workingDisk : IO Disk := do
  let directory := (Route.ofText (← IO.currentDir).toString).names
  take { Disk.empty with workingDirectory := directory } directory

/-- The files of an audit. -/
def named (arguments : List String) : List String :=
  match Invocation.ofArguments arguments with
  | .command (.audit o) => o.graph :: o.report.toList
  | _ => []

def cacheFiles (directories : Directories) (d : Disk) : List String :=
  match Settings.load directories d with
  | .ok settings => settings.cacheLocation.toList.flatMap fun p => [p, p ++ ".lock"]
  | .error _ => []

def writeNode (place : Place) : DiskNode → IO Unit
  | .directory => IO.FS.createDirAll (path place)
  | .file content => IO.FS.writeBinFile (path place) content

def writeBack (before after : Disk) : IO Unit := do
  let changed := after.nodes.filter fun (place, node) => before.node? place != some node
  for (place, node) in changed.mergeSort fun a b => a.1.length ≤ b.1.length do
    writeNode place node
  for (place, _) in before.nodes do
    if (after.node? place).isNone then IO.FS.removeFile (path place)

def run (arguments : List String) : IO UInt32 := do
  let directories := Directories.ofEnvironment (← IO.getEnv "XDG_CONFIG_HOME")
    (← IO.getEnv "XDG_CACHE_HOME") (← IO.getEnv "HOME")
  let disk ← takeAll (← workingDisk) (directories.settingsFile :: named arguments)
  let disk ← takeAll disk (cacheFiles directories disk)
  let time ← now
  let host : Host Unit := ⟨directories, Remote.unreachable, fun _ => time⟩
  let outcome := host.run arguments disk ()
  writeBack disk outcome.disk
  IO.print outcome.output
  for message in outcome.messages do IO.eprintln message
  return outcome.code.toUInt32

end DependencyAudit.Machine

def main (arguments : List String) : IO UInt32 := DependencyAudit.Machine.run arguments
