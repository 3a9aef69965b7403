import DependencyAudit.Disk.Route

/-! Files and directories as values. An operation gives the disk after it or says why it failed, and
a disk may refuse any operation at any place. -/
namespace DependencyAudit

/-- The names on the way from the root. -/
abbrev Place := List String

local instance (priority := 2000) contentDecidableEq : DecidableEq ByteArray :=
  ByteArray.instDecidableEq

inductive DiskNode where
  | file (content : ByteArray)
  | directory
deriving DecidableEq

inductive DiskOperation where
  | openFile
  | lock
  | read
  | write
  | rename
  | makeDirectory
deriving DecidableEq

inductive DiskFault where
  | notFound
  | notDirectory
  | isDirectory
  | nameTooLong
  | unnameable
  | notText
  | locked
  | refused
deriving DecidableEq

def DiskFault.message : DiskFault → String
  | .notFound => "No such file or directory (os error 2)"
  | .notDirectory => "Not a directory (os error 20)"
  | .isDirectory => "Is a directory (os error 21)"
  | .nameTooLong => "File name too long (os error 36)"
  | .unnameable => "file name contained an unexpected NUL byte"
  | .notText => "stream did not contain valid UTF-8"
  | .locked => "cache is locked by another process"
  | .refused => "Permission denied (os error 13)"

structure Disk where
  nodes : List (Place × DiskNode)
  /-- Where relative paths start. -/
  workingDirectory : Place
  refused : List (DiskOperation × Place)
  /-- Files that others have locked, and for how many more milliseconds. -/
  locks : List (Place × Nat)
deriving DecidableEq

namespace Disk

def empty : Disk := ⟨[], [], [], []⟩

/-- The root is always there. -/
def node? (d : Disk) (place : Place) : Option DiskNode :=
  if place = [] then some .directory
  else (d.nodes.find? (·.1 == place)).map (·.2)

def put (d : Disk) (place : Place) (node : DiskNode) : Disk :=
  { d with nodes := (place, node) :: d.nodes.filter (·.1 != place) }

def remove (d : Disk) (place : Place) : Disk :=
  { d with nodes := d.nodes.filter (·.1 != place) }

theorem node?_put (d : Disk) {place : Place} (node : DiskNode) (h : place ≠ []) :
    (d.put place node).node? place = some node := by
  simp [node?, put, h]

theorem find?_filter_ne {α : Type} (xs : List (Place × α)) {p q : Place} (h : p ≠ q) :
    (xs.filter (·.1 != q)).find? (·.1 == p) = xs.find? (·.1 == p) := by
  induction xs with
  | nil => rfl
  | cons x xs ih =>
    by_cases hx : x.1 = q
    · simp [hx, ih, List.find?_cons]
      split
      · rename_i hb
        simp only [beq_iff_eq] at hb
        exact absurd hb.symm h
      · rfl
    · simp [hx, ih, List.find?_cons]

theorem node?_put_of_ne (d : Disk) {p q : Place} (node : DiskNode) (h : p ≠ q) :
    (d.put q node).node? p = d.node? p := by
  have hb : (q == p) = false := by simpa using fun e => h e.symm
  simp [node?, put, hb, find?_filter_ne _ h]

def allows (d : Disk) (operation : DiskOperation) (place : Place) : Except DiskFault Unit :=
  if (operation, place) ∈ d.refused then .error .refused else .ok ()

/-- The octets that a name may have. -/
def nameLimit : Nat := 255

/-- The octets that a path may have. -/
def pathLimit : Nat := 4095

/-- Whether a path can be looked up at all. -/
def check (r : Route) : Except DiskFault Unit :=
  if !r.isNameable then .error .unnameable
  else if r.byteSize > pathLimit then .error .nameTooLong
  else .ok ()

def isTooLong (name : String) : Bool := name.utf8ByteSize > nameLimit

def step (place : Place) (name : String) : Place :=
  if name = ".." then place.dropLast else place ++ [name]

/-- Goes along names from a place; all that is passed must be a directory. -/
def walk (d : Disk) (place : Place) : List String → Except DiskFault Place
  | [] => .ok place
  | name :: names =>
    match d.node? place with
    | none => .error .notFound
    | some (.file _) => .error .notDirectory
    | some .directory =>
      if isTooLong name then .error .nameTooLong else walk d (step place name) names

def start (d : Disk) (r : Route) : Place := if r.absolute then [] else d.workingDirectory

/-- The place that a path means, whether something is there or not. The empty path means none. -/
def place (d : Disk) (r : Route) : Except DiskFault Place := do
  check r
  if r.names.isEmpty && !r.absolute && !r.slash then throw .notFound
  d.walk (d.start r) r.names

def at? (d : Disk) (r : Route) : Except DiskFault DiskNode := do
  match d.node? (← d.place r) with
  | none => throw .notFound
  | some (.file content) => if r.slash then throw .notDirectory else return .file content
  | some .directory => return .directory

def holds (d : Disk) (r : Route) : Bool := (d.at? r).isOk

def isFile (d : Disk) (r : Route) : Bool :=
  match d.at? r with
  | .ok (.file _) => true
  | _ => false

def isDirectory (d : Disk) (r : Route) : Bool :=
  match d.at? r with
  | .ok .directory => true
  | _ => false

/-- Makes the missing directories along names from a place; those made before a fault stay. -/
def makeAlong (d : Disk) (place : Place) : List String → Except DiskFault Unit × Disk
  | [] => (.ok (), d)
  | name :: names =>
    if isTooLong name then (.error .nameTooLong, d)
    else match d.node? (step place name) with
      | some .directory => makeAlong d (step place name) names
      | some (.file _) => (.error .notDirectory, d)
      | none =>
        match d.allows .makeDirectory (step place name) with
        | .error fault => (.error fault, d)
        | .ok () => makeAlong (d.put (step place name) .directory) (step place name) names

def makeDirectories (d : Disk) (r : Route) : Except DiskFault Unit × Disk :=
  match check r with
  | .error fault => (.error fault, d)
  | .ok () => d.makeAlong (d.start r) r.names

/-- The directory of a path, where it has one, is made. -/
def makeParent (d : Disk) (r : Route) : Except DiskFault Unit × Disk :=
  match r.parent? with
  | some parent => d.makeDirectories parent
  | none => (.ok (), d)

/-- The place of a file that is opened, made empty where nothing is. -/
def openFile (d : Disk) (r : Route) : Except DiskFault (Disk × Place) := do
  let place ← d.place r
  d.allows .openFile place
  match d.node? place with
  | some (.file _) => if r.slash then throw .notDirectory else return (d, place)
  | some .directory => throw .isDirectory
  | none => if r.slash then throw .isDirectory else return (d.put place (.file .empty), place)

/-- Whether an existing file can be opened for writing. -/
def isWritable (d : Disk) (r : Route) : Bool :=
  match d.place r with
  | .error _ => false
  | .ok place => (d.allows .write place).isOk

def read (d : Disk) (r : Route) : Except DiskFault ByteArray := do
  let node ← d.at? r
  d.allows .read (← d.place r)
  match node with
  | .file content => return content
  | .directory => throw .isDirectory

def readText (d : Disk) (r : Route) : Except DiskFault String := do
  match String.fromUTF8? (← d.read r) with
  | some text => return text
  | none => throw .notText

/-- Replaces the content of a file, which is made where nothing is. -/
def write (d : Disk) (r : Route) (content : ByteArray) : Except DiskFault Disk := do
  let place ← d.place r
  d.allows .write place
  match d.node? place with
  | some .directory => throw .isDirectory
  | _ => if r.slash then throw .isDirectory else return d.put place (.file content)

def writeText (d : Disk) (r : Route) (text : String) : Except DiskFault Disk :=
  d.write r text.toUTF8

/-- Moves a file, in place of any file that is there. -/
def rename (d : Disk) (source target : Route) : Except DiskFault Disk := do
  let origin ← d.place source
  let place ← d.place target
  d.allows .rename place
  match d.node? origin, d.node? place with
  | none, _ => throw .notFound
  | some .directory, _ => throw .isDirectory
  | _, some .directory => throw .isDirectory
  | some (.file content), _ => return (d.remove origin).put place (.file content)

def delete (d : Disk) (r : Route) : Except DiskFault Disk := do
  match ← d.at? r with
  | .directory => throw .isDirectory
  | .file _ => return d.remove (← d.place r)

/-- How long one waits for a lock, in milliseconds. -/
def lockWait : Nat := 1000

/-- Takes the lock on a file that is made where nothing is; others must let it go in time. -/
def lock (d : Disk) (r : Route) : Except DiskFault Unit × Disk :=
  match d.openFile r with
  | .error f => (.error f, d)
  | .ok (d, place) =>
    match d.allows .lock place with
    | .error f => (.error f, d)
    | .ok () =>
      match d.locks.find? (·.1 == place) with
      | some (_, remaining) => (if remaining < lockWait then .ok () else .error .locked, d)
      | none => (.ok (), d)

/-- The places of all files. -/
def files (d : Disk) : List Place :=
  d.nodes.filterMap fun (place, node) =>
    match node with
    | .file _ => some place
    | .directory => none

end Disk
end DependencyAudit
