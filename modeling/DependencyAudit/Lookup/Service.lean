import DependencyAudit.Lookup.Run

/-! A service that collects packages to look up, with its settings and the store that it uses. -/
namespace DependencyAudit

/-- How the last run ended, if there was one. -/
inductive Phase where
  | idle
  | done
  | errored
deriving DecidableEq

def Phase.name : Phase → String
  | .idle => "Idle"
  | .done => "Done"
  | .errored => "Errored"

/-- The store that a service made for itself. -/
inductive Shelf where
  | memory (lifetime : Lifetime) (entries : Entries)
  | file (f : FileStore)
deriving DecidableEq

/-- What lies outside of a service: the disk, and the state of a store that was given to it. -/
structure World (σ : Type) where
  disk : Disk
  outside : σ

structure Service (σ : Type) where
  registrations : List InclusionPath
  /-- The keys of the registrations, the latest first. -/
  registeredKeys : List String
  filter : Filter
  cacheFile : Option String
  ttlHours : Nat
  batchSize : Nat
  credentials : Option Credentials
  /-- A store to use in place of the cache file. -/
  injected : Option (Store σ)
  /-- The store in use since the location and the time to live were last set. -/
  shelf : Option Shelf
  phase : Phase

namespace Service

variable {σ τ : Type}

def defaultBatchSize : Nat := 128

def defaultTtlHours : Nat := 12

def new : Service σ :=
  ⟨[], [], .empty, none, defaultTtlHours, defaultBatchSize, none, none, none, .idle⟩

def withStore (s : Service σ) (store : Store σ) : Service σ := { s with injected := some store }

def isRegistered (s : Service σ) (key : String) : Bool := s.registeredKeys.contains key

/-- Of several paths to one package the first is kept. -/
def register (s : Service σ) (path : InclusionPath) : Service σ :=
  if s.isRegistered path.key then s
  else { s with
    registrations := s.registrations ++ [path]
    registeredKeys := path.key :: s.registeredKeys }

theorem isRegistered_register (s : Service σ) (path : InclusionPath) (key : String) :
    (s.register path).isRegistered key = (key == path.key || s.isRegistered key) := by
  simp only [register]
  split
  · rename_i h
    by_cases hk : key = path.key
    · simp [hk, h]
    · simp [hk]
  · simp only [isRegistered, List.contains_cons]

def registerCoordinate (s : Service σ) (c : Coordinate) : Service σ := s.register (.single c)

def addRule (s : Service σ) (r : Rule) : Service σ := { s with filter := s.filter.add r }

def setTtl (s : Service σ) (hours : Nat) : Service σ := { s with ttlHours := hours, shelf := none }

def setCredentials (s : Service σ) (c : Credentials) : Service σ :=
  { s with credentials := some c }

def setBatchSize (s : Service σ) (size : Nat) : Except AuditError (Service σ) :=
  if size = 0 then .error (.config "maximum batch size must be at least 1")
  else .ok { s with batchSize := size }

/-- What is wrong with a place for the cache, whose directory is made where it is missing. -/
def checkLocation (path : String) (d : Disk) : Except String Unit × Disk :=
  let r := Route.ofText path
  if d.holds r then
    if !d.isFile r then (.error "is not a file", d)
    else if !d.isWritable r then (.error "is not writable", d)
    else (.ok (), d)
  else match r.parent? with
    | none => (.ok (), d)
    | some parent =>
      if d.holds parent && !d.isDirectory parent then
        (.error "has a parent that is not a directory", d)
      else match d.makeDirectories parent with
        | (.error _, d) => (.error "has a parent directory that cannot be created", d)
        | (.ok (), d) =>
          if d.isDirectory parent && d.isWritable parent then (.ok (), d)
          else (.error "has a parent directory that is not writable", d)

/-- Sets the cache file, or none for a cache in memory. -/
def setLocation (s : Service σ) (path : Option String) (d : Disk) :
    Except AuditError (Service σ) × Disk :=
  match path with
  | none => (.ok { s with cacheFile := none, shelf := none }, d)
  | some p =>
    match checkLocation p d with
    | (.error problem, d) => (.error (.config s!"cache location {p} {problem}"), d)
    | (.ok (), d) => (.ok { s with cacheFile := some p, shelf := none }, d)

/-- A new store for the settings: the cache file, or memory where it cannot be opened. -/
def freshShelf (s : Service σ) (d : Disk) : Shelf × Disk :=
  let memory := Shelf.memory (.ofHours s.ttlHours) .empty
  match s.cacheFile with
  | none => (memory, d)
  | some path =>
    match FileStore.openAt path s.ttlHours d with
    | (.ok f, d) => (.file f, d)
    | (.error _, d) => (memory, d)

def resolveShelf (s : Service σ) (d : Disk) : Shelf × Disk :=
  match s.shelf with
  | some shelf => (shelf, d)
  | none => s.freshShelf d

def lookup (s : Service σ) : Lookup := ⟨s.registrations, s.filter, s.batchSize, s.credentials⟩

def phaseAfter {α : Type} (r : RunRecord α) : Phase :=
  match r.result with
  | .ok _ => .done
  | .error _ => .errored

/-- What a run leaves. -/
structure RunResult (σ τ : Type) where
  record : RunRecord (List PackageReport)
  service : Service σ
  world : World σ
  transport : τ

def run (s : Service σ) (transport : Transport τ) (clock : Clock) (w : World σ) (t : τ) :
    RunResult σ τ :=
  match s.injected with
  | some store =>
    let (record, outside, t) := s.lookup.run store transport clock w.outside t
    ⟨record, { s with phase := phaseAfter record }, { w with outside := outside }, t⟩
  | none =>
    match s.resolveShelf w.disk with
    | (.memory lifetime entries, disk) =>
      let (record, entries, t) :=
        s.lookup.run (memoryStore lifetime) transport clock entries t
      ⟨record, { s with shelf := some (.memory lifetime entries), phase := phaseAfter record },
        { w with disk := disk }, t⟩
    | (.file f, disk) =>
      let (record, disk, t) := s.lookup.run (fileStore f) transport clock disk t
      ⟨record, { s with shelf := some (.file f), phase := phaseAfter record },
        { w with disk := disk }, t⟩

end Service
end DependencyAudit
