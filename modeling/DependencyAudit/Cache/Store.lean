import DependencyAudit.Cache.Entry
import DependencyAudit.Disk.Basic

/-! Stores of cached reports: in memory, or as a document on disk that several processes share. -/
namespace DependencyAudit

inductive CacheError where
  | unavailable (path reason : String)
  /-- Nothing of the batch was written. -/
  | write (path : String) (count : Nat) (reason : String)
  | read (path reason : String)
deriving DecidableEq

namespace CacheError

/-- The message without the reason. -/
def summary : CacheError → String
  | unavailable path _ => s!"cache file {path} is unavailable"
  | write path count _ => s!"failed to commit {count} cache entries to {path}"
  | read path _ => s!"failed to read cache file {path}"

def reason : CacheError → String
  | unavailable _ reason => reason
  | write _ _ reason => reason
  | read _ reason => reason

def message (e : CacheError) : String := s!"{e.summary}: {e.reason}"

end CacheError

/-- Why a commit that runs in the background gave no result, or its result. -/
inductive CommitFailure where
  | cache (e : CacheError)
  /-- The background task itself broke down. -/
  | task
deriving DecidableEq

/-- A store over states `σ`. `get` gives the entry under a key when it is live, and `fetch` the live
entries among some keys. -/
structure Store (σ : Type) where
  get : Timestamp → String → σ → Except CacheError (Option Entry)
  fetch : Timestamp → List String → σ → Except CacheError Entries
  commit : Timestamp → List (String × Entry) → σ → Except CommitFailure Unit × σ
  clear : σ → Except CacheError Unit × σ

/-- Entries in memory; the state is the entries. -/
def memoryStore (lifetime : Lifetime) : Store Entries where
  get now key es := .ok (es.getLive? lifetime now key)
  fetch now keys es := .ok (es.getMany lifetime now keys)
  commit _ batch es := (.ok (), es.putAll batch)
  clear _ := (.ok (), .empty)

/-- A document on disk. -/
structure FileStore where
  path : String
  lifetime : Lifetime
deriving DecidableEq

namespace FileStore

def route (f : FileStore) : Route := .ofText f.path

def lockRoute (f : FileStore) : Route := f.route.withEnding ".lock"

/-- The new document is written beside the old one and then moved into its place. -/
def draftRoute (f : FileStore) : Route := f.route.withEnding ".tmp"

/-- Makes the directory and the file where they are missing. -/
def openAt (path : String) (ttlHours : Nat) (d : Disk) : Except CacheError FileStore × Disk :=
  match d.makeParent (.ofText path) with
  | (.error fault, d) => (.error (.unavailable path fault.message), d)
  | (.ok (), d) =>
    match d.openFile (.ofText path) with
    | .error fault => (.error (.unavailable path fault.message), d)
    | .ok (d, _) => (.ok ⟨path, .ofHours ttlHours⟩, d)

/-- A missing file has no entries. -/
def entries (f : FileStore) (d : Disk) : Except DiskFault Entries :=
  match d.readText f.route with
  | .ok text => .ok (.ofDocument text)
  | .error .notFound => .ok .empty
  | .error fault => .error fault

/-- Under the lock: reads the document, changes it, and puts it back. -/
def update (f : FileStore) (change : Entries → Entries) (d : Disk) : Except DiskFault Unit × Disk :=
  match d.lock f.lockRoute with
  | (.error fault, d) => (.error fault, d)
  | (.ok (), d) =>
    match f.entries d with
    | .error fault => (.error fault, d)
    | .ok es =>
      match d.writeText f.draftRoute (change es).document with
      | .error fault => (.error fault, d)
      | .ok d =>
        match d.rename f.draftRoute f.route with
        | .error fault => (.error fault, d)
        | .ok d => (.ok (), d)

def fetch (f : FileStore) (now : Timestamp) (keys : List String) (d : Disk) :
    Except CacheError Entries :=
  match f.entries d with
  | .error fault => .error (.read f.path fault.message)
  | .ok es => .ok (es.takeMany f.lifetime now keys)

def get (f : FileStore) (now : Timestamp) (key : String) (d : Disk) :
    Except CacheError (Option Entry) :=
  (f.fetch now [key] d).map (·.get? key)

def lockText (f : FileStore) : String := Route.besideText f.path ".lock"

/-- Why nothing was written. Which lock others hold is said too. -/
def reason (f : FileStore) : DiskFault → String
  | .locked => s!"{DiskFault.locked.message} ({f.lockText})"
  | fault => fault.message

def writeResult (f : FileStore) (count : Nat) :
    Except DiskFault Unit × Disk → Except CacheError Unit × Disk
  | (.error fault, d) => (.error (.write f.path count (f.reason fault)), d)
  | (.ok (), d) => (.ok (), d)

/-- Adds a batch and drops what has expired. -/
def commit (f : FileStore) (now : Timestamp) (batch : List (String × Entry)) (d : Disk) :
    Except CacheError Unit × Disk :=
  if batch.isEmpty then (.ok (), d)
  else f.writeResult batch.length (f.update (fun es => (es.live f.lifetime now).putAll batch) d)

def clear (f : FileStore) (d : Disk) : Except CacheError Unit × Disk :=
  f.writeResult 0 (f.update (fun _ => .empty) d)

end FileStore

def asCommit {σ : Type} : Except CacheError Unit × σ → Except CommitFailure Unit × σ
  | (.error e, s) => (.error (.cache e), s)
  | (.ok (), s) => (.ok (), s)

/-- The state is the disk. -/
def fileStore (f : FileStore) : Store Disk where
  get := f.get
  fetch := f.fetch
  commit now batch d := asCommit (f.commit now batch d)
  clear := f.clear

end DependencyAudit
