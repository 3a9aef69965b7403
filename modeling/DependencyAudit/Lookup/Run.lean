import DependencyAudit.Cache.Store
import DependencyAudit.Lookup.Batch
import DependencyAudit.Lookup.Transport
import DependencyAudit.Suppression.Rule

/-! One run of a lookup: cached reports first, the rest in batches from the service. Each batch is
committed to the store before the next is asked for, so that a failure leaves the earlier ones. -/
namespace DependencyAudit

inductive AuditError where
  | config (problem : String)
  | coordinate (e : CoordinateError)
  | cache (e : CacheError)
  | transport (e : TransportError)
  | rateLimitedWithoutCredentials
  | task
deriving DecidableEq

namespace AuditError

def message : AuditError → String
  | config problem => s!"configuration error: {problem}"
  | coordinate e => e.message
  | cache e => e.message
  | transport e => e.message
  | rateLimitedWithoutCredentials =>
    "too many requests (429): configure OSS Index credentials for an increased rate limit"
  | task => "background cache task failed"

def isRateLimited : AuditError → Bool
  | transport .rateLimited => true
  | rateLimitedWithoutCredentials => true
  | _ => false

def ofCommit : CommitFailure → AuditError
  | .cache e => cache e
  | .task => task

end AuditError

/-- What is looked up, and how. -/
structure Lookup where
  registrations : List InclusionPath
  filter : Filter
  batchSize : Nat
  credentials : Option Credentials
deriving DecidableEq

/-- The time of the first access to the store, and that of the commit of each batch. -/
abbrev Clock := Nat → Timestamp

/-- The requests of a run in order, and its result. -/
structure RunRecord (α : Type) where
  requests : List Request
  result : Except AuditError α

namespace Lookup

def keys (l : Lookup) : List String := l.registrations.map (·.key)

/-- The reports that are cached and can be read; a store that cannot be read has none. -/
def cached {σ : Type} (l : Lookup) (store : Store σ) (now : Timestamp) (s : σ) : Assignment :=
  match store.fetch now l.keys s with
  | .error _ => []
  | .ok found => l.keys.filterMap fun key => do
    let e ← found.get? key
    let p ← e.report.toOption
    return (key, p)

def report? (found : Assignment) (key : String) : Option PackageReport :=
  (found.find? (·.1 == key)).map (·.2)

def misses (l : Lookup) (found : Assignment) : List InclusionPath :=
  l.registrations.filter fun r => (report? found r.key).isNone

def request (l : Lookup) (b : Batch) : Request := ⟨b.map (·.target.purl), l.credentials⟩

def entries (now : Timestamp) (found : Assignment) : List (String × Entry) :=
  found.map fun (key, p) => (key, .ofReport p now)

/-- Asks for the batches in order and commits the reports of each; `index` counts the batches
before. -/
def fetchAll {σ τ : Type} (l : Lookup) (store : Store σ) (transport : Transport τ) (clock : Clock)
    (index : Nat) : List Batch → σ → τ → RunRecord Assignment × σ × τ
  | [], s, t => (⟨[], .ok []⟩, s, t)
  | b :: rest, s, t =>
    let request := l.request b
    match transport.send request t with
    | (.error e, t) => (⟨[request], .error (.transport e)⟩, s, t)
    | (.ok reports, t) =>
      let found := b.assign reports
      match store.commit (clock (index + 1)) (entries (clock (index + 1)) found) s with
      | (.error e, s) => (⟨[request], .error (.ofCommit e)⟩, s, t)
      | (.ok (), s) =>
        let (later, s, t) := fetchAll l store transport clock (index + 1) rest s t
        (⟨request :: later.requests, later.result.map (found ++ ·)⟩, s, t)

/-- The filtered report of a registration, or a placeholder. -/
def answer (l : Lookup) (found : Assignment) (r : InclusionPath) : PackageReport :=
  match report? found r.key with
  | some p => l.filter.apply p r
  | none => .pending r.target

/-- The reports of the registrations that have one, the cached ones first. -/
def gather {σ τ : Type} (l : Lookup) (store : Store σ) (transport : Transport τ) (clock : Clock)
    (s : σ) (t : τ) : RunRecord Assignment × σ × τ :=
  let cached := l.cached store (clock 0) s
  let batches := Batch.chunks l.batchSize (l.misses cached)
  let (fetched, s, t) := l.fetchAll store transport clock 0 batches s t
  (⟨fetched.requests, fetched.result.map (cached ++ ·)⟩, s, t)

def run {σ τ : Type} (l : Lookup) (store : Store σ) (transport : Transport τ) (clock : Clock)
    (s : σ) (t : τ) : RunRecord (List PackageReport) × σ × τ :=
  let (gathered, s, t) := l.gather store transport clock s t
  (⟨gathered.requests, gathered.result.map fun found => l.registrations.map (l.answer found)⟩, s, t)

end Lookup
end DependencyAudit
