import DependencyAudit.Forest
import DependencyAudit.Lookup.Service
import DependencyAudit.Settings.Ignored

/-! Auditing a forest of dependencies: each artifact is registered with the chain from its root, and
the report lists the packages that had findings. -/
namespace DependencyAudit

/-- A package with findings; `parent` is the root through which it was pulled in, unless it is a root
itself. -/
structure ReportedPackage where
  package : PackageReport
  status : AuditStatus
  parent : Option String
deriving DecidableEq

structure AuditReport where
  packages : List ReportedPackage
  /-- The number of findings before filtering. -/
  total : Nat
  /-- The number of findings that are left. -/
  surviving : Nat
deriving DecidableEq

namespace ReportedPackage

def of (p : PackageReport) (path : InclusionPath) : ReportedPackage :=
  ⟨p, p.status, if path.ancestors.isEmpty then none else some path.root.text⟩

def toJson (r : ReportedPackage) : Json :=
  .record <|
    r.package.members ++ [("status", .ofString r.status.name)] ++
    Json.optional "parent" (r.parent.map .ofString)

end ReportedPackage

namespace AuditReport

def empty : AuditReport := ⟨[], 0, 0⟩

def hasVulnerabilities (r : AuditReport) : Bool := r.surviving > 0

/-- Packages without any finding are left out. -/
def of (answers : List (PackageReport × InclusionPath)) : AuditReport :=
  let found := answers.filter fun (p, _) => p.unfilteredCount != 0
  ⟨found.map fun (p, path) => .of p path,
    (found.map (·.1.unfilteredCount)).foldr (· + ·) 0,
    (found.map (·.1.vulnerabilities.length)).foldr (· + ·) 0⟩

def toJson (r : AuditReport) : Json :=
  .record [("packages", .ofList (r.packages.map (·.toJson))),
    ("totalVulnerabilities", .ofNat r.total),
    ("survivingVulnerabilities", .ofNat r.surviving)]

def text (r : AuditReport) : String := r.toJson.pretty

end AuditReport

structure Auditor (σ : Type) where
  service : Service σ
  settings : Settings

namespace Auditor

variable {σ τ : Type}

/-- An auditor with the settings in force, unless the cache location or the batch size is at fault. -/
def new (settings : Settings) (d : Disk) : Except AuditError (Auditor σ) × Disk :=
  match (Service.new : Service σ).setLocation settings.cacheLocation d with
  | (.error e, d) => (.error e, d)
  | (.ok service, d) =>
    match (service.setTtl settings.cacheTtlHours).setBatchSize settings.batchSize with
    | .error e => (.error e, d)
    | .ok service =>
      let service := match settings.usableCredentials with
        | some c => service.setCredentials c
        | none => service
      (.ok ⟨(settings.exclusions.filterMap (·.rule?)).foldl Service.addRule service, settings⟩, d)

def withStore (a : Auditor σ) (store : Store σ) : Auditor σ :=
  { a with service := a.service.withStore store }

def pathUnder (parent : Option InclusionPath) (c : Coordinate) : InclusionPath :=
  match parent with
  | some p => p.child c
  | none => .single c

mutual

/-- Registers an artifact, unless it is ignored, and then those that it depends on. An artifact
without a name stops the registration; what was registered before stays. -/
def addTree (settings : Settings) (parent : Option InclusionPath) :
    Dependency → Service σ → Except CoordinateError Unit × Service σ
  | .node group name version children, s =>
    match (Dependency.node group name version []).coordinate with
    | .error e => (.error e, s)
    | .ok c =>
      let path := pathUnder parent c
      addTrees settings (some path) children
        (if settings.isIgnored group name version then s else s.register path)

def addTrees (settings : Settings) (parent : Option InclusionPath) :
    List Dependency → Service σ → Except CoordinateError Unit × Service σ
  | [], s => (.ok (), s)
  | d :: ds, s =>
    match addTree settings parent d s with
    | (.error e, s) => (.error e, s)
    | (.ok (), s) => addTrees settings parent ds s

end

def addForest (a : Auditor σ) (f : Forest) : Except CoordinateError Unit × Auditor σ :=
  let (result, service) := addTrees a.settings none f a.service
  (result, { a with service := service })

/-- A rate limit is no failure when the settings say so and credentials are there; then what was
fetched has been cached, and the report is empty. -/
def onFailure (settings : Settings) (e : AuditError) : Except AuditError AuditReport :=
  if !e.isRateLimited then .error e
  else if settings.usableCredentials.isNone then .error .rateLimitedWithoutCredentials
  else if settings.rateLimitAsError then .error e
  else .ok .empty

/-- What an audit leaves. -/
structure AuditResult (σ τ : Type) where
  record : RunRecord AuditReport
  auditor : Auditor σ
  world : World σ
  transport : τ

def run (a : Auditor σ) (transport : Transport τ) (clock : Clock) (w : World σ) (t : τ) :
    AuditResult σ τ :=
  let r := a.service.run transport clock w t
  let result := match r.record.result with
    | .ok packages => .ok (AuditReport.of (packages.zip a.service.registrations))
    | .error e => onFailure a.settings e
  ⟨⟨r.record.requests, result⟩, { a with service := r.service }, r.world, r.transport⟩

end Auditor
end DependencyAudit
