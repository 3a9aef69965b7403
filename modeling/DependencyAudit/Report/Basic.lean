import DependencyAudit.Coordinate.Reading
import DependencyAudit.Report.Vulnerability

/-! What the vulnerability service says about a package, and what is left of it after filtering. -/
namespace DependencyAudit

inductive AuditStatus where
  /-- A finding survived. -/
  | vulnerable
  /-- There were findings, and all are suppressed. -/
  | suppressed
  | clean
deriving DecidableEq

def AuditStatus.name : AuditStatus → String
  | .vulnerable => "vulnerable"
  | .suppressed => "suppressed"
  | .clean => "clean"

/-- `coordinates` is the text by which the service names the package. -/
structure PackageReport where
  coordinates : String
  description : Option String
  reference : Option String
  unfilteredCount : Nat
  vulnerabilities : List Vulnerability
deriving DecidableEq

namespace PackageReport

/-- The report of a package about which nothing is known yet. -/
def pending (c : Coordinate) : PackageReport := ⟨c.text, none, none, 0, []⟩

def coordinate (p : PackageReport) : Except CoordinateError Coordinate :=
  Coordinate.ofText p.coordinates

/-- A text that names no package is put in lower case as it is. -/
def cacheKey (p : PackageReport) : String :=
  match p.coordinate with
  | .ok c => c.cacheKey
  | .error _ => Text.lowercase p.coordinates

theorem cacheKey_of_coordinate {p : PackageReport} {c : Coordinate} (h : p.coordinate = .ok c) :
    p.cacheKey = c.cacheKey := by
  simp only [cacheKey, h]

def hasIssues (p : PackageReport) : Bool := !p.vulnerabilities.isEmpty

def status (p : PackageReport) : AuditStatus :=
  if p.hasIssues then .vulnerable else if p.unfilteredCount > 0 then .suppressed else .clean

/-- Keeps only some findings, and counts all that were there. -/
def keeping (p : PackageReport) (vs : List Vulnerability) : PackageReport :=
  { p with unfilteredCount := p.vulnerabilities.length, vulnerabilities := vs }

def blank : PackageReport := ⟨"", none, none, 0, []⟩

open Decoder in
def fields : List (Decoder.Field PackageReport) :=
  [required "coordinates" string fun x p => { p with coordinates := x },
    defaulted "description" (option string) fun x p => { p with description := x },
    defaulted "reference" (option string) fun x p => { p with reference := x },
    defaulted "unfilteredVulnerabilityCount" (natural "usize")
      fun x p => { p with unfilteredCount := x },
    defaulted "vulnerabilities" (list Vulnerability.decoder)
      fun x p => { p with vulnerabilities := x }]

def decoder : Decoder PackageReport := Decoder.record "AuditedPackage" fields blank

/-- The members of the JSON form, in order. -/
def members (p : PackageReport) : List (String × Json) :=
  [("coordinates", .ofString p.coordinates)] ++
  Json.optional "description" (p.description.map .ofString) ++
  Json.optional "reference" (p.reference.map .ofString) ++
  [("unfilteredVulnerabilityCount", .ofNat p.unfilteredCount),
    ("vulnerabilities", .ofList (p.vulnerabilities.map (·.toJson)))]

def toJson (p : PackageReport) : Json := .record p.members

end PackageReport
end DependencyAudit
