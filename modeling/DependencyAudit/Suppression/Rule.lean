import DependencyAudit.Coordinate.InclusionPath
import DependencyAudit.Coordinate.Matching
import DependencyAudit.Report.Basic

/-! Rules that suppress findings, by the package and by the chain through which it was pulled in. A
finding is suppressed as soon as one rule applies. -/
namespace DependencyAudit

namespace Suppression

/-- Whether the chain starts with coordinates that agree with the pattern one by one. -/
def startsWith : List Coordinate → List Coordinate → Bool
  | [], _ => true
  | _ :: _, [] => false
  | p :: pattern, c :: chain => p.agrees c && startsWith pattern chain

/-- Whether a run of the chain agrees with the pattern. -/
def hasRun (pattern : List Coordinate) : List Coordinate → Bool
  | [] => startsWith pattern []
  | c :: chain => startsWith pattern (c :: chain) || hasRun pattern chain

/-- The empty pattern is found nowhere. -/
def found (pattern : List Coordinate) (path : InclusionPath) : Bool :=
  !pattern.isEmpty && hasRun pattern path.coordinates

end Suppression

inductive Rule where
  /-- Suppresses every finding on a path with the pattern. -/
  | ignorePackage (pattern : List Coordinate)
  /-- Suppresses one finding, on a path with the pattern or without one everywhere. -/
  | ignoreVulnerability (pattern : Option (List Coordinate)) (id : String)
deriving DecidableEq

namespace Rule

def pattern? : Rule → Option (List Coordinate)
  | ignorePackage pattern => some pattern
  | ignoreVulnerability pattern _ => pattern

def suppresses (path : InclusionPath) (id : String) : Rule → Bool
  | ignorePackage pattern => Suppression.found pattern path
  | ignoreVulnerability none ignored => ignored == id
  | ignoreVulnerability (some pattern) ignored => ignored == id && Suppression.found pattern path

def ignoresPackage (path : InclusionPath) : Rule → Bool
  | ignorePackage pattern => Suppression.found pattern path
  | ignoreVulnerability _ _ => false

end Rule

/-- The rules in force. -/
structure Filter where
  rules : List Rule
deriving DecidableEq

namespace Filter

def empty : Filter := ⟨[]⟩

def add (f : Filter) (r : Rule) : Filter := ⟨f.rules ++ [r]⟩

def suppresses (f : Filter) (path : InclusionPath) (id : String) : Bool :=
  f.rules.any (·.suppresses path id)

def ignoresPackage (f : Filter) (path : InclusionPath) : Bool :=
  f.rules.any (·.ignoresPackage path)

/-- What is left of a report for a package on the given path. -/
def apply (f : Filter) (p : PackageReport) (path : InclusionPath) : PackageReport :=
  if f.ignoresPackage path then p.keeping []
  else p.keeping (p.vulnerabilities.filter fun v => !f.suppresses path v.id)

@[simp] theorem unfilteredCount_apply (f : Filter) (p : PackageReport) (path : InclusionPath) :
    (f.apply p path).unfilteredCount = p.vulnerabilities.length := by
  simp only [apply]
  split <;> rfl

theorem vulnerabilities_apply_sublist (f : Filter) (p : PackageReport) (path : InclusionPath) :
    List.Sublist (f.apply p path).vulnerabilities p.vulnerabilities := by
  simp only [apply]
  split
  · exact List.nil_sublist _
  · exact List.filter_sublist

end Filter
end DependencyAudit
