import DependencyAudit.Report.Score
import DependencyAudit.Text.Split

/-! Severity of a finding, from its score or from the impact metrics of its vector. -/
namespace DependencyAudit

inductive Severity where
  | unknown
  | low
  | medium
  | high
  | critical
deriving DecidableEq

namespace Severity

def rank : Severity → Nat
  | .unknown => 0
  | .low => 1
  | .medium => 2
  | .high => 3
  | .critical => 4

instance : LE Severity := ⟨fun a b => a.rank ≤ b.rank⟩

instance (a b : Severity) : Decidable (a ≤ b) := inferInstanceAs (Decidable (a.rank ≤ b.rank))

def name : Severity → String
  | .unknown => "unknown"
  | .low => "low"
  | .medium => "medium"
  | .high => "high"
  | .critical => "critical"

/-- The bits of the scores 9, 7 and 4. -/
def criticalFrom : Nat := 0x41100000

def highFrom : Nat := 0x40E00000

def mediumFrom : Nat := 0x40800000

/-- The bits of the least positive score. -/
def lowFrom : Nat := 1

def ofScore (s : Score) : Severity :=
  if s.atLeast criticalFrom then .critical
  else if s.atLeast highFrom then .high
  else if s.atLeast mediumFrom then .medium
  else if s.atLeast lowFrom then .low
  else .unknown

/-- Whether confidentiality, integrity or availability has the value `v`. -/
def hasImpact (v : Char) (vector : List Char) : Bool :=
  ['C', 'I', 'A'].any fun metric => Text.occurs ['/', metric, ':', v] vector

def isVector (vector : List Char) : Bool := ['C', 'V', 'S', 'S', ':'].isPrefixOf vector

def ofVectorChars (vector : List Char) : Severity :=
  if !isVector vector then .unknown
  else if hasImpact 'H' vector then .high
  else if hasImpact 'L' vector then .medium
  else .low

def ofVector (vector : String) : Severity := ofVectorChars vector.toList

def toJson (s : Severity) : Json := .ofString s.name

end Severity
end DependencyAudit
