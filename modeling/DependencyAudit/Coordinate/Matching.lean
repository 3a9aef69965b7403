import DependencyAudit.Coordinate.Basic
import DependencyAudit.Range.Basic

/-! When two coordinates may mean the same package. -/
namespace DependencyAudit.Coordinate

def versionsAgree : Option String → Option String → Bool
  | some a, some b => VersionRange.overlap a b
  | _, _ => true

/-- The identities are equal, and the versions overlap or one of them is left open. -/
def agrees (a b : Coordinate) : Bool := a.key == b.key && versionsAgree a.version b.version

end DependencyAudit.Coordinate
