import DependencyAudit.Range.Bracketed
import DependencyAudit.Range.Comparator

/-! Ranges: unions of intervals, read from an expression in any of the notations. -/
namespace DependencyAudit

structure VersionRange where
  intervals : List Interval
deriving DecidableEq

namespace VersionRange

/-- The alternatives between double bars. -/
def alternatives : List Char → List (List Char)
  | [] => [[]]
  | [c] => [[c]]
  | c :: d :: cs =>
    if c = '|' ∧ d = '|' then [] :: alternatives cs
    else match alternatives (d :: cs) with
      | [] => [[c]]
      | w :: ws => (c :: w) :: ws

def isBracketed (cs : List Char) : Bool := (Interval.opening? cs).isSome

def intervalsOf (cs : List Char) : Except RangeFault (List Interval) :=
  if isBracketed cs then Interval.ofBrackets cs
  else do
    let found ← (alternatives cs).mapM fun a => Interval.ofAlternative (Text.trim a)
    return found.filterMap id

def ofText (expression : String) : Except RangeError VersionRange :=
  match intervalsOf (Text.trim expression.toList) with
  | .ok is => .ok ⟨is⟩
  | .error fault => .error ⟨expression, fault⟩

def contains (r : VersionRange) (v : Version) : Bool := r.intervals.any (·.contains v)

def intersects (r s : VersionRange) : Bool :=
  r.intervals.any fun i => s.intervals.any fun j => (i.intersect? j).isSome

def isEmpty (r : VersionRange) : Bool := r.intervals.isEmpty

/-- Whether two expressions can mean the same version. Equal texts do, whatever they say; an
expression that cannot be read overlaps no other. -/
def overlap (left right : String) : Bool :=
  if Text.trim left.toList = Text.trim right.toList then true
  else match ofText left, ofText right with
    | .ok l, .ok r => l.intersects r
    | _, _ => false

end VersionRange
end DependencyAudit
