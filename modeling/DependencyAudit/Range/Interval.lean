import DependencyAudit.Version.Order

/-! Contiguous sets of versions. -/
namespace DependencyAudit

structure Bound where
  version : Version
  inclusive : Bool
deriving DecidableEq

/-- No bound on a side: unbounded there. -/
structure Interval where
  lower : Option Bound
  upper : Option Bound
deriving DecidableEq

namespace Interval

def any : Interval := ⟨none, none⟩

def atLeast (v : Version) (inclusive : Bool) : Interval := ⟨some ⟨v, inclusive⟩, none⟩

def atMost (v : Version) (inclusive : Bool) : Interval := ⟨none, some ⟨v, inclusive⟩⟩

def exactly (v : Version) : Interval := ⟨some ⟨v, true⟩, some ⟨v, true⟩⟩

/-- From `low` on, up to but without `high`. -/
def halfOpen (low high : Version) : Interval := ⟨some ⟨low, true⟩, some ⟨high, false⟩⟩

def lowerAllows : Option Bound → Version → Bool
  | none, _ => true
  | some b, v => if b.inclusive then (compare b.version v).isLE else (compare b.version v).isLT

def upperAllows : Option Bound → Version → Bool
  | none, _ => true
  | some b, v => if b.inclusive then (compare v b.version).isLE else (compare v b.version).isLT

def contains (i : Interval) (v : Version) : Bool := lowerAllows i.lower v && upperAllows i.upper v

/-- The bounds cross, or they meet where one of them is exclusive. -/
def crosses (i : Interval) : Bool :=
  match i.lower, i.upper with
  | some low, some high =>
    match compare low.version high.version with
    | .gt => true
    | .eq => !(low.inclusive && high.inclusive)
    | .lt => false
  | _, _ => false

/-- The bound that `prefers` picks, or at the same version the exclusive one. -/
def tighter (prefers : Ordering) : Option Bound → Option Bound → Option Bound
  | none, b => b
  | a, none => a
  | some a, some b =>
    match compare a.version b.version with
    | .eq => some ⟨a.version, a.inclusive && b.inclusive⟩
    | o => if o == prefers then some a else some b

/-- The versions in both, or `none` when the bounds leave nothing. -/
def intersect? (a b : Interval) : Option Interval :=
  let i : Interval := ⟨tighter .gt a.lower b.lower, tighter .lt a.upper b.upper⟩
  if i.crosses then none else some i

end Interval
end DependencyAudit
