import DependencyAudit.Version.Basic

/-! The order of versions: the numbers, then the pre-release, then build metadata. A pre-release
stands below its version, and a version with build metadata above the one without. -/
namespace DependencyAudit

namespace Identifier

/-- Numbers by value and then by length, below all other identifiers, which go letter by letter. -/
def order (a b : Identifier) : Ordering :=
  match a.isNumeric, b.isNumeric with
  | true, true =>
    (compare (Text.value a.chars) (Text.value b.chars)).then
      (compare a.chars.length b.chars.length)
  | true, false => .lt
  | false, true => .gt
  | false, false => List.compareLex (fun x y => compare x.toNat y.toNat) a.chars b.chars

end Identifier

namespace Version

def preOrder : List Identifier → List Identifier → Ordering
  | [], [] => .eq
  | [], _ :: _ => .gt
  | _ :: _, [] => .lt
  | as, bs => List.compareLex Identifier.order as bs

def order (v w : Version) : Ordering :=
  (compare v.major w.major).then <| (compare v.minor w.minor).then <|
    (compare v.patch w.patch).then <| (preOrder v.pre w.pre).then <|
      List.compareLex Identifier.order v.build w.build

instance : Ord Version := ⟨order⟩

instance : LT Version := ltOfOrd

instance : LE Version := leOfOrd

end Version
end DependencyAudit
