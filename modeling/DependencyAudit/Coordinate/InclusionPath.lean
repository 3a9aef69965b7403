import DependencyAudit.Coordinate.Basic

/-! The chain of packages from a root dependency down to the package that is looked at. -/
namespace DependencyAudit

structure InclusionPath where
  ancestors : List Coordinate
  target : Coordinate
deriving DecidableEq

namespace InclusionPath

def single (c : Coordinate) : InclusionPath := ⟨[], c⟩

def coordinates (p : InclusionPath) : List Coordinate := p.ancestors ++ [p.target]

@[simp] theorem coordinates_ne_nil (p : InclusionPath) : p.coordinates ≠ [] := by
  simp [coordinates]

def root (p : InclusionPath) : Coordinate := p.ancestors.headD p.target

/-- The path of a package that the target depends on. -/
def child (p : InclusionPath) (c : Coordinate) : InclusionPath := ⟨p.coordinates, c⟩

@[simp] theorem coordinates_child (p : InclusionPath) (c : Coordinate) :
    (p.child c).coordinates = p.coordinates ++ [c] := rfl

def ofList? (cs : List Coordinate) : Except CoordinateError InclusionPath :=
  match cs.getLast? with
  | none => .error .emptyPath
  | some target => .ok ⟨cs.dropLast, target⟩

theorem coordinates_of_ofList? {cs : List Coordinate} {p : InclusionPath}
    (h : ofList? cs = .ok p) : p.coordinates = cs := by
  simp only [ofList?] at h
  split at h
  · cases h
  · rename_i target ht
    cases h
    obtain ⟨ys, rfl⟩ := List.getLast?_eq_some_iff.1 ht
    simp [coordinates]

/-- Chains are read and written as plain lists, where an empty one is allowed. -/
def chainDecoder : Decoder (List Coordinate) := Decoder.list Coordinate.decoder

def chainJson (cs : List Coordinate) : Json := .ofList (cs.map (·.toJson))

end InclusionPath
end DependencyAudit
