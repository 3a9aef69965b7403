import DependencyAudit.Coordinate.InclusionPath
import DependencyAudit.Coordinate.Matching
import DependencyAudit.Report.Basic

/-! Batches of registered packages, and to which of them each report of an answer belongs. -/
namespace DependencyAudit

namespace InclusionPath

/-- The key under which the target is registered and cached. -/
def key (p : InclusionPath) : String := p.target.cacheKey

end InclusionPath

abbrev Batch := List InclusionPath

/-- A report under the key of the registration that it answers. -/
abbrev Assignment := List (String × PackageReport)

namespace Batch

/-- Consecutive parts of `size` elements; the last may be shorter. -/
def chunks {α : Type} (size : Nat) : List α → List (List α)
  | [] => []
  | x :: xs => (x :: xs.take (size - 1)) :: chunks size (xs.drop (size - 1))
termination_by xs => xs.length
decreasing_by simp only [List.length_drop, List.length_cons]; omega

@[simp] theorem flatten_chunks {α : Type} (size : Nat) (xs : List α) :
    (chunks size xs).flatten = xs := by
  fun_induction chunks size xs with
  | case1 => rfl
  | case2 x xs ih => simp [ih]

theorem length_le_of_mem_chunks {α : Type} {size : Nat} {xs b : List α} (h : b ∈ chunks size xs)
    (hs : 0 < size) : b.length ≤ size := by
  fun_induction chunks size xs with
  | case1 => simp at h
  | case2 x xs ih =>
    rcases List.mem_cons.1 h with rfl | h
    · simp only [List.length_cons, List.length_take]
      omega
    · exact ih h

/-- Whether the keys of the report and of the registration are coordinates that agree. -/
def agrees (p : PackageReport) (r : InclusionPath) : Bool :=
  match Coordinate.ofText r.key, Coordinate.ofText p.cacheKey with
  | .ok registered, .ok reported => registered.agrees reported
  | _, _ => false

/-- The registration named by the key, or the only one whose coordinate agrees with the report's. -/
def owner? (isOpen : Batch) (p : PackageReport) : Option InclusionPath :=
  match isOpen.find? (·.key == p.cacheKey) with
  | some r => some r
  | none =>
    match isOpen.filter (agrees p) with
    | [r] => some r
    | _ => none

/-- The reports with an owner, each under its key, and the others with their places in the answer. -/
structure Sorting where
  owned : Assignment
  others : List (Nat × PackageReport)

/-- Gives each report in turn to its owner among the registrations that have none yet; `place` counts
the reports before. -/
def byCoordinate (b : Batch) (taken : List String) (place : Nat) : List PackageReport → Sorting
  | [] => ⟨[], []⟩
  | p :: ps =>
    match owner? (b.filter fun r => !taken.contains r.key) p with
    | some r =>
      let s := byCoordinate b (r.key :: taken) (place + 1) ps
      ⟨(r.key, p) :: s.owned, s.others⟩
    | none =>
      let s := byCoordinate b taken (place + 1) ps
      ⟨s.owned, (place, p) :: s.others⟩

/-- Each report under the key of the registration in its place. -/
def byPosition (b : Batch) (others : List (Nat × PackageReport)) : Assignment :=
  others.filterMap fun (place, p) => b[place]?.map fun r => (r.key, p)

/-- By coordinate; only when that gives no report an owner, and there is one report for each
registration, by position. -/
def assign (b : Batch) (ps : List PackageReport) : Assignment :=
  let s := byCoordinate b [] 0 ps
  if s.owned.isEmpty && s.others.length == b.length then byPosition b s.others else s.owned

end Batch
end DependencyAudit
