import DependencyAudit.Proofs.Version.Order
import DependencyAudit.Range.Basic

/-! The intersection of two intervals holds exactly the versions in both, whichever comes first, and
so two ranges that share a version intersect. -/
namespace DependencyAudit

namespace Interval

theorem lowerAllows_some (b : Bound) (v : Version) :
    lowerAllows (some b) v = true ↔ b.version < v ∨ b.inclusive = true ∧ b.version = v := by
  by_cases hi : b.inclusive = true
  · simp only [lowerAllows, hi, if_true, true_and, Version.isLE_compare, le_iff_lt_or_eq]
  · simp only [lowerAllows, hi, Bool.false_eq_true, if_false, false_and, or_false,
      Version.isLT_compare]

theorem upperAllows_some (b : Bound) (v : Version) :
    upperAllows (some b) v = true ↔ v < b.version ∨ b.inclusive = true ∧ v = b.version := by
  by_cases hi : b.inclusive = true
  · simp only [upperAllows, hi, if_true, true_and, Version.isLE_compare, le_iff_lt_or_eq]
  · simp only [upperAllows, hi, Bool.false_eq_true, if_false, false_and, or_false,
      Version.isLT_compare]

theorem contains_atLeast_iff (v : Version) (inclusive : Bool) (u : Version) :
    (atLeast v inclusive).contains u = true ↔ v < u ∨ inclusive = true ∧ v = u := by
  rw [← lowerAllows_some ⟨v, inclusive⟩ u, contains, Bool.and_eq_true]
  exact and_iff_left rfl

theorem contains_atMost_iff (v : Version) (inclusive : Bool) (u : Version) :
    (atMost v inclusive).contains u = true ↔ u < v ∨ inclusive = true ∧ u = v := by
  rw [← upperAllows_some ⟨v, inclusive⟩ u, contains, Bool.and_eq_true]
  exact and_iff_right rfl

/-- An upper bound holds what a lower bound at the same version leaves out. -/
theorem contains_atMost_not (v : Version) (inclusive : Bool) (u : Version) :
    (atMost v (!inclusive)).contains u = !(atLeast v inclusive).contains u := by
  rw [Bool.eq_iff_iff, Bool.not_eq_true', ← Bool.not_eq_true, contains_atMost_iff,
    contains_atLeast_iff]
  grind

theorem contains_exactly_iff (v u : Version) : (exactly v).contains u = true ↔ u = v := by
  rw [contains, Bool.and_eq_true, exactly, lowerAllows_some, upperAllows_some]
  grind

theorem contains_halfOpen_iff (low high v : Version) :
    (halfOpen low high).contains v = true ↔ low ≤ v ∧ v < high := by
  rw [contains, Bool.and_eq_true, halfOpen, lowerAllows_some, upperAllows_some, le_iff_lt_or_eq]
  simp

section Tighter

variable {a b : Bound}

theorem tighter_of_lt (prefers : Ordering) (h : a.version < b.version) :
    tighter prefers (some a) (some b) = if prefers = .lt then some a else some b := by
  cases prefers <;> simp [tighter, compare_lt_iff_lt.mpr h]

theorem tighter_of_gt (prefers : Ordering) (h : b.version < a.version) :
    tighter prefers (some a) (some b) = if prefers = .gt then some a else some b := by
  cases prefers <;> simp [tighter, compare_gt_iff_gt.mpr h]

theorem tighter_of_eq (prefers : Ordering) (h : a.version = b.version) :
    tighter prefers (some a) (some b) = some ⟨a.version, a.inclusive && b.inclusive⟩ := by
  simp [tighter, compare_eq_iff_eq.mpr h]

theorem lowerAllows_tighter (a b : Option Bound) (v : Version) :
    lowerAllows (tighter .gt a b) v = (lowerAllows a v && lowerAllows b v) := by
  cases a with
  | none => cases b <;> simp [tighter, lowerAllows]
  | some a =>
    cases b with
    | none => simp [tighter, lowerAllows]
    | some b =>
      rw [Bool.eq_iff_iff, Bool.and_eq_true, lowerAllows_some a, lowerAllows_some b]
      rcases lt_trichotomy a.version b.version with h | h | h
      · rw [tighter_of_lt .gt h, if_neg (by decide), lowerAllows_some]
        grind
      · rw [tighter_of_eq .gt h, lowerAllows_some, Bool.and_eq_true]
        grind
      · rw [tighter_of_gt .gt h, if_pos rfl, lowerAllows_some]
        grind

theorem upperAllows_tighter (a b : Option Bound) (v : Version) :
    upperAllows (tighter .lt a b) v = (upperAllows a v && upperAllows b v) := by
  cases a with
  | none => cases b <;> simp [tighter, upperAllows]
  | some a =>
    cases b with
    | none => simp [tighter, upperAllows]
    | some b =>
      rw [Bool.eq_iff_iff, Bool.and_eq_true, upperAllows_some a, upperAllows_some b]
      rcases lt_trichotomy a.version b.version with h | h | h
      · rw [tighter_of_lt .lt h, if_pos rfl, upperAllows_some]
        grind
      · rw [tighter_of_eq .lt h, upperAllows_some, Bool.and_eq_true]
        grind
      · rw [tighter_of_gt .lt h, if_neg (by decide), upperAllows_some]
        grind

theorem tighter_comm {prefers : Ordering} (hp : prefers ≠ .eq) (a b : Option Bound) :
    tighter prefers a b = tighter prefers b a := by
  cases a with
  | none => cases b <;> rfl
  | some a =>
    cases b with
    | none => rfl
    | some b =>
      rcases lt_trichotomy a.version b.version with h | h | h
      · rw [tighter_of_lt prefers h, tighter_of_gt prefers h]
        cases prefers <;> simp_all
      · rw [tighter_of_eq prefers h, tighter_of_eq prefers h.symm, h, Bool.and_comm]
      · rw [tighter_of_gt prefers h, tighter_of_lt prefers h]
        cases prefers <;> simp_all

end Tighter

theorem crosses_some_iff (low high : Bound) :
    crosses ⟨some low, some high⟩ = true ↔ high.version < low.version ∨
      low.version = high.version ∧ ¬(low.inclusive = true ∧ high.inclusive = true) := by
  rcases lt_trichotomy low.version high.version with h | h | h
  · simp only [crosses, compare_lt_iff_lt.mpr h]
    grind
  · simp only [crosses, compare_eq_iff_eq.mpr h]
    grind
  · simp only [crosses, compare_gt_iff_gt.mpr h]
    grind

theorem crosses_some_eq_false_iff (low high : Bound) :
    crosses ⟨some low, some high⟩ = false ↔ low.version < high.version ∨
      low.version = high.version ∧ low.inclusive = true ∧ high.inclusive = true := by
  rw [← Bool.not_eq_true, crosses_some_iff]
  grind

/-- No version lies between bounds that cross. -/
theorem contains_of_crosses {i : Interval} (h : i.crosses = true) (v : Version) :
    i.contains v = false := by
  obtain ⟨lower, upper⟩ := i
  cases lower with
  | none => cases h
  | some low =>
    cases upper with
    | none => cases h
    | some high =>
      rw [crosses_some_iff] at h
      rw [← Bool.not_eq_true, contains, Bool.and_eq_true, lowerAllows_some, upperAllows_some]
      grind

variable {a b i : Interval}

/-- The bounds of an intersection, before it is known whether they cross. -/
theorem contains_tighter (a b : Interval) (v : Version) :
    contains ⟨tighter .gt a.lower b.lower, tighter .lt a.upper b.upper⟩ v =
      (a.contains v && b.contains v) := by
  simp only [contains, lowerAllows_tighter, upperAllows_tighter]
  ac_rfl

theorem intersect?_eq_some_iff : a.intersect? b = some i ↔ i.crosses = false ∧
    i = ⟨tighter .gt a.lower b.lower, tighter .lt a.upper b.upper⟩ := by
  simp only [intersect?]
  split
  · rename_i h
    constructor
    · intro he
      cases he
    · rintro ⟨hc, rfl⟩
      rw [h] at hc
      cases hc
  · rename_i h
    constructor
    · intro he
      cases he
      exact ⟨by simpa using h, rfl⟩
    · rintro ⟨-, rfl⟩
      rfl

theorem crosses_of_intersect? (h : a.intersect? b = some i) : i.crosses = false :=
  (intersect?_eq_some_iff.mp h).1

theorem contains_of_intersect? (h : a.intersect? b = some i) (v : Version) :
    i.contains v = (a.contains v && b.contains v) := by
  rw [(intersect?_eq_some_iff.mp h).2, contains_tighter]

theorem contains_of_intersect?_eq_none (h : a.intersect? b = none) (v : Version) :
    (a.contains v && b.contains v) = false := by
  simp only [intersect?] at h
  split at h
  · rename_i hc
    rw [← contains_tighter]
    exact contains_of_crosses hc v
  · cases h

theorem exists_mem_intersect?_iff (a b : Interval) (v : Version) :
    (∃ i ∈ a.intersect? b, i.contains v = true) ↔ a.contains v = true ∧ b.contains v = true := by
  rw [← Bool.and_eq_true]
  cases h : a.intersect? b with
  | none => simp [contains_of_intersect?_eq_none h v]
  | some i => simp [contains_of_intersect? h v]

theorem intersect?_comm (a b : Interval) : a.intersect? b = b.intersect? a := by
  simp only [intersect?, tighter_comm (by decide : Ordering.gt ≠ .eq) a.lower,
    tighter_comm (by decide : Ordering.lt ≠ .eq) a.upper]

end Interval

namespace VersionRange

theorem contains_iff (r : VersionRange) (v : Version) :
    r.contains v = true ↔ ∃ i ∈ r.intervals, i.contains v = true :=
  List.any_eq_true

theorem intersects_iff (r s : VersionRange) : r.intersects s = true ↔
    ∃ i ∈ r.intervals, ∃ j ∈ s.intervals, ∃ k, i.intersect? j = some k := by
  simp only [intersects, List.any_eq_true, Option.isSome_iff_exists]

theorem intersects_of_contains {r s : VersionRange} {v : Version} (hr : r.contains v = true)
    (hs : s.contains v = true) : r.intersects s = true := by
  obtain ⟨i, hi, hiv⟩ := (contains_iff r v).mp hr
  obtain ⟨j, hj, hjv⟩ := (contains_iff s v).mp hs
  refine (intersects_iff r s).mpr ⟨i, hi, j, hj, ?_⟩
  cases h : i.intersect? j with
  | none =>
    have hn := Interval.contains_of_intersect?_eq_none h v
    rw [hiv, hjv] at hn
    cases hn
  | some k => exact ⟨k, rfl⟩

theorem intersects_comm (r s : VersionRange) : r.intersects s = s.intersects r := by
  rw [Bool.eq_iff_iff, intersects_iff, intersects_iff]
  constructor
  · rintro ⟨i, hi, j, hj, k, h⟩
    exact ⟨j, hj, i, hi, k, by rw [Interval.intersect?_comm, h]⟩
  · rintro ⟨j, hj, i, hi, k, h⟩
    exact ⟨i, hi, j, hj, k, by rw [Interval.intersect?_comm, h]⟩

/-- What two intervals leave holds exactly the versions in both, and where nothing is left there are
none. The order of the two makes no difference, and ranges with a version in common intersect. -/
theorem intersection_exact (a b : Interval) (r s : VersionRange) :
    (match a.intersect? b with
      | some i => ∀ v, i.contains v = true ↔ a.contains v = true ∧ b.contains v = true
      | none => ∀ v, ¬(a.contains v = true ∧ b.contains v = true)) ∧
    b.intersect? a = a.intersect? b ∧
    ((∃ v, r.contains v = true ∧ s.contains v = true) → r.intersects s = true) ∧
    r.intersects s = s.intersects r := by
  refine ⟨?_, Interval.intersect?_comm b a, ?_, intersects_comm r s⟩
  · split
    · rename_i i h
      intro v
      rw [Interval.contains_of_intersect? h, Bool.and_eq_true]
    · rename_i h
      intro v
      rw [← Bool.and_eq_true, Interval.contains_of_intersect?_eq_none h]
      exact Bool.false_ne_true
  · rintro ⟨v, hr, hs⟩
    exact intersects_of_contains hr hs

/-- Two ranges that touch have the one version at which they do. -/
theorem intersection_exact_touching :
    let v : Version := .release 2 0 0
    let a : Interval := ⟨some ⟨.release 1 0 0, true⟩, some ⟨v, true⟩⟩
    let b : Interval := .halfOpen v (.release 3 0 0)
    (∃ v, contains ⟨[a]⟩ v = true ∧ contains ⟨[b]⟩ v = true) ∧
      a.intersect? b = some (.exactly v) ∧ intersects ⟨[a]⟩ ⟨[b]⟩ = true := by
  intro v a b
  have hv : ∃ v, contains ⟨[a]⟩ v = true ∧ contains ⟨[b]⟩ v = true :=
    ⟨v, by decide +kernel, by decide +kernel⟩
  exact ⟨hv, by decide +kernel, (intersection_exact a b ⟨[a]⟩ ⟨[b]⟩).2.2.1 hv⟩

end VersionRange
end DependencyAudit
