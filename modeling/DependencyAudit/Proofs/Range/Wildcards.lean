import DependencyAudit.Proofs.Range.Compatible

/-! What a wildcard behind numbers stands for: of the versions that are written as numbers, those that
start with the same ones. Numbers past the third are build metadata and do not keep a version out. -/
namespace DependencyAudit

open Text Version

variable {xs : List ℕ}

namespace Version

/-- Without a pre-release a version is below a release only by its numbers. -/
theorem ofNumbers_lt_release_iff (ys : List ℕ) (build : List Identifier) (major minor patch : ℕ) :
    ofNumbers ys [] build < release major minor patch ↔
      ys.getD 0 0 < major ∨ ys.getD 0 0 = major ∧ (ys.getD 1 0 < minor ∨ ys.getD 1 0 = minor ∧
        ys.getD 2 0 < patch) := by
  simp [lt_release_iff, ofNumbers]

end Version

namespace Interval

/-- Between the written numbers and the version past them lie the numbers that go on from there. -/
theorem contains_wildcard_iff (hne : xs ≠ []) (hlen : xs.length ≤ 3)
    (hxs : ∀ n ∈ xs, n + 1 < numberLimit) (ys : List ℕ) (build : List Identifier) :
    (ofRelation .same ⟨ofNumbers xs [] [], min xs.length 3, true⟩).contains
      (ofNumbers ys [] build) = true ↔ xs <+: ys.rightpad 3 0 := by
  have hn : 1 ≤ min xs.length 3 := by
    have hpos : 0 < xs.length := List.length_pos_iff.mpr hne
    omega
  let w : WrittenVersion := ⟨ofNumbers xs [] [], min xs.length 3, false⟩
  obtain ⟨next, hnext⟩ := exists_next? (w := w) hn
  have hwild := ofRelation_wildcard (w := w) hn hnext
  have hstart : w.version = release (xs.getD 0 0) (xs.getD 1 0) (xs.getD 2 0) := rfl
  rw [hwild, contains_halfOpen_iff, hstart, ← not_lt, ofNumbers_lt_release_iff, rightpad_eq]
  -- How many numbers are written decides which of them is one higher in the version past them.
  rcases xs with _ | ⟨a, _ | ⟨b, _ | ⟨c, _ | ⟨d, xs⟩⟩⟩⟩
  · exact absurd rfl hne
  case cons.cons.cons.cons =>
    simp only [List.length_cons] at hlen
    omega
  all_goals
    simp only [List.forall_mem_cons] at hxs
    cases hnext
    rw [ofNumbers_lt_release_iff]
    simp only [w, ofNumbers, List.cons_prefix_cons, List.nil_prefix, List.getD_cons_zero,
      List.getD_cons_succ, List.getD_nil, nextNumber_of_lt, hxs, and_true]
    omega

end Interval

namespace VersionRange

open DependencyAudit.Interval

/-- One to three numbers and a wildcard are a range. It holds the version of some numbers, however many
there are, exactly if these start with the ones in front of the wildcard, where a missing second or
third number counts as zero. -/
theorem wildcard_means_prefix {ys : List ℕ} (hx : xs ≠ []) (hlen : xs.length ≤ 3)
    (hxs : ∀ n ∈ xs, n + 1 < numberLimit) (hy : ys ≠ []) (hys : ∀ n ∈ ys, n < numberLimit) :
    ∃ r v, ofText (String.ofList (dottedWildcard xs)) = .ok r ∧
      Version.ofText (String.ofList (dottedNumbers ys)) = .ok v ∧
      (r.contains v = true ↔ xs <+: ys.rightpad 3 0) := by
  have hlimit : ∀ n ∈ xs, n < numberLimit := fun n hn => Nat.lt_of_succ_lt (hxs n hn)
  have hwildcard := ofChars_dottedWildcard hx hlimit
  obtain ⟨r, hr, hmean⟩ := exists_ofText_relation (isUncut_dottedWildcard xs) hwildcard .same
  refine ⟨r, _, hr, ofText_dottedNumbers hy hys, ?_⟩
  rw [hmean, contains_wildcard_iff hx hlen hxs]

/-- A single number is the version with two zeros behind it, and a fourth number keeps no version out. -/
theorem wildcard_means_prefix_zeros :
    let xs := [1, 0, 0]
    let ys := [1]
    let zs := [1, 0, 0, 18446744073709551615, 7]
    (xs ≠ [] ∧ xs.length ≤ 3 ∧ (∀ n ∈ xs, n + 1 < numberLimit) ∧ ys ≠ [] ∧
      (∀ n ∈ ys, n < numberLimit) ∧ zs ≠ [] ∧ ∀ n ∈ zs, n < numberLimit) ∧
      ∃ r v u, ofText "1.0.0.x" = .ok r ∧ Version.ofText "1" = .ok v ∧
        Version.ofText "1.0.0.18446744073709551615.7" = .ok u ∧ r.contains v = true ∧
        r.contains u = true := by
  intro xs ys zs
  have hx : xs ≠ [] := nofun
  have hlen : xs.length ≤ 3 := by decide
  have hxs : ∀ n ∈ xs, n + 1 < numberLimit := by decide
  have hy : ys ≠ [] := nofun
  have hys : ∀ n ∈ ys, n < numberLimit := by decide
  have hz : zs ≠ [] := nofun
  have hzs : ∀ n ∈ zs, n < numberLimit := by decide
  obtain ⟨r, v, hr, hv, hmean⟩ := wildcard_means_prefix hx hlen hxs hy hys
  obtain ⟨r', u, hr', hu, hmean'⟩ := wildcard_means_prefix hx hlen hxs hz hzs
  obtain rfl : r = r' := by
    rw [hr, Except.ok.injEq] at hr'
    exact hr'
  exact ⟨⟨hx, hlen, hxs, hy, hys, hz, hzs⟩, r, v, u, hr, hv, hu, hmean.mpr (by decide),
    hmean'.mpr (by decide)⟩

end VersionRange
end DependencyAudit
