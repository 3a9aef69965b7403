import Mathlib.Order.Basic
import DependencyAudit.Proofs.Range.Bounds

/-! Whether anything lies in a range, or in two, is decided by the bounds alone. That is right but for
gaps: intervals whose bounds do not cross, and between which there is still no version. -/
namespace DependencyAudit

namespace Interval

/-- The first version that the lower bound lets in. -/
def first (i : Interval) : Version :=
  match i.lower with
  | none => .least
  | some ⟨v, inclusive⟩ => if inclusive then v else v.next

/-- The interval ends before the first version of all, or it starts after a version and ends before
the next one. -/
def isGap (i : Interval) : Bool :=
  match i.lower, i.upper with
  | none, some ⟨w, false⟩ => w == .least
  | some ⟨v, false⟩, some ⟨w, false⟩ => w == v.next
  | _, _ => false

variable {i : Interval} {v : Version}

theorem lowerAllows_iff_first_le (hv : v.IsSemver) :
    lowerAllows i.lower v = true ↔ i.first ≤ v := by
  cases hl : i.lower with
  | none => simp [lowerAllows, first, hl, Version.least_le hv]
  | some low =>
    obtain ⟨u, inclusive⟩ := low
    rw [lowerAllows_some]
    by_cases hi : inclusive = true
    · simp [first, hl, hi, le_iff_lt_or_eq]
    · have hnext : u < v ↔ u.next ≤ v :=
        ⟨Version.next_le_of_lt hv, lt_of_lt_of_le (Version.lt_next u)⟩
      simp [first, hl, hi, hnext]

theorem upperAllows_of_le {b : Option Bound} {w : Version} (h : w ≤ v)
    (hv : upperAllows b v = true) : upperAllows b w = true := by
  cases b with
  | none => rfl
  | some b =>
    rw [upperAllows_some] at hv ⊢
    grind

theorem isSemver_first (h : i.EachBound Version.IsSemver) : i.first.IsSemver := by
  cases hl : i.lower with
  | none => simpa [first, hl] using Version.isSemver_least
  | some low =>
    have hlow := h.1 low hl
    by_cases hi : low.inclusive = true
    · simpa [first, hl, hi] using hlow
    · simpa [first, hl, hi] using hlow.next

theorem within_first {largest : ℕ} (h : i.EachBound (Version.Within largest)) :
    i.first.Within largest := by
  cases hl : i.lower with
  | none => simpa [first, hl] using Version.within_least largest
  | some low =>
    have hlow := h.1 low hl
    by_cases hi : low.inclusive = true
    · simpa [first, hl, hi] using hlow
    · simpa [first, hl, hi] using hlow.next

theorem contains_first (h : i.EachBound Version.IsSemver) :
    i.contains i.first = upperAllows i.upper i.first := by
  rw [contains, (lowerAllows_iff_first_le (isSemver_first h)).mpr le_rfl, Bool.true_and]

/-- An interval holds its first version if it holds any. -/
theorem contains_first_of_contains (h : i.EachBound Version.IsSemver) (hv : v.IsSemver)
    (hc : i.contains v = true) : i.contains i.first = true := by
  rw [contains, Bool.and_eq_true, lowerAllows_iff_first_le hv] at hc
  rw [contains_first h]
  exact upperAllows_of_le hc.1 hc.2

/-- Between bounds that do not cross, the first version is missing only in a gap. -/
theorem contains_first_iff (hi : i.IsProper) : i.contains i.first = true ↔ i.isGap = false := by
  rw [contains_first hi.bounds]
  obtain ⟨lower, upper⟩ := i
  obtain ⟨⟨hlower, hupper⟩, hcrosses⟩ := hi
  cases upper with
  | none => cases lower <;> simp [upperAllows, isGap]
  | some high =>
    obtain ⟨w, above⟩ := high
    have hw : w.IsSemver := hupper _ rfl
    rw [upperAllows_some]
    cases lower with
    | none =>
      have hle : Version.least ≤ w := Version.least_le hw
      by_cases ha : above = true
      · simp [first, isGap, ha, lt_or_eq_of_le hle]
      · simp only [first, isGap, ha, Bool.false_eq_true, false_and, or_false, beq_eq_false_iff_ne]
        exact LE.le.lt_iff_ne' hle
    | some low =>
      obtain ⟨u, below⟩ := low
      rw [crosses_some_eq_false_iff] at hcrosses
      by_cases hb : below = true
      · simpa [first, isGap, hb, and_comm] using hcrosses
      · have hlt : u < w := by simpa [hb] using hcrosses
        have hle : u.next ≤ w := Version.next_le_of_lt hw hlt
        by_cases ha : above = true
        · simp [first, isGap, ha, hb, lt_or_eq_of_le hle]
        · simp only [first, isGap, ha, hb, Bool.false_eq_true, if_false, false_and, or_false,
            beq_eq_false_iff_ne]
          exact LE.le.lt_iff_ne' hle

theorem contains_of_isGap (hi : i.IsProper) (hg : i.isGap = true) (hv : v.IsSemver) :
    i.contains v = false := by
  by_contra hc
  have hfirst := contains_first_of_contains hi.bounds hv (by simpa using hc)
  rw [contains_first_iff hi, hg] at hfirst
  cases hfirst

/-- An interval whose bounds do not cross holds a version or is a gap. -/
theorem exists_contains_iff {largest : ℕ} (hi : i.IsProper)
    (hw : i.EachBound (Version.Within largest)) :
    (∃ v : Version, v.IsSemver ∧ v.Within largest ∧ i.contains v = true) ↔ i.isGap = false := by
  rw [← contains_first_iff hi]
  constructor
  · rintro ⟨v, hv, -, hc⟩
    exact contains_first_of_contains hi.bounds hv hc
  · intro hc
    exact ⟨i.first, isSemver_first hi.bounds, within_first hw, hc⟩

end Interval

namespace VersionRange

/-- Some interval of one range meets one of the other in a gap. -/
def meetsInGap (r s : VersionRange) : Bool :=
  r.intervals.any fun i => s.intervals.any fun j => (i.intersect? j).any (·.isGap)

/-- No number of a bound exceeds `largest`. -/
def Within (largest : ℕ) (r : VersionRange) : Prop :=
  ∀ i ∈ r.intervals, i.EachBound (Version.Within largest)

instance (largest : ℕ) (r : VersionRange) : Decidable (r.Within largest) :=
  inferInstanceAs (Decidable (∀ i ∈ r.intervals, i.EachBound (Version.Within largest)))

variable {r s : VersionRange} {largest : ℕ}

theorem meetsInGap_iff : r.meetsInGap s = true ↔ ∃ i ∈ r.intervals, ∃ j ∈ s.intervals,
    ∃ k, i.intersect? j = some k ∧ k.isGap = true := by
  simp only [meetsInGap, List.any_eq_true, Option.any_eq_true]

theorem exists_contains_both_of_intersect? {i j k : Interval} (hi : i ∈ r.intervals)
    (hj : j ∈ s.intervals) (hk : i.intersect? j = some k) {v : Version}
    (hv : k.contains v = true) : r.contains v = true ∧ s.contains v = true := by
  rw [Interval.contains_of_intersect? hk, Bool.and_eq_true] at hv
  exact ⟨(contains_iff r v).mpr ⟨i, hi, hv.1⟩, (contains_iff s v).mpr ⟨j, hj, hv.2⟩⟩

/-- Ranges that intersect have a version in common, unless they meet in gaps only. -/
theorem intersects_iff_exists_or_meetsInGap (hr : ∀ i ∈ r.intervals, i.IsProper)
    (hs : ∀ i ∈ s.intervals, i.IsProper) (hrw : r.Within largest) (hsw : s.Within largest) :
    r.intersects s = true ↔
      (∃ v : Version, v.IsSemver ∧ v.Within largest ∧ r.contains v = true ∧ s.contains v = true) ∨
        r.meetsInGap s = true := by
  constructor
  · intro h
    obtain ⟨i, hi, j, hj, k, hk⟩ := (intersects_iff r s).mp h
    have hproper := Interval.isProper_of_intersect? hk (hr i hi).bounds (hs j hj).bounds
    have hwithin := (hrw i hi).intersect? hk (hsw j hj)
    by_cases hg : k.isGap = true
    · exact Or.inr (meetsInGap_iff.mpr ⟨i, hi, j, hj, k, hk, hg⟩)
    · obtain ⟨v, hv, hvw, hc⟩ :=
        (Interval.exists_contains_iff hproper hwithin).mpr (Bool.eq_false_iff.mpr hg)
      exact Or.inl ⟨v, hv, hvw, exists_contains_both_of_intersect? hi hj hk hc⟩
  · rintro (⟨v, -, -, hrv, hsv⟩ | h)
    · exact intersects_of_contains hrv hsv
    · obtain ⟨i, hi, j, hj, k, hk, -⟩ := meetsInGap_iff.mp h
      exact (intersects_iff r s).mpr ⟨i, hi, j, hj, k, hk⟩

/-- A range without intervals holds nothing, and so does one whose intervals are all gaps. -/
theorem isEmpty_iff_forall_not_contains (hr : ∀ i ∈ r.intervals, i.IsProper)
    (hw : r.Within largest) : r.isEmpty = true ↔
      (∀ v : Version, v.IsSemver → v.Within largest → r.contains v = false) ∧
        ∀ i ∈ r.intervals, i.isGap = false := by
  rw [isEmpty, List.isEmpty_iff]
  constructor
  · intro h
    simp [contains, h]
  · rintro ⟨hnone, hgap⟩
    rw [List.eq_nil_iff_forall_not_mem]
    intro i hi
    obtain ⟨v, hv, hvw, hc⟩ :=
      (Interval.exists_contains_iff (hr i hi) (hw i hi)).mpr (hgap i hi)
    have hrv := (contains_iff r v).mpr ⟨i, hi, hc⟩
    rw [hnone v hv hvw] at hrv
    cases hrv

/-- What overlap and emptiness of ranges that are read mean, gaps apart. The versions are those whose
numbers are at most `largest`, which is any number that those of the bounds do not exceed. -/
theorem overlap_means_common_version {a b : String} (hr : ofText a = .ok r) (hs : ofText b = .ok s)
    (hrw : r.Within largest) (hsw : s.Within largest) :
    (r.intersects s = true ↔
      (∃ v : Version, v.IsSemver ∧ v.Within largest ∧ r.contains v = true ∧ s.contains v = true) ∨
        r.meetsInGap s = true) ∧
    (r.isEmpty = true ↔
      (∀ v : Version, v.IsSemver → v.Within largest → r.contains v = false) ∧
        ∀ i ∈ r.intervals, i.isGap = false) :=
  ⟨intersects_iff_exists_or_meetsInGap (isProper_of_ofText hr) (isProper_of_ofText hs) hrw hsw,
    isEmpty_iff_forall_not_contains (isProper_of_ofText hr) hrw⟩

/-- Above a version and below the next one. -/
theorem overlap_means_common_version_gap :
    let v : Version := .release 1 0 0
    let r : VersionRange := ⟨[⟨some ⟨v, false⟩, some ⟨v.next, false⟩⟩]⟩
    let s : VersionRange := ⟨[.halfOpen v (.release 2 0 0)]⟩
    let largest := Text.numberLimit - 1
    ofText ">1.0.0 <1.0.0+0" = .ok r ∧ ofText "1.x" = .ok s ∧ r.Within largest ∧ s.Within largest ∧
      r.intersects s = true ∧ r.meetsInGap s = true ∧ r.isEmpty = false := by
  intro v r s largest
  have hr : ofText ">1.0.0 <1.0.0+0" = .ok r := by decide +kernel
  have hs : ofText "1.x" = .ok s := by decide +kernel
  have hrw : r.Within largest := by decide +kernel
  have hsw : s.Within largest := by decide +kernel
  have hgap : r.meetsInGap s = true := by decide +kernel
  have h := overlap_means_common_version hr hs hrw hsw
  refine ⟨hr, hs, hrw, hsw, h.1.mpr (Or.inr hgap), hgap, ?_⟩
  have hnot : ¬r.isEmpty = true := by
    intro hempty
    have hnone := (h.2.mp hempty).2 _ List.mem_cons_self
    exact absurd hnone (by decide +kernel)
  exact Bool.eq_false_iff.mpr hnot

/-- Nothing stands below the first version, and still the range below it counts as one that holds
something and overlaps itself. -/
theorem overlap_without_version :
    let r : VersionRange := ⟨[.atMost .least false]⟩
    ofText "<0.0.0-0" = .ok r ∧ r.intersects r = true ∧ r.isEmpty = false ∧
      ∀ v : Version, v.IsSemver → r.contains v = false := by
  intro r
  refine ⟨by decide +kernel, by decide +kernel, rfl, ?_⟩
  intro v hv
  have hproper : (Interval.atMost .least false).IsProper :=
    ⟨Interval.eachBound_atMost Version.isSemver_least false, rfl⟩
  have hgap := Interval.contains_of_isGap hproper (by decide +kernel) hv
  simpa [contains, r] using hgap

end VersionRange
end DependencyAudit
