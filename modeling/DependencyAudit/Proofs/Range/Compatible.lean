import DependencyAudit.Proofs.Range.Partition
import DependencyAudit.Proofs.Range.Single
import DependencyAudit.Proofs.Version.Numbers

/-! How far the versions reach that count as compatible with a written one. The tilde keeps all that
starts with the numbers that are written, and so does the caret, unless these are `0` or `0.0`. Neither
reaches the next major version, its pre-releases apart. -/
namespace DependencyAudit

open Text

namespace Version

/-- Whether the version is a pre-release of the one with these numbers. -/
def IsPreReleaseOf (v : Version) (major minor patch : ℕ) : Prop :=
  v.major = major ∧ v.minor = minor ∧ v.patch = patch ∧ v.pre ≠ []

/-- Below the next major version are the smaller ones and its pre-releases. -/
theorem lt_nextMajor_iff {v : Version} {major : ℕ} :
    v < release (major + 1) 0 0 ↔ v.major ≤ major ∨ v.IsPreReleaseOf (major + 1) 0 0 := by
  simp only [lt_release_iff, IsPreReleaseOf, Nat.lt_add_one_iff, Nat.not_lt_zero, false_or]

theorem major_le_of_le {v w : Version} (h : v ≤ w) : v.major ≤ w.major := by
  by_contra hlt
  have hlt : order w v = .lt := by
    simp only [order, Ordering.then_eq_lt, Nat.compare_eq_lt]
    exact Or.inl (Nat.lt_of_not_le hlt)
  exact absurd hlt (not_lt.mpr h)

end Version

namespace Interval

variable {w : WrittenVersion} {next : Version}

/-- Of two intervals that start alike, the one that ends first is in the other. -/
theorem halfOpen_subset_iff {low a b : Version} (h : low ≤ b) :
    (∀ v, (halfOpen low a).contains v = true → (halfOpen low b).contains v = true) ↔ a ≤ b := by
  simp only [contains_halfOpen_iff]
  constructor
  · intro hall
    by_contra hlt
    exact lt_irrefl b (hall b ⟨h, not_le.mp hlt⟩).2
  · intro hab v hv
    exact ⟨hv.1, lt_of_lt_of_le hv.2 hab⟩

theorem lt_caretLimit {v : Version} (hroom : v.Within (numberLimit - 2)) : v < caretLimit v := by
  obtain ⟨hmajor, hminor, hpatch⟩ := hroom.nextNumber_eq
  rw [caretLimit, hmajor, hminor, hpatch]
  split_ifs <;> simp only [Version.lt_release_iff] <;> omega

theorem next_le_tildeLimit (hroom : w.version.Within (numberLimit - 2))
    (h : w.next? = some next) : next ≤ tildeLimit w := by
  obtain ⟨hmajor, hminor, -⟩ := hroom.nextNumber_eq
  rw [tildeLimit, hmajor, hminor]
  rcases WrittenVersion.cases_of_next? h with ⟨hg, rfl⟩ | ⟨hg, rfl⟩ | ⟨hg, rfl⟩ <;> split_ifs <;>
    rw [Version.release_le_release_iff] <;> omega

/-- The caret falls short where one or two numbers are written and all of them are zero. -/
theorem next_le_caretLimit_iff (hroom : w.version.Within (numberLimit - 2))
    (h : w.next? = some next) : next ≤ caretLimit w.version ↔
      ¬(w.version.major = 0 ∧ (w.given = 1 ∨ w.given = 2 ∧ w.version.minor = 0)) := by
  obtain ⟨hmajor, hminor, hpatch⟩ := hroom.nextNumber_eq
  rw [caretLimit, hmajor, hminor, hpatch]
  rcases WrittenVersion.cases_of_next? h with ⟨hg, rfl⟩ | ⟨hg, rfl⟩ | ⟨hg, rfl⟩ <;> split_ifs <;>
    rw [Version.release_le_release_iff] <;> omega

section Subsets

variable (hn : 1 ≤ w.given)
include hn

theorem ofRelation_caret : ofRelation .caret w = halfOpen w.version (caretLimit w.version) := by
  simp [ofRelation, Nat.one_le_iff_ne_zero.mp hn]

theorem ofRelation_tilde : ofRelation .tilde w = halfOpen w.version (tildeLimit w) := by
  simp [ofRelation, Nat.one_le_iff_ne_zero.mp hn]

theorem ofRelation_wildcard (h : w.next? = some next) :
    ofRelation .same { w with wildcard := true } = halfOpen w.version next := by
  have hnext : { w with wildcard := true }.next? = some next := h
  simp [ofRelation, ofWritten, Nat.one_le_iff_ne_zero.mp hn, hnext]

theorem wildcard_subset_tilde (hroom : w.version.Within (numberLimit - 2)) (v : Version)
    (hv : (ofRelation .same { w with wildcard := true }).contains v = true) :
    (ofRelation .tilde w).contains v = true := by
  obtain ⟨next, hnext⟩ := exists_next? hn
  have hle := next_le_tildeLimit hroom hnext
  have hstart := (WrittenVersion.lt_next? hroom hnext).le.trans hle
  rw [ofRelation_wildcard hn hnext] at hv
  rw [ofRelation_tilde hn]
  exact (halfOpen_subset_iff hstart).mpr hle v hv

theorem wildcard_subset_caret_iff (hroom : w.version.Within (numberLimit - 2)) :
    (∀ v, (ofRelation .same { w with wildcard := true }).contains v = true →
      (ofRelation .caret w).contains v = true) ↔
    ¬(w.version.major = 0 ∧ (w.given = 1 ∨ w.given = 2 ∧ w.version.minor = 0)) := by
  obtain ⟨next, hnext⟩ := exists_next? hn
  rw [ofRelation_wildcard hn hnext, ofRelation_caret hn,
    halfOpen_subset_iff (lt_caretLimit hroom).le, next_le_caretLimit_iff hroom hnext]

end Subsets

section NextMajor

variable {v : Version}

/-- What starts within a major version and ends before the next one. -/
theorem contains_nextMajor_iff (low v : Version) :
    (halfOpen low (.release (low.major + 1) 0 0)).contains v = true ↔
      low ≤ v ∧ (v.major = low.major ∨ v.IsPreReleaseOf (low.major + 1) 0 0) := by
  rw [contains_halfOpen_iff, Version.lt_nextMajor_iff]
  refine and_congr_right fun hle => ?_
  rw [(Version.major_le_of_le hle).ge_iff_eq']

theorem contains_caret_iff (hpos : 0 < w.version.major)
    (hlimit : w.version.major + 1 < numberLimit) (hn : 1 ≤ w.given) :
    (ofRelation .caret w).contains v = true ↔ w.version ≤ v ∧
      (v.major = w.version.major ∨ v.IsPreReleaseOf (w.version.major + 1) 0 0) := by
  rw [ofRelation_caret hn, caretLimit, if_pos hpos, nextNumber_of_lt hlimit, contains_nextMajor_iff]

theorem major_of_contains_tilde (hlimit : w.version.major + 1 < numberLimit) (hn : 1 ≤ w.given)
    (hv : (ofRelation .tilde w).contains v = true) :
    v.major = w.version.major ∨ w.given = 1 ∧ v.IsPreReleaseOf (w.version.major + 1) 0 0 := by
  rw [ofRelation_tilde hn, tildeLimit, nextNumber_of_lt hlimit] at hv
  split_ifs at hv with hminor
  -- With a minor number the limit is within the major version, so not even a pre-release is past it.
  · rw [contains_halfOpen_iff, Version.lt_release_iff] at hv
    have hle := Version.major_le_of_le hv.1
    omega
  · have hone : w.given = 1 := by omega
    exact ((contains_nextMajor_iff _ v).mp hv).2.imp_right fun hpre => ⟨hone, hpre⟩

end NextMajor

end Interval

namespace VersionRange

open DependencyAudit.Interval Version

variable {xs : List ℕ}

theorem isUncut_of_dotted {cs : List Char} (h : ∀ c ∈ cs, c.isDigit = true ∨ c = '.' ∨ c = 'x') :
    IsUncut cs := by
  refine IsUncut.of_not_mem (fun c hc => ?_) fun hbar => absurd (h '|' hbar) (by decide)
  rcases h c hc with hd | rfl | rfl
  · have hcomma : c ≠ ',' := by
      rintro rfl
      cases hd
    simp [isSeparator, hcomma, isBlank_of_isDigit hd]
  · rfl
  · rfl

theorem isUncut_dottedNumbers (xs : List ℕ) : IsUncut (dottedNumbers xs) :=
  isUncut_of_dotted fun _ hc => (of_mem_dottedNumbers hc).imp_right Or.inl

theorem isUncut_dottedWildcard (xs : List ℕ) : IsUncut (dottedWildcard xs) :=
  isUncut_of_dotted fun _ => of_mem_dottedWildcard

/-- All versions that start with the written numbers, one to three of them, are in the range of the
tilde. They are in that of the caret unless the numbers are `0` or `0.0`. -/
theorem wildcard_within_caret_iff (hne : xs ≠ []) (hlen : xs.length ≤ 3)
    (hxs : ∀ n ∈ xs, n + 1 < numberLimit) :
    ∃ wild caret tilde, ofText (String.ofList (dottedWildcard xs)) = .ok wild ∧
      ofText (String.ofList ('^' :: dottedNumbers xs)) = .ok caret ∧
      ofText (String.ofList ('~' :: dottedNumbers xs)) = .ok tilde ∧
      (∀ v, wild.contains v = true → tilde.contains v = true) ∧
      ((∀ v, wild.contains v = true → caret.contains v = true) ↔ xs ≠ [0] ∧ xs ≠ [0, 0]) := by
  have hlimit : ∀ n ∈ xs, n < numberLimit := fun n hn => Nat.lt_of_succ_lt (hxs n hn)
  -- What is written, read without its wildcard: up to three numbers leave none for build metadata.
  let w : WrittenVersion := ⟨ofNumbers xs [] [], min xs.length 3, false⟩
  have hn : 1 ≤ w.given := by
    have hpos : 0 < xs.length := List.length_pos_iff.mpr hne
    simp only [w]
    omega
  have hroom : w.version.Within (numberLimit - 2) :=
    within_ofNumbers (fun n hn => Nat.le_sub_of_add_le (hxs n hn)) [] []
  have hnumbers : WrittenVersion.ofChars (dottedNumbers xs) = .ok w := by
    rw [ofChars_dottedNumbers hne hlimit, extraNumbers, List.drop_eq_nil_of_le hlen]
    rfl
  have hwildcard : WrittenVersion.ofChars (dottedWildcard xs) = .ok { w with wildcard := true } :=
    ofChars_dottedWildcard hne hlimit
  obtain ⟨wild, hwild, hwild'⟩ :=
    exists_ofText_relation (isUncut_dottedWildcard xs) hwildcard .same
  obtain ⟨caret, hcaret, hcaret'⟩ :=
    exists_ofText_relation (isUncut_dottedNumbers xs) hnumbers .caret
  obtain ⟨tilde, htilde, htilde'⟩ :=
    exists_ofText_relation (isUncut_dottedNumbers xs) hnumbers .tilde
  refine ⟨wild, caret, tilde, hwild, hcaret, htilde, ?_, ?_⟩
  · intro v
    rw [hwild', htilde']
    exact wildcard_subset_tilde hn hroom v
  · simp only [hwild', hcaret']
    rw [wildcard_subset_caret_iff hn hroom]
    rcases xs with _ | ⟨a, _ | ⟨b, _ | ⟨c, xs⟩⟩⟩ <;> simp [w, ofNumbers]

/-- Below the next change of a leading zero number, a pre-release is still in all three. -/
theorem wildcard_within_caret_iff_preRelease :
    let xs := [0, 3]
    let v : Version := ⟨0, 4, 0, [⟨"rc".toList⟩], []⟩
    (xs ≠ [] ∧ xs.length ≤ 3 ∧ ∀ n ∈ xs, n + 1 < numberLimit) ∧
      ∃ wild caret tilde, ofText "0.3.x" = .ok wild ∧ ofText "^0.3" = .ok caret ∧
        ofText "~0.3" = .ok tilde ∧ wild.contains v = true ∧ caret.contains v = true ∧
        tilde.contains v = true := by
  intro xs v
  have hne : xs ≠ [] := nofun
  have hlen : xs.length ≤ 3 := by decide
  have hxs : ∀ n ∈ xs, n + 1 < numberLimit := by decide
  obtain ⟨wild, caret, tilde, hwild, hcaret, htilde, hwithin, hiff⟩ :=
    wildcard_within_caret_iff hne hlen hxs
  have hv : wild.contains v = true := by
    have he : ofText (String.ofList (dottedWildcard xs)) =
        .ok ⟨[halfOpen (release 0 3 0) (release 0 4 0)]⟩ := by decide +kernel
    rw [he, Except.ok.injEq] at hwild
    rw [← hwild]
    decide +kernel
  exact ⟨⟨hne, hlen, hxs⟩, wild, caret, tilde, hwild, hcaret, htilde, hv,
    hiff.mpr (by decide) v hv, hwithin v hv⟩

/-- The limit of the caret does not see how many numbers are written, and so a zero that is missing
counts like one that is there. -/
theorem not_within_caret_of_zero :
    ∃ wild caret, ofText "0.x" = .ok wild ∧ ofText "^0" = .ok caret ∧
      wild.contains (release 0 5 0) = true ∧ caret.contains (release 0 5 0) = false :=
  ⟨⟨[halfOpen (release 0 0 0) (release 1 0 0)]⟩, ⟨[halfOpen (release 0 0 0) (release 0 0 1)]⟩,
    by decide +kernel, by decide +kernel, by decide +kernel, by decide +kernel⟩

/-- In front of a version with a major number that is not zero, the caret and the tilde leave out the
next major version, and so does the wildcard behind the number itself. Of its pre-releases the caret
and the wildcard hold all, and the tilde none where a minor number is written. -/
theorem compatible_below_nextMajor {p : List Char} {w : WrittenVersion} (h : IsUncut p)
    (hw : WrittenVersion.ofChars p = .ok w) (hpos : 1 ≤ w.version.major)
    (hlimit : w.version.major + 1 < numberLimit) :
    ∃ caret tilde wild, ofText (String.ofList ('^' :: p)) = .ok caret ∧
      ofText (String.ofList ('~' :: p)) = .ok tilde ∧
      ofText (String.ofList (dottedWildcard [w.version.major])) = .ok wild ∧
      ∀ v, (caret.contains v = true ↔ w.version ≤ v ∧
          (v.major = w.version.major ∨ v.IsPreReleaseOf (w.version.major + 1) 0 0)) ∧
        (tilde.contains v = true →
          v.major = w.version.major ∨ w.given = 1 ∧ v.IsPreReleaseOf (w.version.major + 1) 0 0) ∧
        (wild.contains v = true ↔ release w.version.major 0 0 ≤ v ∧
          (v.major = w.version.major ∨ v.IsPreReleaseOf (w.version.major + 1) 0 0)) := by
  have hn : 1 ≤ w.given := by
    refine (WrittenVersion.eq_or_given_pos hw).resolve_left ?_
    rintro rfl
    cases hpos
  have hone : ∀ n ∈ [w.version.major], n < numberLimit := by simpa using Nat.lt_of_succ_lt hlimit
  let first : WrittenVersion := ⟨release w.version.major 0 0, 1, false⟩
  have hfirst : WrittenVersion.ofChars (dottedWildcard [w.version.major]) =
      .ok { first with wildcard := true } := ofChars_dottedWildcard (List.cons_ne_nil _ _) hone
  obtain ⟨caret, hcaret, hcaret'⟩ := exists_ofText_relation h hw .caret
  obtain ⟨tilde, htilde, htilde'⟩ := exists_ofText_relation h hw .tilde
  obtain ⟨wild, hwild, hwild'⟩ := exists_ofText_relation (isUncut_dottedWildcard _) hfirst .same
  refine ⟨caret, tilde, wild, hcaret, htilde, hwild, fun v => ⟨?_, ?_, ?_⟩⟩
  · rw [hcaret', contains_caret_iff hpos hlimit hn]
  · rw [htilde']
    exact major_of_contains_tilde hlimit hn
  · have hnext : first.next? = some (release (w.version.major + 1) 0 0) := by
      rw [← nextNumber_of_lt hlimit]
      rfl
    rw [hwild', ofRelation_wildcard (Nat.le_refl 1) hnext]
    exact contains_nextMajor_iff _ v

/-- For a pre-release too, the next major version is left out. -/
theorem compatible_below_nextMajor_candidate :
    let p := "1.2.3-rc.1".toList
    let w : WrittenVersion := ⟨⟨1, 2, 3, [⟨"rc".toList⟩, ⟨"1".toList⟩], []⟩, 3, false⟩
    (IsUncut p ∧ WrittenVersion.ofChars p = .ok w ∧ 1 ≤ w.version.major ∧
      w.version.major + 1 < numberLimit) ∧
      ∃ caret tilde wild, ofText "^1.2.3-rc.1" = .ok caret ∧ ofText "~1.2.3-rc.1" = .ok tilde ∧
        ofText "1.x" = .ok wild ∧ caret.contains (release 2 0 0) = false ∧
        tilde.contains (release 2 0 0) = false ∧ wild.contains (release 2 0 0) = false := by
  intro p w
  have h : IsUncut p := by decide +kernel
  have hw : WrittenVersion.ofChars p = .ok w := by decide +kernel
  have hpos : 1 ≤ w.version.major := by decide
  have hlimit : w.version.major + 1 < numberLimit := by decide
  obtain ⟨caret, tilde, wild, hcaret, htilde, hwild, hall⟩ :=
    compatible_below_nextMajor h hw hpos hlimit
  have htext : String.ofList (dottedWildcard [w.version.major]) = "1.x" := by decide +kernel
  rw [htext] at hwild
  obtain ⟨hc, ht, hx⟩ := hall (release 2 0 0)
  have hmajor : ¬(release 2 0 0).major = w.version.major := by decide
  have hpre : ¬(release 2 0 0).IsPreReleaseOf (w.version.major + 1) 0 0 :=
    fun hpre => hpre.2.2.2 rfl
  refine ⟨⟨h, hw, hpos, hlimit⟩, caret, tilde, wild, hcaret, htilde, hwild, ?_, ?_, ?_⟩
  · exact Bool.eq_false_iff.mpr fun hv => (hc.mp hv).2.elim hmajor hpre
  · exact Bool.eq_false_iff.mpr fun hv => (ht hv).elim hmajor fun hv => hpre hv.2
  · exact Bool.eq_false_iff.mpr fun hv => (hx.mp hv).2.elim hmajor hpre

/-- The bound itself is left out, and not what leads up to it. -/
theorem compatible_holds_nextMajor_preRelease :
    let v : Version := ⟨2, 0, 0, [⟨"alpha".toList⟩], []⟩
    ∃ caret wild, ofText "^1.2.3" = .ok caret ∧ ofText "1.x" = .ok wild ∧
      caret.contains v = true ∧ wild.contains v = true ∧ v.major ≠ 1 :=
  ⟨⟨[halfOpen (release 1 2 3) (release 2 0 0)]⟩, ⟨[halfOpen (release 1 0 0) (release 2 0 0)]⟩,
    by decide +kernel, by decide +kernel, by decide +kernel, by decide +kernel, by decide⟩

end VersionRange
end DependencyAudit
