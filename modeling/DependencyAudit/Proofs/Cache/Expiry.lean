import DependencyAudit.Proofs.Instant
import DependencyAudit.Proofs.Timestamp

/-! When an entry expires: as soon as it is older than its hours, however many these are. Hours that are
too many to be counted are cut down to a span that no two points in time are apart. The age itself is
exact on the clock of universal time; a leap second at another hour of the day puts it off by one. -/
namespace DependencyAudit

open Timestamp (nanosPerSecond)

namespace Lifetime

theorem eq_of_word? {n m : ℤ} (h : word? n = some m) : m = n := by
  rw [word?] at h
  split at h <;> cases h
  rfl

/-- Whichever number is found to be too large first, the hours are refused exactly if they are longer
than is counted. -/
theorem ofHours?_eq (hours : ℕ) : ofHours? hours =
    if (hours * 3600 : ℤ) ≤ greatest / 1000 then some (ofMilliseconds (hours * 3600 * 1000))
    else none := by
  have hgreatest : greatest = 0x7fffffffffffffff := rfl
  by_cases h : (hours * 3600 : ℤ) ≤ greatest / 1000
  · have hhours : word? hours = some (hours : ℤ) := if_pos (by omega)
    have hseconds : word? (hours * 3600) = some (hours * 3600 : ℤ) := if_pos (by omega)
    rw [if_pos h, ofHours?, hhours, Option.bind_eq_bind, Option.bind_some, hseconds]
    exact if_pos (by omega)
  · rw [if_neg h, Option.eq_none_iff_forall_ne_some]
    intro lifetime hcounted
    simp only [ofHours?, Option.bind_eq_bind, Option.bind_eq_some_iff] at hcounted
    obtain ⟨_, hhours, _, hseconds, hspan⟩ := hcounted
    rw [eq_of_word? hseconds, eq_of_word? hhours, ofSeconds?, if_neg fun hs => h hs.2] at hspan
    cases hspan

/-- Nothing wraps: the hours are counted exactly, and those past the greatest span count as that. -/
theorem nanos_ofHours (hours : ℕ) :
    (ofHours hours).nanos = min (hours * 3600 * nanosPerSecond : ℤ) longest.nanos := by
  have hgreatest : greatest = 0x7fffffffffffffff := rfl
  rw [ofHours, ofHours?_eq]
  by_cases h : (hours * 3600 : ℤ) ≤ greatest / 1000
  · rw [if_pos h, Option.getD_some]
    simp only [longest, ofMilliseconds, nanosPerSecond]
    omega
  · rw [if_neg h, Option.getD_none]
    simp only [longest, ofMilliseconds, nanosPerSecond]
    omega

theorem nanos_ofHours_mono {hours more : ℕ} (h : hours ≤ more) :
    (ofHours hours).nanos ≤ (ofHours more).nanos := by
  simp only [nanos_ofHours, nanosPerSecond]
  omega

end Lifetime

namespace Date

theorem daysBefore_le (year : ℤ) (month : ℕ) : daysBefore year month ≤ 31 * month := by
  induction month with
  | zero => exact Nat.le_refl 0
  | succ month ih =>
    have hdays := Timestamp.daysIn_le year month
    rw [daysBefore]
    by_cases h : month = 0
    · rw [if_pos h]
      omega
    · rw [if_neg h]
      omega

theorem number_bounds {d : Date} (h : d.isValid = true) :
    -100000000 ≤ d.number ∧ d.number ≤ 100000000 := by
  obtain ⟨hlow, hhigh, -, hmonth, -, hday⟩ := Timestamp.isValid_iff.mp h
  have hbefore := daysBefore_le d.year d.month
  have hdays := Timestamp.daysIn_le d.year d.month
  rw [firstYear] at hlow
  rw [lastYear] at hhigh
  simp only [number]
  omega

end Date

namespace Timestamp

/-- A leap second is counted or left out by its time of day, so the age is off by a second at most. -/
theorem exists_since_eq (t u : Timestamp) : ∃ leap : ℤ, -1 ≤ leap ∧ leap ≤ 1 ∧
    t.since u = u.instant - t.instant + leap * nanosPerSecond := by
  have hleap : ∃ leap : ℤ, -1 ≤ leap ∧ leap ≤ 1 ∧ t.since u =
      ((u.date.number - t.date.number) * secondsPerDay + (u.second - t.second : ℤ) + leap) *
        nanosPerSecond + (u.nano - t.nano : ℤ) := by
    refine ⟨_, ?_, ?_, rfl⟩
    all_goals split
    all_goals try split
    all_goals decide
  obtain ⟨leap, hlow, hhigh, heq⟩ := hleap
  refine ⟨leap, hlow, hhigh, ?_⟩
  rw [heq]
  simp only [instant, secondsPerDay, nanosPerSecond]
  omega

theorem natAbs_since_sub_le (t u : Timestamp) :
    (t.since u - (u.instant - t.instant)).natAbs ≤ nanosPerSecond := by
  obtain ⟨leap, hlow, hhigh, heq⟩ := exists_since_eq t u
  rw [heq, nanosPerSecond]
  omega

/-- No two points in time are further apart than is counted. -/
theorem since_bounds {t u : Timestamp} (ht : t.IsValid) (hu : u.IsValid) :
    -Lifetime.longest.nanos ≤ t.since u ∧ t.since u ≤ Lifetime.longest.nanos := by
  obtain ⟨htd, hts, htn, -⟩ := ht
  obtain ⟨hud, hus, hun, -⟩ := hu
  have htb := Date.number_bounds htd
  have hub := Date.number_bounds hud
  obtain ⟨leap, hlow, hhigh, heq⟩ := exists_since_eq t u
  have hlongest : Lifetime.longest.nanos = 0x7fffffffffffffff * 1000000 := rfl
  rw [heq, hlongest]
  simp only [instant, secondsPerDay, nanosPerSecond] at *
  omega

end Timestamp

variable {e : Entry} {now : Timestamp}

/-- An entry expires when it is older than its hours, to the nanosecond and for every number of hours.
Its age is the difference of the two points on the line of universal time, and within a second of it where
a leap second stands elsewhere than at the end of a day. Neither its lifetime nor its age overflows, and
no more hours make it expire earlier. -/
theorem Entry.expires_past_hours (hours : ℕ) (hc : e.createdAt.IsValid) (hn : now.IsValid) :
    (e.isExpired (.ofHours hours) now = true ↔
      (hours * 3600 * nanosPerSecond : ℤ) < e.createdAt.since now) ∧
    (e.createdAt.IsUniversal → now.IsUniversal →
      e.createdAt.since now = now.instant - e.createdAt.instant) ∧
    (e.createdAt.since now - (now.instant - e.createdAt.instant)).natAbs ≤ nanosPerSecond ∧
    (Lifetime.ofHours hours).nanos =
      min (hours * 3600 * nanosPerSecond : ℤ) Lifetime.longest.nanos ∧
    (-Lifetime.longest.nanos ≤ e.createdAt.since now ∧
      e.createdAt.since now ≤ Lifetime.longest.nanos) ∧
    ∀ more, hours ≤ more → e.isExpired (.ofHours more) now = true →
      e.isExpired (.ofHours hours) now = true := by
  have hnanos := Lifetime.nanos_ofHours hours
  have hbounds := Timestamp.since_bounds hc hn
  refine ⟨?_, Timestamp.since_eq, Timestamp.natAbs_since_sub_le _ _, hnanos, hbounds,
    fun more hmore hx => ?_⟩
  · rw [isExpired, decide_eq_true_iff, hnanos]
    omega
  · have hle := Lifetime.nanos_ofHours_mono hmore
    simp only [isExpired, decide_eq_true_eq] at hx ⊢
    omega

/-- Between the first point in time and the last, a leap second, there are less hours than are counted. -/
theorem Entry.expires_past_hours_first_last :
    let e : Entry := ⟨"", ⟨⟨-262143, 1, 1⟩, 0, 0⟩⟩
    let now : Timestamp := ⟨⟨262142, 12, 31⟩, 86399, 1999999999⟩
    (e.createdAt.IsValid ∧ now.IsValid) ∧ e.isExpired (.ofHours 4595796696) now = true ∧
      e.isExpired (.ofHours 4595796697) now = false ∧
      e.isExpired (.ofHours 0xffffffffffffffff) now = false := by
  intro e now
  have hc : e.createdAt.IsValid := by decide
  have hn : now.IsValid := by decide
  have hkept : e.isExpired (.ofHours 4595796697) now = false :=
    Bool.eq_false_iff.mpr (mt (expires_past_hours 4595796697 hc hn).1.mp (by decide))
  obtain ⟨hexpired, -⟩ := expires_past_hours (e := e) 4595796696 hc hn
  obtain ⟨-, -, -, -, -, hmono⟩ := expires_past_hours (e := e) 4595796697 hc hn
  refine ⟨⟨hc, hn⟩, hexpired.mpr (by decide), hkept, Bool.eq_false_iff.mpr fun hx => ?_⟩
  rw [hmono _ (by decide) hx] at hkept
  cases hkept

/-- An entry of a leap second before noon has expired by the end of the day, when the second is counted,
and is live again at midnight, when it is not. So its age is no difference, however the points in time are
numbered in their order. -/
theorem Entry.expired_then_live :
    let e : Entry := ⟨"v", ⟨⟨2020, 1, 1⟩, 43199, 1500000000⟩⟩
    let evening : Timestamp := ⟨⟨2020, 1, 1⟩, 86399, 900000000⟩
    let midnight : Timestamp := ⟨⟨2020, 1, 2⟩, 0, 0⟩
    (e.createdAt.IsValid ∧ evening.IsValid ∧ midnight.IsValid) ∧
      evening.instant < midnight.instant ∧ e.isExpired (.ofHours 12) evening = true ∧
      e.isExpired (.ofHours 12) midnight = false ∧
      ∀ line : Timestamp → ℤ, line evening ≤ line midnight →
        ¬∀ now ∈ [evening, midnight], e.isExpired (.ofHours 12) now = true ↔
          (12 * 3600 * nanosPerSecond : ℤ) < line now - line e.createdAt := by
  intro e evening midnight
  have hexpired : e.isExpired (.ofHours 12) evening = true := by decide
  have hlive : e.isExpired (.ofHours 12) midnight = false := by decide
  refine ⟨by decide, by decide, hexpired, hlive, fun line hle hall => ?_⟩
  simp only [List.forall_mem_cons, hexpired, hlive, Bool.false_eq_true, true_iff, false_iff] at hall
  omega

end DependencyAudit
