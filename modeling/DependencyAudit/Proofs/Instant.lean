import Mathlib.Data.Int.Notation
import DependencyAudit.Cache.Entry

/-! Universal time as a line, on which the time between two points is a difference and what has
expired stays so. -/
namespace DependencyAudit

namespace Timestamp

/-- A leap second stands only at the end of a day. -/
def IsUniversal (t : Timestamp) : Prop :=
  t.IsValid ∧ (nanosPerSecond ≤ t.nano → t.second + 1 = secondsPerDay)

instance (t : Timestamp) : Decidable t.IsUniversal :=
  inferInstanceAs (Decidable (_ ∧ (_ → _)))

/-- The nanoseconds since the first day of the year zero. -/
def instant (t : Timestamp) : ℤ :=
  (t.date.number * secondsPerDay + t.second) * nanosPerSecond + t.nano

/-- No leap second comes between two times of one day, so none is ever counted. -/
theorem since_eq {t u : Timestamp} (ht : t.IsUniversal) (hu : u.IsUniversal) :
    t.since u = u.instant - t.instant := by
  obtain ⟨⟨-, hts, -⟩, htl⟩ := ht
  obtain ⟨⟨-, hus, -⟩, hul⟩ := hu
  have hlate : ¬(u.second > t.second ∧ t.nano ≥ nanosPerSecond) := by omega
  have hearly : ¬(u.second < t.second ∧ u.nano ≥ nanosPerSecond) := by omega
  simp only [since, if_neg hlate, if_neg hearly]
  simp only [instant, secondsPerDay, nanosPerSecond]
  omega

end Timestamp

theorem Entry.isExpired_mono {e : Entry} {lifetime : Lifetime} {now later : Timestamp}
    (he : e.createdAt.IsUniversal) (hn : now.IsUniversal) (hl : later.IsUniversal)
    (h : now.instant ≤ later.instant) (hx : e.isExpired lifetime now = true) :
    e.isExpired lifetime later = true := by
  simp only [isExpired, decide_eq_true_eq] at hx ⊢
  rw [Timestamp.since_eq he hn] at hx
  rw [Timestamp.since_eq he hl]
  omega

end DependencyAudit
