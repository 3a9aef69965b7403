import Mathlib.Data.Nat.Notation
import DependencyAudit.Cache.Rehearsal
import DependencyAudit.Proofs.Cache.View

/-! A store that fails as planned is still a store: what it holds changes by whole batches or not at
all. As many commits succeed as are planned, and none after them. -/
namespace DependencyAudit

namespace Rehearsal

variable {lifetime : Lifetime}

/-- A commit fails and leaves all as it was, or it puts its whole batch in place. -/
theorem commit_cases (lifetime : Lifetime) (now : Timestamp) (batch : List (String × Entry))
    (r : Rehearsal) :
    (∃ e, (store lifetime).commit now batch r = (.error e, r)) ∨
      ∃ left, (store lifetime).commit now batch r =
        (.ok (), { r with entries := r.entries.putAll batch, commitsLeft := left }) := by
  simp only [store, commit]
  split
  · exact Or.inl ⟨_, rfl⟩
  · split
    · exact Or.inl ⟨_, rfl⟩
    · exact Or.inr ⟨_, rfl⟩
    · exact Or.inr ⟨r.commitsLeft, rfl⟩

section

variable {now : Timestamp} {batch : List (String × Entry)} {r r' : Rehearsal}

theorem get?_fetch {keys : List String} {found : Entries}
    (h : (store lifetime).fetch now keys r = .ok found) {key : String} (hk : key ∈ keys) :
    found.get? key = (r.entries.get? key).filter fun e => !e.isExpired lifetime now := by
  simp only [store] at h
  split at h <;> cases h
  rw [Entries.get?_getMany, if_pos hk, Entries.getLive?_eq]

theorem get?_commit (h : (store lifetime).commit now batch r = (.ok (), r')) (key : String) :
    r'.entries.get? key = (lastUnder key batch).or (r.entries.get? key) := by
  rcases commit_cases lifetime now batch r with ⟨e, hc⟩ | ⟨left, hc⟩ <;> rw [hc] at h <;> cases h
  exact Entries.get?_putAll r.entries batch key

theorem eq_of_commit_error {e : CommitFailure}
    (h : (store lifetime).commit now batch r = (.error e, r')) : r' = r := by
  rcases commit_cases lifetime now batch r with ⟨e, hc⟩ | ⟨left, hc⟩ <;> rw [hc] at h <;> cases h
  rfl

end

/-- Its entries are seen as they would be in memory. -/
def view (lifetime : Lifetime) : (store lifetime).View where
  content r := (memoryView lifetime).content r.entries
  isLive := (memoryView lifetime).isLive
  drops := (memoryView lifetime).drops
  not_live_of_drops := (memoryView lifetime).not_live_of_drops
  get?_fetch h _ hk := get?_fetch h hk
  overlays_commit _ _ h key := Or.inl (get?_commit h key)
  content_of_error _ _ h := by rw [eq_of_commit_error h]

theorem failReads_after (before : List (Timestamp × List (String × Entry))) (r : Rehearsal) :
    ((store lifetime).after before r).failReads = r.failReads := by
  induction before generalizing r with
  | nil => rfl
  | cons call before ih =>
    obtain ⟨now, batch⟩ := call
    rw [Store.after, ih]
    rcases commit_cases lifetime now batch r with ⟨e, hc⟩ | ⟨left, hc⟩ <;> rw [hc]

/-- Commits do not keep it from being read. -/
theorem reads_iff {r : Rehearsal} : (store lifetime).Reads r ↔ r.failReads = false := by
  constructor
  · intro h
    obtain ⟨found, hf⟩ := h.fetch Entry.blank.createdAt []
    rw [← Bool.not_eq_true]
    intro hfail
    simp [store, hfail] at hf
  · intro h before now keys
    rw [← failReads_after before r] at h
    exact ⟨_, if_neg (Bool.eq_false_iff.mp h)⟩

/-- Of the commits in a row those that are planned succeed, and the others write nothing. -/
theorem commit_after {r : Rehearsal} {n : ℕ} (hn : r.commitsLeft = some n)
    (hb : r.breakCommits = false) (before : List (Timestamp × List (String × Entry)))
    (now : Timestamp) (batch : List (String × Entry)) :
    ((store lifetime).commit now batch ((store lifetime).after before r)).1 =
      if before.length < n then .ok () else .error (.cache (.write path batch.length reason)) := by
  induction before generalizing r n with
  | nil => cases n <;> simp [Store.after, store, commit, hn, hb]
  | cons call before ih =>
    obtain ⟨earlier, written⟩ := call
    rw [Store.after]
    cases n with
    | zero =>
      have hsame : ((store lifetime).commit earlier written r).2 = r := by
        simp [store, commit, hn, hb]
      rw [hsame, ih hn hb]
      rfl
    | succ n =>
      have hnext : ((store lifetime).commit earlier written r).2.commitsLeft = some n ∧
          ((store lifetime).commit earlier written r).2.breakCommits = false := by
        simp [store, commit, hn, hb]
      rw [ih hnext.1 hnext.2, List.length_cons]
      simp only [Nat.add_lt_add_iff_right]

end Rehearsal
end DependencyAudit
