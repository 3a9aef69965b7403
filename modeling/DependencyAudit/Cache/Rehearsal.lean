import DependencyAudit.Cache.Store

/-! A store in memory that fails as planned, to try out how its user copes. -/
namespace DependencyAudit

structure Rehearsal where
  entries : Entries
  /-- Commits that still succeed; no number means all of them. -/
  commitsLeft : Option Nat
  failReads : Bool
  breakCommits : Bool
deriving DecidableEq

namespace Rehearsal

def path : String := "flaky"

def reason : String := "disk full"

def commit (batch : List (String × Entry)) (r : Rehearsal) : Except CommitFailure Unit × Rehearsal :=
  if r.breakCommits then (.error .task, r)
  else match r.commitsLeft with
    | some 0 => (.error (.cache (.write path batch.length reason)), r)
    | some (n + 1) => (.ok (), { r with entries := r.entries.putAll batch, commitsLeft := some n })
    | none => (.ok (), { r with entries := r.entries.putAll batch })

def store (lifetime : Lifetime) : Store Rehearsal where
  get now key r :=
    if r.failReads then .error (.read path reason) else .ok (r.entries.getLive? lifetime now key)
  fetch now keys r :=
    if r.failReads then .error (.read path reason) else .ok (r.entries.getMany lifetime now keys)
  commit _ batch r := r.commit batch
  clear r := (.ok (), { r with entries := .empty })

end Rehearsal
end DependencyAudit
