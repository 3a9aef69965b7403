import Mathlib.Data.Nat.Notation
import DependencyAudit.Cache.Store
import DependencyAudit.Proofs.Instant

/-! Calls of a store in turn, and sessions in which the calls go through handles on one file. -/
namespace DependencyAudit

inductive StoreCall where
  | get (key : String)
  | getMany (keys : List String)
  | commit (batch : List (String × Entry))
  | clear
deriving DecidableEq

/-- The pairs that a call brings. -/
def StoreCall.batch : StoreCall → List (String × Entry)
  | .commit batch => batch
  | _ => []

/-- Whether a call reads what is under a key. -/
def StoreCall.AsksFor (key : String) : StoreCall → Prop
  | .get k => k = key
  | .getMany keys => key ∈ keys
  | _ => False

structure TimedCall where
  now : Timestamp
  call : StoreCall
deriving DecidableEq

inductive StoreReply where
  | entry (found : Option Entry)
  | entries (found : Entries)
  | done
deriving DecidableEq

def StoreReply.under (key : String) : StoreReply → Option Entry
  | .entry found => found
  | .entries found => found.get? key
  | .done => none

abbrev StoreOutcome := Except CommitFailure StoreReply

namespace Store

variable {σ : Type}

def perform (store : Store σ) (c : TimedCall) (s : σ) : StoreOutcome × σ :=
  match c.call with
  | .get key => (((store.get c.now key s).map .entry).mapError .cache, s)
  | .getMany keys => (((store.fetch c.now keys s).map .entries).mapError .cache, s)
  | .commit batch => ((store.commit c.now batch s).1.map fun _ => .done, (store.commit c.now batch s).2)
  | .clear => (((store.clear s).1.map fun _ => .done).mapError .cache, (store.clear s).2)

def replies (store : Store σ) : List TimedCall → σ → List StoreOutcome
  | [], _ => []
  | c :: calls, s => (store.perform c s).1 :: store.replies calls (store.perform c s).2

def stateAfter (store : Store σ) (calls : List TimedCall) (s : σ) : σ :=
  calls.foldl (fun s c => (store.perform c s).2) s

theorem length_replies (store : Store σ) (calls : List TimedCall) (s : σ) :
    (store.replies calls s).length = calls.length := by
  induction calls generalizing s with
  | nil => rfl
  | cons c calls ih => simp [replies, ih]

theorem replies_append (store : Store σ) (before after : List TimedCall) (s : σ) :
    store.replies (before ++ after) s =
      store.replies before s ++ store.replies after (store.stateAfter before s) := by
  induction before generalizing s with
  | nil => rfl
  | cons c before ih => simp [replies, stateAfter, ih]

end Store

/-- The calls come at times that never go back, and name points of universal time only. -/
structure Timely (calls : List TimedCall) : Prop where
  ordered : calls.Pairwise fun c c' => c.now.instant ≤ c'.now.instant
  now : ∀ c ∈ calls, c.now.IsUniversal
  created : ∀ c ∈ calls, ∀ x ∈ c.call.batch, x.2.createdAt.IsUniversal

instance (calls : List TimedCall) : Decidable (Timely calls) :=
  decidable_of_iff (calls.Pairwise (fun c c' => c.now.instant ≤ c'.now.instant) ∧
      (∀ c ∈ calls, c.now.IsUniversal) ∧
      ∀ c ∈ calls, ∀ x ∈ c.call.batch, x.2.createdAt.IsUniversal)
    ⟨fun ⟨ho, hn, hc⟩ => ⟨ho, hn, hc⟩, fun ⟨ho, hn, hc⟩ => ⟨ho, hn, hc⟩⟩

theorem Timely.sublist {calls calls' : List TimedCall} (h : Timely calls)
    (hs : calls'.Sublist calls) : Timely calls' where
  ordered := h.ordered.sublist hs
  now c hc := h.now c (hs.subset hc)
  created c hc := h.created c (hs.subset hc)

/-- What a call leaves of the pairs written before it, with its own. -/
def StoreCall.writtenAfter (ps : List (String × Entry)) : StoreCall → List (String × Entry)
  | .commit batch => ps ++ batch
  | .clear => []
  | _ => ps

/-- The pairs written since all was cleared last. -/
def written (calls : List TimedCall) : List (String × Entry) :=
  calls.foldl (fun ps c => c.call.writtenAfter ps) []

inductive SessionStep where
  | opening
  /-- A call through the handle that was opened as number `handle`, counted from zero. -/
  | calling (handle : ℕ) (c : TimedCall)
deriving DecidableEq

/-- The calls that are made when every opening gives a handle. There is no call through a handle that
is not open. -/
def issued : ℕ → List SessionStep → List TimedCall
  | _, [] => []
  | opened, .opening :: steps => issued (opened + 1) steps
  | opened, .calling handle c :: steps =>
    if handle < opened then c :: issued opened steps else issued opened steps

/-- The calls on a disk, each with its outcome. An opening that fails gives no handle. -/
def session (path : String) (hours : ℕ) :
    List SessionStep → List FileStore → Disk → List (TimedCall × StoreOutcome)
  | [], _, _ => []
  | .opening :: steps, handles, d =>
    match FileStore.openAt path hours d with
    | (.ok f, d) => session path hours steps (handles ++ [f]) d
    | (.error _, d) => session path hours steps handles d
  | .calling handle c :: steps, handles, d =>
    match handles[handle]? with
    | some f =>
      (c, ((fileStore f).perform c d).1) ::
        session path hours steps handles ((fileStore f).perform c d).2
    | none => session path hours steps handles d

section

variable {path : String} {hours handle : ℕ} {steps : List SessionStep} {handles : List FileStore}
  {f : FileStore} {d d' : Disk} {c : TimedCall}

theorem session_opening (h : FileStore.openAt path hours d = (.ok f, d')) :
    session path hours (.opening :: steps) handles d =
      session path hours steps (handles ++ [f]) d' := by
  simp only [session, h]

theorem session_opening_error {e : CacheError} (h : FileStore.openAt path hours d = (.error e, d')) :
    session path hours (.opening :: steps) handles d = session path hours steps handles d' := by
  simp only [session, h]

theorem session_calling (h : handles[handle]? = some f) :
    session path hours (.calling handle c :: steps) handles d =
      (c, ((fileStore f).perform c d).1) ::
        session path hours steps handles ((fileStore f).perform c d).2 := by
  simp only [session, h]

theorem session_calling_none (h : handles[handle]? = none) :
    session path hours (.calling handle c :: steps) handles d =
      session path hours steps handles d := by
  simp only [session, h]

end

end DependencyAudit
