import Mathlib.Data.List.Nodup
import DependencyAudit.Proofs.Cache.Document
import DependencyAudit.Proofs.Cache.Session
import DependencyAudit.Proofs.Cache.View

/-! A store that drops what has expired when it commits gives the answers of one that keeps all. -/
namespace DependencyAudit

namespace Entries

variable {es es' : Entries} {lifetime : Lifetime} {now : Timestamp}

theorem sorted_putAll (h : es.pairs.Pairwise fun x y => Text.order x.1 y.1 = .lt)
    (ps : List (String × Entry)) :
    (es.putAll ps).pairs.Pairwise fun x y => Text.order x.1 y.1 = .lt := by
  induction ps generalizing es with
  | nil => exact h
  | cons p ps ih => exact ih (sorted_insert p.1 p.2 h)

theorem nodup_keys_of_sorted (h : es.pairs.Pairwise fun x y => Text.order x.1 y.1 = .lt) :
    (es.pairs.map (·.1)).Nodup := by
  refine List.pairwise_map.mpr (h.imp fun {x y} hlt heq => ?_)
  rw [heq, Text.order_self] at hlt
  cases hlt

theorem mem_iff_of_sorted (h : es.pairs.Pairwise fun x y => Text.order x.1 y.1 = .lt)
    (x : String × Entry) : x ∈ es.pairs ↔ es.get? x.1 = some x.2 := by
  constructor
  · intro hx
    obtain ⟨y, hy⟩ : ∃ y, es.pairs.find? (·.1 == x.1) = some y := by
      rw [← Option.isSome_iff_exists, List.find?_isSome]
      exact ⟨x, hx, by simp⟩
    have hkey : y.1 = x.1 := by simpa using List.find?_some hy
    obtain rfl : y = x := List.inj_on_of_nodup_map (nodup_keys_of_sorted h)
      (List.mem_of_find?_eq_some hy) hx hkey
    rw [get?, hy, Option.map_some]
  · intro hx
    obtain ⟨y, hy, hvalue⟩ := Option.map_eq_some_iff.mp hx
    have hkey : y.1 = x.1 := by simpa using List.find?_some hy
    obtain rfl : y = x := Prod.ext hkey hvalue
    exact List.mem_of_find?_eq_some hy

/-- Entries are what is found under their keys. -/
theorem ext_of_sorted (h : es.pairs.Pairwise fun x y => Text.order x.1 y.1 = .lt)
    (h' : es'.pairs.Pairwise fun x y => Text.order x.1 y.1 = .lt)
    (hg : ∀ key, es.get? key = es'.get? key) : es = es' := by
  have hperm : es.pairs.Perm es'.pairs := by
    rw [List.perm_ext_iff_of_nodup (nodup_keys_of_sorted h).of_map (nodup_keys_of_sorted h').of_map]
    intro x
    rw [mem_iff_of_sorted h, mem_iff_of_sorted h', hg]
  have hpairs : es.pairs = es'.pairs := hperm.eq_of_pairwise (fun x y _ _ hlt hgt => by
    rw [← Text.order_gt_iff, hlt] at hgt
    cases hgt) h h'
  cases es
  cases es'
  exact congrArg mk hpairs

/-- Taking entries out as they are read, or reading them one by one, gives the same. -/
theorem takeMany_eq_getMany {keys : List String}
    (h : ∀ key ∈ keys, es.getLive? lifetime now key = es'.getLive? lifetime now key) :
    es.takeMany lifetime now keys = es'.getMany lifetime now keys := by
  refine ext_of_sorted (sorted_putAll List.Pairwise.nil _) (sorted_putAll List.Pairwise.nil _) ?_
  intro key
  rw [get?_takeMany, get?_getMany]
  split
  · rename_i hk
    exact h key hk
  · rfl

end Entries

/-- What a store in a file does, as a store whose state is the entries. -/
def pruningStore (lifetime : Lifetime) : Store Entries where
  get now key es := .ok ((es.takeMany lifetime now [key]).get? key)
  fetch now keys es := .ok (es.takeMany lifetime now keys)
  commit now batch es :=
    (.ok (), if batch.isEmpty then es else (es.live lifetime now).putAll batch)
  clear _ := (.ok (), .empty)

/-- The entries `es` are `all` without some that have expired, so that from the instant `start` on
no reader can tell them apart. -/
structure Pruned (lifetime : Lifetime) (start : ℤ) (all es : Entries) : Prop where
  kept : es.Kept
  created : ∀ {key e}, all.get? key = some e → e.createdAt.IsUniversal
  getLive?_eq : ∀ {now}, now.IsUniversal → start ≤ now.instant →
    ∀ key, es.getLive? lifetime now key = all.getLive? lifetime now key

namespace Pruned

variable {lifetime : Lifetime} {start : ℤ} {all es : Entries} {now later : Timestamp}
  {batch : List (String × Entry)}

theorem empty (lifetime : Lifetime) (start : ℤ) : Pruned lifetime start .empty .empty where
  kept := Entries.kept_empty
  created h := by cases h
  getLive?_eq _ _ _ := rfl

theorem mono {start' : ℤ} (h : Pruned lifetime start all es) (hs : start ≤ start') :
    Pruned lifetime start' all es where
  kept := h.kept
  created := h.created
  getLive?_eq hn hp := h.getLive?_eq hn (Int.le_trans hs hp)

/-- An entry that is dropped has expired for every later reader too. -/
theorem filter_getLive? (h : Pruned lifetime start all es) (hn : now.IsUniversal)
    (hs : start ≤ now.instant) (hl : later.IsUniversal) (hle : now.instant ≤ later.instant)
    (key : String) :
    (es.getLive? lifetime now key).filter (fun e => !e.isExpired lifetime later) =
      all.getLive? lifetime later key := by
  rw [h.getLive?_eq hn hs]
  simp only [Entries.getLive?]
  cases he : all.get? key with
  | none => rfl
  | some e =>
    cases hx : e.isExpired lifetime now with
    | false => simp [Option.filter_some, hx]
    | true => simp [Option.filter_some, hx, Entry.isExpired_mono (h.created he) hn hl hle hx]

theorem commit (h : Pruned lifetime start all es) (hn : now.IsUniversal)
    (hs : start ≤ now.instant) (hb : ∀ x ∈ batch, x.2.createdAt.IsUniversal) :
    Pruned lifetime now.instant (all.putAll batch) ((es.live lifetime now).putAll batch) where
  kept := (h.kept.live lifetime now).putAll fun x hx => (hb x hx).1
  created := by
    intro key e he
    rw [Entries.get?_putAll] at he
    cases hlast : lastUnder key batch with
    | none =>
      rw [hlast] at he
      exact h.created he
    | some e' =>
      rw [hlast] at he
      cases he
      exact hb (key, e) (mem_of_lastUnder hlast)
  getLive?_eq := by
    intro later hl hle key
    have hrest := h.filter_getLive? hn hs hl hle key
    rw [← h.kept.get?_live] at hrest
    simp only [Entries.getLive?, Entries.get?_putAll] at hrest ⊢
    cases lastUnder key batch with
    | none => exact hrest
    | some e => rfl

/-- One call gives the same answer, and leaves entries that cannot be told apart. -/
theorem perform {c : TimedCall} (h : Pruned lifetime start all es) (hn : c.now.IsUniversal)
    (hs : start ≤ c.now.instant) (hb : ∀ x ∈ c.call.batch, x.2.createdAt.IsUniversal) :
    ((pruningStore lifetime).perform c es).1 = ((memoryStore lifetime).perform c all).1 ∧
      Pruned lifetime c.now.instant ((memoryStore lifetime).perform c all).2
        ((pruningStore lifetime).perform c es).2 := by
  obtain ⟨now, call⟩ := c
  have hlive := h.getLive?_eq hn hs
  cases call with
  | get key =>
    have hget : (es.takeMany lifetime now [key]).get? key = all.getLive? lifetime now key := by
      rw [Entries.get?_takeMany, if_pos List.mem_cons_self, hlive]
    exact ⟨by simp only [Store.perform, pruningStore, memoryStore, hget], h.mono hs⟩
  | getMany keys =>
    have hmany : es.takeMany lifetime now keys = all.getMany lifetime now keys :=
      Entries.takeMany_eq_getMany fun key _ => hlive key
    exact ⟨by simp only [Store.perform, pruningStore, memoryStore, hmany], h.mono hs⟩
  | commit batch =>
    refine ⟨rfl, ?_⟩
    by_cases hbatch : batch = []
    · subst hbatch
      exact h.mono hs
    · have hcommit : Pruned lifetime now.instant (all.putAll batch)
          ((es.live lifetime now).putAll batch) := h.commit hn hs hb
      simpa [Store.perform, pruningStore, memoryStore, hbatch] using hcommit
  | clear => exact ⟨rfl, empty lifetime _⟩

end Pruned

/-- What has been dropped is never missed. -/
theorem replies_pruningStore {lifetime : Lifetime} {start : ℤ} {all es : Entries}
    {calls : List TimedCall} (h : Pruned lifetime start all es) (hc : Timely calls)
    (hs : ∀ c ∈ calls, start ≤ c.now.instant) :
    (pruningStore lifetime).replies calls es = (memoryStore lifetime).replies calls all := by
  induction calls generalizing start all es with
  | nil => rfl
  | cons c calls ih =>
    obtain ⟨hreply, hnext⟩ := h.perform (hc.now c List.mem_cons_self) (hs c List.mem_cons_self)
      (hc.created c List.mem_cons_self)
    have hrest := ih hnext (hc.sublist (List.sublist_cons_self c calls))
      (List.pairwise_cons.mp hc.ordered).1
    simp only [Store.replies, hreply, hrest]

theorem replies_pruningStore_empty (lifetime : Lifetime) {calls : List TimedCall}
    (hc : Timely calls) :
    (pruningStore lifetime).replies calls .empty = (memoryStore lifetime).replies calls .empty := by
  cases calls with
  | nil => rfl
  | cons c calls =>
    have hfirst := (List.pairwise_cons.mp hc.ordered).1
    exact replies_pruningStore (Pruned.empty lifetime c.now.instant) hc
      (List.forall_mem_cons.mpr ⟨Int.le_refl _, hfirst⟩)

end DependencyAudit
