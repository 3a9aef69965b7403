import DependencyAudit.Proofs.Lookup.Shelves
import DependencyAudit.Proofs.Lookup.WarmCache

/-! The requests of a run: every package that is not cached once and in order, in batches that are
full but for the last, and each of them only after the one before was answered and committed. -/
namespace DependencyAudit

namespace Batch

variable {α : Type} {size : ℕ} {xs b : List α}

theorem ne_nil_of_mem_chunks (h : b ∈ chunks size xs) : b ≠ [] := by
  fun_induction chunks size xs with
  | case1 => cases h
  | case2 x xs ih =>
    rcases List.mem_cons.mp h with rfl | h
    · exact List.cons_ne_nil _ _
    · exact ih h

theorem length_of_mem_dropLast_chunks (hs : 0 < size) (h : b ∈ (chunks size xs).dropLast) :
    b.length = size := by
  fun_induction chunks size xs with
  | case1 => cases h
  | case2 x xs ih =>
    by_cases hrest : chunks size (xs.drop (size - 1)) = []
    · rw [hrest] at h
      cases h
    · rw [List.dropLast_cons_of_ne_nil hrest] at h
      rcases List.mem_cons.mp h with rfl | h
      · have hlong : xs.drop (size - 1) ≠ [] := fun hnil => hrest (by rw [hnil, chunks])
        rw [ne_eq, List.drop_eq_nil_iff] at hlong
        rw [List.length_cons, List.length_take]
        omega
      · exact ih h

end Batch

namespace Lookup

variable {σ τ : Type} {l : Lookup} {store : Store σ} {transport : Transport τ} {clock : Clock}

/-- Batches that were exchanged are exchanged up to each of them, and then from there on. -/
theorem Exchanged.exists_append {index : ℕ} {bs bs' : List Batch} {founds : List Assignment}
    {s s'' : σ} {t t'' : τ}
    (h : Exchanged l store transport clock index (bs ++ bs') founds s t s'' t'') :
    ∃ first later s' t', founds = first ++ later ∧
      Exchanged l store transport clock index bs first s t s' t' ∧
      Exchanged l store transport clock (index + bs.length) bs' later s' t' s'' t'' := by
  induction bs generalizing index founds s t with
  | nil => exact ⟨[], founds, s, t, rfl, .done, h⟩
  | cons b bs ih =>
    cases h with
    | next hsend hcommit hx =>
      obtain ⟨first, later, s', t', rfl, hfirst, hlater⟩ := ih hx
      refine ⟨_ :: first, later, s', t', rfl, .next hsend hcommit hfirst, ?_⟩
      rwa [List.length_cons, Nat.add_comm bs.length, ← Nat.add_assoc]

theorem Fails.transport_eq {now : Timestamp} {b : Batch} {s s' : σ} {t t' : τ} {e : AuditError}
    (h : Fails l store transport now b s t e s' t') :
    t' = (transport.send (l.request b) t).2 := by
  cases h with
  | transport hsend => rw [hsend]
  | commit hsend _ => rw [hsend]

/-- The batches that a run sends are the first of all, and when it sends one those before it are
exchanged. -/
theorem exists_sent (l : Lookup) (store : Store σ) (transport : Transport τ) (clock : Clock) (s : σ)
    (t : τ) :
    let r := l.run store transport clock s t
    ∃ sent rest, l.batches store (clock 0) s = sent ++ rest ∧ r.1.requests = sent.map l.request ∧
      ∀ bs b more, sent = bs ++ b :: more → ∃ founds s₁ t₁,
        Exchanged l store transport clock 0 bs founds s t s₁ t₁ ∧
        (more = [] → r.2.2 = (transport.send (l.request b) t₁).2) := by
  intro r
  rcases run_cases l store transport clock s t with ⟨founds, s', t', hx, hr⟩ |
    ⟨done, b, rest, founds, s₁, t₁, e, s', t', hb, hx, hfail, hr⟩
  · refine ⟨l.batches store (clock 0) s, [], (List.append_nil _).symm, by simp only [r, hr], ?_⟩
    intro bs b more hsent
    rw [hsent] at hx
    obtain ⟨first, later, s₁, t₁, -, hfirst, hlater⟩ := hx.exists_append
    refine ⟨first, s₁, t₁, hfirst, ?_⟩
    rintro rfl
    cases hlater with
    | next hsend _ hdone =>
      cases hdone
      simp only [r, hr, hsend]
  · -- One batch more is sent than is exchanged, and it is the last.
    refine ⟨done ++ [b], rest, by rw [hb, List.append_assoc, List.singleton_append],
      by simp only [r, hr], ?_⟩
    intro bs c more hsent
    rcases List.eq_nil_or_concat more with rfl | ⟨more, d, rfl⟩
    · obtain ⟨rfl, hc⟩ := List.append_inj' hsent rfl
      obtain rfl : b = c := List.head_eq_of_cons_eq hc
      exact ⟨founds, s₁, t₁, hx, fun _ => by simp only [r, hr, hfail.transport_eq]⟩
    · rw [List.concat_eq_append, ← List.cons_append, ← List.append_assoc] at hsent
      obtain ⟨rfl, -⟩ := List.append_inj' hsent rfl
      obtain ⟨first, later, s₂, t₂, -, hfirst, -⟩ := hx.exists_append
      exact ⟨first, s₂, t₂, hfirst, fun h => by simp at h⟩

/-- A run asks for registrations: each once and in order, in batches that are full but for the last,
and when it sends one, all before it were answered and their reports committed. It ends with the
service in the state in which its last request leaves it. -/
structure Asks (l : Lookup) (store : Store σ) (transport : Transport τ) (clock : Clock) (s : σ) (t : τ)
    (wanted : List InclusionPath) (r : RunRecord (List PackageReport)) (t' : τ) : Prop where
  inOrder : r.requested <+: wanted.map (·.target.purl)
  complete : ∀ ps, r.result = .ok ps → r.requested = wanted.map (·.target.purl)
  size : ∀ q ∈ r.requests, q.coordinates ≠ [] ∧ q.coordinates.length ≤ l.batchSize
  full : ∀ q ∈ r.requests.dropLast, q.coordinates.length = l.batchSize
  settled : ∀ before q after, r.requests = before ++ q :: after → ∃ bs b founds s₁ t₁,
    before = bs.map l.request ∧ q = l.request b ∧ bs.flatten ++ b <+: wanted ∧
    Exchanged l store transport clock 0 bs founds s t s₁ t₁ ∧
    (after = [] → t' = (transport.send q t₁).2)

theorem asks_run (hsize : 0 < l.batchSize) (store : Store σ) (transport : Transport τ)
    (clock : Clock) (s : σ) (t : τ) :
    let r := l.run store transport clock s t
    l.Asks store transport clock s t (l.misses (l.cached store (clock 0) s)) r.1 r.2.2 := by
  intro r
  obtain ⟨hinOrder, hall⟩ := requested_run l store transport clock s t
  obtain ⟨sent, rest, hb, hr, hsent⟩ := exists_sent l store transport clock s t
  have hmem : ∀ b ∈ sent, b ∈ Batch.chunks l.batchSize (l.misses (l.cached store (clock 0) s)) := by
    intro b hm
    have := hb.symm ▸ List.mem_append_left rest hm
    exact this
  refine ⟨hinOrder, hall, fun q hq => ?_, fun q hq => ?_, fun before q after hsplit => ?_⟩
  · rw [hr] at hq
    obtain ⟨b, hm, rfl⟩ := List.mem_map.mp hq
    have hne := Batch.ne_nil_of_mem_chunks (hmem b hm)
    have hle := Batch.length_le_of_mem_chunks (hmem b hm) hsize
    simpa [request, hne] using hle
  · rw [hr, ← List.map_dropLast] at hq
    obtain ⟨b, hm, rfl⟩ := List.mem_map.mp hq
    have hlast : b ∈ (l.batches store (clock 0) s).dropLast := by
      rw [hb]
      rcases List.eq_nil_or_concat rest with rfl | ⟨rest, c, rfl⟩
      · rwa [List.append_nil]
      · rw [List.concat_eq_append, ← List.append_assoc, List.dropLast_concat]
        exact List.mem_append_left _ (List.mem_of_mem_dropLast hm)
    simpa [request] using Batch.length_of_mem_dropLast_chunks hsize hlast
  · rw [hr] at hsplit
    obtain ⟨bs, more, rfl, rfl, hmore⟩ := List.map_eq_append_iff.mp hsplit
    obtain ⟨b, more, rfl, rfl, rfl⟩ := List.map_eq_cons_iff.mp hmore
    obtain ⟨founds, s₁, t₁, hx, hlast⟩ := hsent bs b more rfl
    refine ⟨bs, b, founds, s₁, t₁, rfl, rfl, ?_, hx, fun h => hlast (List.map_eq_nil_iff.mp h)⟩
    rw [← flatten_batches, hb]
    exact ⟨(more ++ rest).flatten, by simp⟩

/-- A run wants the registrations for which its store shows nothing. -/
theorem misses_eq_filter_shown (l : Lookup) (store : Store σ) (now : Timestamp) (s : σ) :
    l.misses (l.cached store now s) =
      l.registrations.filter fun r => (shown store now l.keys s r.key).isNone := by
  apply List.filter_congr
  intro r hr
  rw [report?_cached l store now s (key_mem_keys hr)]

end Lookup

open Lookup

/-- A store on a shelf shows what it holds, as long as that lives and can be decoded. -/
theorem OpenStore.shown_eq {o : OpenStore} {shelf : Shelf} {d : Disk} (ho : o = shelf.openOn d)
    (hf : shelf.IsOpened) {now : Timestamp} {keys : List String} {found : Entries}
    (h : o.store.fetch now keys o.state = .ok found) {key : String} (hk : key ∈ keys) :
    shown o.store now keys o.state key =
      ((shelf.held d).getLive? shelf.lifetime now key).bind (·.report.toOption) := by
  subst ho
  cases shelf with
  | memory lifetime entries => exact shown_eq_stored (memoryView lifetime) h hk
  | file f => exact shown_eq_stored (fileView f hf) h hk

/-- Whatever calls are made, a batch is never empty, and a run asks for the registrations for which
its store shows nothing: for all where the store cannot be read, and else for those without a live
entry that can be decoded. -/
theorem requests_cover_misses {σ : Type} (calls : List (ServiceCall σ)) {τ : Type}
    (transport : Transport τ) (clock : Clock) (w : World σ) (t : τ) :
    let s := ServiceCall.after calls
    let l := s.lookup
    let o := s.openStore w
    let wanted := s.registrations.filter fun r =>
      (shown o.store (clock 0) l.keys o.state r.key).isNone
    let r := s.run transport clock w t
    0 < s.batchSize ∧
      l.Asks o.store transport clock o.state t wanted r.record r.transport ∧
      (∀ e, o.store.fetch (clock 0) l.keys o.state = .error e → wanted = s.registrations) ∧
      ∀ found, o.store.fetch (clock 0) l.keys o.state = .ok found →
        (∀ v : o.store.View, wanted = l.missing v (clock 0) o.state) ∧
        (s.injected = none → ∃ (shelf : Shelf) (d : Disk), o = shelf.openOn d ∧
          wanted = s.registrations.filter fun r =>
            (((shelf.held d).getLive? shelf.lifetime (clock 0) r.key).bind
              (·.report.toOption)).isNone) := by
  intro s l o wanted r
  have hsize : 0 < s.batchSize := ServiceCall.batchSize_pos calls
  have hwanted : wanted = l.misses (l.cached o.store (clock 0) o.state) :=
    (misses_eq_filter_shown l o.store (clock 0) o.state).symm
  refine ⟨hsize, ?_, fun e he => ?_, fun found hf => ⟨fun v => ?_, fun hi => ?_⟩⟩
  · rw [hwanted, Service.record_run, Service.transport_run]
    exact asks_run hsize o.store transport clock o.state t
  · refine List.filter_eq_self.mpr fun r _ => ?_
    simp only [shown, he, Option.isNone_none]
  · rw [hwanted, misses_cached l v hf]
  · have ho : o = _ := Service.openStore_of_shelf hi rfl
    have hopened := Service.isOpened_resolveShelf (ServiceCall.reachable_after calls).isOpened w.disk
    refine ⟨_, _, ho, List.filter_congr fun r hr => ?_⟩
    rw [OpenStore.shown_eq ho hopened hf (key_mem_keys hr)]

/-- Of five packages one is cached, the entry of one cannot be decoded and that of one has expired.
The second of two requests is not answered. -/
theorem requests_cover_misses_five :
    let c (name : String) : Coordinate := ⟨"npm", none, name, some "1.0.0"⟩
    let calls : List (ServiceCall Entries) := [.withStore (memoryStore (.ofHours 1)),
      .setBatchSize 2, .registerCoordinate (c "a"), .registerCoordinate (c "b"), .setBatchSize 0,
      .registerCoordinate (c "c"), .registerCoordinate (c "d"), .registerCoordinate (c "B"),
      .registerCoordinate (c "e")]
    let s := ServiceCall.after calls
    let day (n : ℕ) : Timestamp := ⟨⟨2024, 5, n⟩, 0, 0⟩
    let clock : Clock := fun _ => day 2
    let report : PackageReport := { PackageReport.blank with coordinates := "npm:b@1.0.0" }
    let w : World Entries := ⟨.empty, ((Entries.empty.put "npm:a@1.0.0" ⟨"\x7b", day 2⟩).put
      "npm:b@1.0.0" (.ofReport report (day 2))).put "npm:c@1.0.0" (.ofReport report (day 1))⟩
    let script : List Answer := [.echo [], .failure .http]
    let r := s.run scriptedTransport clock w script
    let wanted := ["a", "c", "d", "e"].map fun name => InclusionPath.single (c name)
    r.record.requests.map (·.coordinates) = [["pkg:npm/a@1.0.0", "pkg:npm/c@1.0.0"],
        ["pkg:npm/d@1.0.0", "pkg:npm/e@1.0.0"]] ∧
      r.record.result = .error (.transport .http) ∧
      s.lookup.Asks (memoryStore (.ofHours 1)) scriptedTransport clock w.outside script wanted
        r.record r.transport ∧
      wanted = s.lookup.missing (memoryView (.ofHours 1)) (clock 0) w.outside := by
  intro c calls s day clock report w script r wanted
  have hinjected : s.injected = some (memoryStore (.ofHours 1)) := ServiceCall.injected_after calls
  obtain ⟨-, hasks, -, hshown⟩ := requests_cover_misses calls scriptedTransport clock w script
  rw [Service.openStore_of_injected hinjected] at hasks hshown
  have hwanted : s.registrations.filter (fun r => (shown (memoryStore (.ofHours 1)) (clock 0)
      s.lookup.keys w.outside r.key).isNone) = wanted := by
    decide +kernel
  have hrecord : r.record.requests.map (·.coordinates) = [["pkg:npm/a@1.0.0", "pkg:npm/c@1.0.0"],
      ["pkg:npm/d@1.0.0", "pkg:npm/e@1.0.0"]] ∧ r.record.result = .error (.transport .http) := by
    decide +kernel
  obtain ⟨hmissing, -⟩ := hshown _ rfl
  exact ⟨hrecord.1, hrecord.2, hwanted ▸ hasks,
    hwanted.symm.trans (hmissing (memoryView (.ofHours 1)))⟩

end DependencyAudit
