import DependencyAudit.Proofs.Cache.Rehearsal
import DependencyAudit.Proofs.Lookup.Exchange
import DependencyAudit.Proofs.Lookup.Misses
import DependencyAudit.Proofs.Lookup.Reachable
import DependencyAudit.Proofs.Report.Storage

/-! A run that fails leaves the entries of the batches before, and the next run goes on from them. -/
namespace DependencyAudit

namespace Lookup

variable {σ τ : Type} {l : Lookup} {store : Store σ} {transport : Transport τ} {clock : Clock}

/-- What some exchanged batches make of a store: under the key of its registration an entry holds each
returned report as it came, and nothing else is new. -/
structure Laid (v : store.View) (clock : Clock) (founds : List Assignment) (s s' : σ) : Prop where
  overlays : Overlays (fun e => ∃ i < founds.length, v.drops (clock (i + 1)) e)
    (written clock 0 founds) (v.content s) (v.content s')
  /-- A store that drops nothing holds what it held, with what is written over it. -/
  content_eq : (∀ now e, ¬v.drops now e) → ∀ key,
    v.content s' key = (lastUnder key (written clock 0 founds)).or (v.content s key)
  returned : ∀ i found key p, founds[i]? = some found → (key, p) ∈ found →
    ∃ e, lastUnder key (written clock 0 founds) = some e ∧ e.Holds p (clock (i + 1))
  unreturned : ∀ key, (∀ x ∈ founds.flatten, x.1 ≠ key) →
    lastUnder key (written clock 0 founds) = none

theorem laid_of_exchanged (v : store.View) (hclock : ∀ i, (clock i).IsValid) {bs : List Batch}
    {founds : List Assignment} {s s' : σ} {t t' : τ}
    (h : Exchanged l store transport clock 0 bs founds s t s' t')
    (hn : (bs.flatten.map (·.key)).Nodup) : Laid v clock founds s s' := by
  have hkeys : ((written clock 0 founds).map (·.1)).Nodup := by
    rw [map_fst_written]
    exact h.nodup_keys hn
  have ho : Overlays (fun e => ∃ i < founds.length, v.drops (clock (i + 1)) e)
      (written clock 0 founds) (v.content s) (v.content s') := by
    simpa using h.overlays v hclock
  refine ⟨ho, ?_, ?_, ?_⟩
  · intro hd key
    apply ho.eq_of_keeps
    rintro e _ ⟨i, _, hi⟩
    exact hd _ e hi
  · intro i found key p hi hm
    exact ⟨_, lastUnder_of_mem hkeys (mem_written.mpr ⟨i, found, p, hi, hm, by simp⟩),
      Entry.holds_ofReport p _⟩
  · intro key hk
    rw [lastUnder_eq_none_iff]
    rintro ⟨k, e⟩ hx
    obtain ⟨i, found, p, hi, hm, -⟩ := mem_written.mp hx
    exact hk (k, p) (List.mem_flatten.mpr ⟨found, List.mem_of_getElem? hi, hm⟩)

theorem Laid.congr {v : store.View} {founds : List Assignment} {s s' s'' : σ}
    (h : Laid v clock founds s s') (hc : v.content s'' = v.content s') :
    Laid v clock founds s s'' :=
  ⟨by rw [hc]; exact h.overlays, by rw [hc]; exact h.content_eq, h.returned, h.unreturned⟩

/-- A run asks for what is missing from its store, in order; when it fails, for the first part. -/
theorem requested_run_missing (l : Lookup) (v : store.View) (transport : Transport τ)
    (clock : Clock) {s : σ} (t : τ) (hs : store.Reads s) :
    let r := (l.run store transport clock s t).1
    let wanted := (l.missing v (clock 0) s).map (·.target.purl)
    r.requested <+: wanted ∧ (∀ ps, r.result = .ok ps → r.requested = wanted) := by
  obtain ⟨found, hf⟩ := hs.fetch (clock 0) l.keys
  have h := requested_run l store transport clock s t
  rwa [misses_cached l v hf] at h

/-- The end of a run after the batches that were exchanged: there are no more of them, or the next
one fails. -/
inductive Ends (l : Lookup) (store : Store σ) (transport : Transport τ) (now : Timestamp)
    (found : Assignment) : List Batch → σ → τ → Except AuditError (List PackageReport) → σ → τ → Prop
  | finished {s : σ} {t : τ} :
    Ends l store transport now found [] s t (.ok (l.registrations.map (l.answer found))) s t
  | failed {b : Batch} {rest : List Batch} {s s' : σ} {t t' : τ} {e : AuditError} :
    Fails l store transport now b s t e s' t' →
    Ends l store transport now found (b :: rest) s t (.error e) s' t'

theorem Ends.reads {now : Timestamp} {found : Assignment} {rest : List Batch} {s s' : σ} {t t' : τ}
    {result : Except AuditError (List PackageReport)}
    (h : Ends l store transport now found rest s t result s' t') (hs : store.Reads s) :
    store.Reads s' := by
  cases h with
  | finished => exact hs
  | failed hf => exact hf.reads hs

theorem Ends.content_eq (v : store.View) {now : Timestamp} (hnow : now.IsValid)
    {found : Assignment} {rest : List Batch} {s s' : σ} {t t' : τ}
    {result : Except AuditError (List PackageReport)}
    (h : Ends l store transport now found rest s t result s' t') :
    v.content s' = v.content s := by
  cases h with
  | finished => rfl
  | failed hf => exact hf.content_eq v hnow

theorem Ends.phaseAfter_eq {now : Timestamp} {found : Assignment} {rest : List Batch} {s s' : σ}
    {t t' : τ} {r : RunRecord (List PackageReport)}
    (h : Ends l store transport now found rest s t r.result s' t') :
    Service.phaseAfter r = if rest = [] then .done else .errored := by
  obtain ⟨requests, result⟩ := r
  cases h <;> rfl

theorem exists_ends (l : Lookup) (store : Store σ) (transport : Transport τ) (clock : Clock) (s : σ)
    (t : τ) :
    ∃ done rest founds s₁ t₁, l.batches store (clock 0) s = done ++ rest ∧
      Exchanged l store transport clock 0 done founds s t s₁ t₁ ∧
      Ends l store transport (clock (done.length + 1))
        (l.cached store (clock 0) s ++ founds.flatten) rest s₁ t₁
        (l.run store transport clock s t).1.result (l.run store transport clock s t).2.1
        (l.run store transport clock s t).2.2 := by
  rcases run_cases l store transport clock s t with ⟨founds, s', t', hx, hr⟩ |
    ⟨done, b, rest, founds, s₁, t₁, e, s', t', hb, hx, hfail, hr⟩
  · refine ⟨_, [], founds, s', t', (List.append_nil _).symm, hx, ?_⟩
    rw [hr]
    exact .finished
  · refine ⟨done, b :: rest, founds, s₁, t₁, hb, hx, ?_⟩
    rw [hr]
    exact .failed hfail

end Lookup

open Lookup in
/-- A run exchanges its batches up to the first one that fails and gives its error, or all of them.
The store is then as before with exactly the raw reports of the exchanged batches over it, and the next
run asks for what the store has no live report of that can be decoded. -/
theorem run_leaves_prefix {σ τ : Type} {s : Service σ} (hs : s.Reachable)
    (transport : Transport τ) {clock : Clock} (hclock : ∀ i, (clock i).IsValid) (w : World σ)
    (t : τ) (v : (s.openStore w).store.View)
    (hreads : (s.openStore w).store.Reads (s.openStore w).state) :
    let l := s.lookup
    let store := (s.openStore w).store
    let before := (s.openStore w).state
    let r := s.run transport clock w t
    ∃ done rest founds s₁ t₁ after,
      Batch.chunks s.batchSize (l.missing v (clock 0) before) = done ++ rest ∧
      Exchanged l store transport clock 0 done founds before t s₁ t₁ ∧
      Ends l store transport (clock (done.length + 1))
        (l.cached store (clock 0) before ++ founds.flatten) rest s₁ t₁ r.record.result after
        r.transport ∧
      r.service.phase = (if rest = [] then .done else .errored) ∧
      r.service.openStore r.world = ⟨(s.openStore w).State, store, after⟩ ∧
      Laid v clock founds before after ∧
      (∀ b ∈ rest, ∀ p ∈ b, ∀ x ∈ founds.flatten, x.1 ≠ p.key) ∧
      ∀ (τ' : Type) (transport' : Transport τ') (clock' : Clock) (t' : τ'),
        let next := (r.service.run transport' clock' r.world t').record
        let wanted := (l.missing v (clock' 0) after).map (·.target.purl)
        next.requested <+: wanted ∧ (∀ ps, next.result = .ok ps → next.requested = wanted) := by
  intro l store before r
  obtain ⟨found, hf⟩ := hreads.fetch (clock 0) l.keys
  obtain ⟨done, rest, founds, s₁, t₁, hb, hx, hend⟩ :=
    exists_ends l store transport clock before t
  rw [batches, misses_cached l v hf] at hb
  have hflat : done.flatten ++ rest.flatten = l.missing v (clock 0) before := by
    rw [← List.flatten_append, ← hb, Batch.flatten_chunks]
  have hn : ((done.flatten ++ rest.flatten).map (·.key)).Nodup := by
    rw [hflat]
    exact hs.nodup_keys.sublist (List.filter_sublist.map _)
  rw [List.map_append, List.nodup_append] at hn
  have hstate := Service.openStore_run s transport clock w t
  have hrecord := Service.record_run s transport clock w t
  refine ⟨done, rest, founds, s₁, t₁, _, hb, hx, ?_, ?_, hstate,
    (laid_of_exchanged v hclock hx hn.1).congr (hend.content_eq v (hclock _)), ?_, ?_⟩
  · rw [hrecord, Service.transport_run]
    exact hend
  · rw [Service.phase_run, hrecord]
    exact hend.phaseAfter_eq
  · intro b hbm p hp x hxm he
    obtain ⟨q, hq, hk⟩ := hx.key_of_mem hxm
    refine hn.2.2 q.key (List.mem_map_of_mem hq) p.key ?_ (hk.trans he)
    exact List.mem_map_of_mem (List.mem_flatten.mpr ⟨b, hbm, hp⟩)
  · intro τ' transport' clock' t'
    rw [Service.record_run_of_openStore hstate, Service.lookup_run]
    exact requested_run_missing l v transport' clock' t' (hend.reads (hx.reads hreads))

open Lookup in
/-- Two batches of one package each, of which the second is answered and cannot be committed. -/
theorem run_leaves_prefix_two :
    let whole : Service Rehearsal := ((Service.new.withStore (Rehearsal.store ⟨1⟩)).register
      (.single ⟨"npm", none, "a", some "1.0.0"⟩)).register
      (.single ⟨"npm", none, "b", some "2.0.0"⟩)
    let s := { whole with batchSize := 1 }
    let clock : Clock := fun _ => ⟨⟨2024, 5, 1⟩, 0, 0⟩
    let before : Rehearsal := ⟨.empty, some 1, false, false⟩
    let r := s.run scriptedTransport clock ⟨.empty, before⟩ [.echo ["X-1"], .echo ["X-2"]]
    s.Reachable ∧ (∀ i, (clock i).IsValid) ∧ (Rehearsal.store ⟨1⟩).Reads before ∧
      r.record.result = .error (.cache (.write Rehearsal.path 1 Rehearsal.reason)) ∧
      ∃ done rest founds after,
        Batch.chunks 1 (s.lookup.missing (Rehearsal.view ⟨1⟩) (clock 0) before) = done ++ rest ∧
        Laid (Rehearsal.view ⟨1⟩) clock founds before after ∧
        r.service.openStore r.world = ⟨Rehearsal, Rehearsal.store ⟨1⟩, after⟩ := by
  intro whole s clock before r
  have hw : whole.Reachable := .register _ (.register _ (.withStore _ .new))
  have hs : s.Reachable := .setBatchSize hw (Eq.refl (whole.setBatchSize 1))
  have hclock : ∀ i, (clock i).IsValid := by
    intro i
    decide
  have hreads : (Rehearsal.store ⟨1⟩).Reads before := Rehearsal.reads_iff.mpr rfl
  obtain ⟨done, rest, founds, s₁, t₁, after, hb, _, _, _, ho, hl, _⟩ :=
    run_leaves_prefix hs scriptedTransport hclock ⟨.empty, before⟩ [.echo ["X-1"], .echo ["X-2"]]
      (Rehearsal.view ⟨1⟩) hreads
  exact ⟨hs, hclock, hreads, by decide +kernel, done, rest, founds, after, hb, hl, ho⟩

end DependencyAudit
