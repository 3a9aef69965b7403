import Mathlib.Algebra.Order.Floor.Div
import DependencyAudit.Proofs.Lookup.Serving
import DependencyAudit.Proofs.Lookup.WarmCache

/-! Runs over a service that answers one request in each of them: every run stores one batch more,
until a run has no more than one batch to ask for and gives all reports. -/
namespace DependencyAudit

namespace Batch

theorem chunks_eq {α : Type} {size : ℕ} (hs : 0 < size) {xs : List α} (hx : xs ≠ []) :
    chunks size xs = xs.take size :: chunks size (xs.drop size) := by
  obtain ⟨size, rfl⟩ : ∃ n, size = n + 1 := ⟨size - 1, by omega⟩
  obtain ⟨x, xs, rfl⟩ := List.exists_cons_of_ne_nil hx
  rw [chunks]
  rfl

theorem chunks_eq_nil_iff {α : Type} {size : ℕ} {xs : List α} : chunks size xs = [] ↔ xs = [] := by
  cases xs <;> simp [chunks]

end Batch

namespace Transport

variable {τ : Type}

/-- From a state on, every request is answered with one report about each of its packages, in any
order. -/
def AnswersAll (transport : Transport τ) (about : String → PackageReport) (t : τ) : Prop :=
  ∀ before request, ∃ ps, (transport.send request (transport.after before t)).1 = .ok ps ∧
    ps.Perm (request.coordinates.map about)

/-- In a state one request is answered in this way, and every further one is one too many. -/
def AnswersOnce (transport : Transport τ) (about : String → PackageReport) (t : τ) : Prop :=
  ∀ request,
    (∃ ps, (transport.send request t).1 = .ok ps ∧ ps.Perm (request.coordinates.map about)) ∧
    ∀ before further, (transport.send further (transport.after (request :: before) t)).1 =
      .error .rateLimited

/-- The service that answers every request. -/
def unlimited (about : String → PackageReport) : Transport Unit where
  send request t := (.ok (request.coordinates.map about), t)

/-- The service that answers while it is open, and one request closes it. -/
def limited (about : String → PackageReport) : Transport Bool where
  send request isOpen :=
    (if isOpen then .ok (request.coordinates.map about) else .error .rateLimited, false)

theorem answersAll_unlimited (about : String → PackageReport) :
    (unlimited about).AnswersAll about () :=
  fun _ _ => ⟨_, rfl, List.Perm.refl _⟩

theorem answersOnce_limited (about : String → PackageReport) :
    (limited about).AnswersOnce about true := by
  have hclosed : ∀ before, (limited about).after before false = false := by
    intro before
    induction before with
    | nil => rfl
    | cons request before ih => exact ih
  intro request
  refine ⟨⟨_, rfl, List.Perm.refl _⟩, fun before further => ?_⟩
  simp only [after, limited]
  rw [← limited, hclosed]
  rfl

end Transport

namespace Lookup

variable {σ τ : Type} {l : Lookup} {store : Store σ} {transport : Transport τ}
  {about : String → PackageReport}

/-- Where every request is refused, nothing is asked for but the first batch, and nothing changes. -/
theorem fetchAll_of_refused (l : Lookup) (store : Store σ) {t : τ} {e : TransportError}
    (h : ∀ request, (transport.send request t).1 = .error e) (clock : Clock) (index : ℕ)
    (bs : List Batch) (s : σ) :
    (l.fetchAll store transport clock index bs s t).1.result =
        (if bs = [] then .ok [] else .error (.transport e)) ∧
      (l.fetchAll store transport clock index bs s t).2.1 = s := by
  cases bs with
  | nil => exact ⟨rfl, rfl⟩
  | cons b bs =>
    have hsend : transport.send (l.request b) t =
        (.error e, (transport.send (l.request b) t).2) := Prod.ext (h _) rfl
    rw [fetchAll, hsend]
    exact ⟨rfl, rfl⟩

/-- A run over a service that answers once commits the first batch, and fails if there is another. -/
theorem run_of_answersOnce {clock : Clock} {s : σ} {t : τ} {wanted : List InclusionPath}
    (hm : l.misses (l.cached store (clock 0) s) = wanted) (hne : wanted ≠ [])
    (hsize : 0 < l.batchSize) (hs : store.Accepts s) (ht : transport.AnswersOnce about t) :
    ∃ ps s' t', ps.Perm ((wanted.take l.batchSize).map (about ·.target.purl)) ∧
      (l.run store transport clock s t).2.1 = s' ∧ store.Accepts s' ∧
      Exchanged l store transport clock 0 [wanted.take l.batchSize]
        [Batch.assign (wanted.take l.batchSize) ps] s t s' t' ∧
      (l.run store transport clock s t).1.result =
        if wanted.length ≤ l.batchSize then
          .ok (l.registrations.map (l.answer (l.cached store (clock 0) s ++
            Batch.assign (wanted.take l.batchSize) ps)))
        else .error (.transport .rateLimited) := by
  obtain ⟨⟨ps, hsend, hperm⟩, hlimited⟩ := ht (l.request (wanted.take l.batchSize))
  have hsend' : transport.send (l.request (wanted.take l.batchSize)) t =
      (.ok ps, (transport.send (l.request (wanted.take l.batchSize)) t).2) := Prod.ext hsend rfl
  obtain ⟨s', hcommit, hs'⟩ := hs.commit (clock (0 + 1))
    (entries (clock (0 + 1)) (Batch.assign (wanted.take l.batchSize) ps))
  obtain ⟨hresult, hstate⟩ := fetchAll_of_refused l store (hlimited []) clock (0 + 1)
    (Batch.chunks l.batchSize (wanted.drop l.batchSize)) s'
  simp only [Batch.chunks_eq_nil_iff, List.drop_eq_nil_iff] at hresult
  rw [request, List.map_map] at hperm
  refine ⟨ps, s', _, hperm, ?_, hs', .next hsend' hcommit .done, ?_⟩
  all_goals
    rw [run, gather, hm, Batch.chunks_eq hsize hne, fetchAll, hsend']
    simp only [hcommit]
  · exact hstate
  · rw [Transport.after, Transport.after] at hresult
    rw [hresult]
    split <;> simp [Except.map]

/-- The state of the store before each run of a series; every run has its own clock and finds the
service in its own state. -/
def stateBefore (l : Lookup) (store : Store σ) (transport : Transport τ) (clocks : ℕ → Clock)
    (ts : ℕ → τ) (s : σ) : ℕ → σ
  | 0 => s
  | k + 1 =>
    (l.run store transport (clocks k) (stateBefore l store transport clocks ts s k) (ts k)).2.1

/-- Nothing expires during so many runs that each commit once, and what has expired before them stays
so. -/
structure Endures (isLive : Timestamp → Entry → Bool) (content : String → Option Entry)
    (keys : List String) (clocks : ℕ → Clock) (count : ℕ) : Prop where
  live : ∀ key ∈ keys, ∀ e, content key = some e → isLive (clocks 0 0) e = true →
    ∀ k < count, ∀ i ≤ 1, isLive (clocks k i) e = true
  expired : ∀ key ∈ keys, ∀ e, content key = some e → isLive (clocks 0 0) e = false →
    ∀ k < count, isLive (clocks k 0) e = false
  written : ∀ j k, j ≤ k → k < count → ∀ e : Entry, e.createdAt = clocks j 1 →
    isLive (clocks k 1) e = true ∧ (j < k → isLive (clocks k 0) e = true)

/-- What a series of runs meets: a service that has one report about each package, named by its
package URL, and answers one request in each run, and a store that works and keeps what it is given. -/
structure Throttled (l : Lookup) (v : store.View) (transport : Transport τ)
    (about : String → PackageReport) (clocks : ℕ → Clock) (ts : ℕ → τ) (s : σ) (count : ℕ) :
    Prop where
  readable : ∀ r ∈ l.registrations, Coordinate.ofText r.target.purl = .ok r.target
  named : ∀ r ∈ l.registrations, (about r.target.purl).coordinates = r.target.purl
  storable : ∀ r ∈ l.registrations, ∀ now,
    (Entry.ofReport (about r.target.purl) now).report = .ok (about r.target.purl)
  answers : ∀ k < count, transport.AnswersOnce about (ts k)
  valid : ∀ k i, (clocks k i).IsValid
  endures : Endures v.isLive (v.content s) l.keys clocks count
  reads : store.Reads s
  accepts : store.Accepts s

/-- What is cached for a registration, or else what the service has about it. -/
def settled (v : store.View) (about : String → PackageReport) (now : Timestamp) (s : σ)
    (r : InclusionPath) : PackageReport :=
  (stored v now s r.key).getD (about r.target.purl)

theorem settled_of_mem_missing {v : store.View} {now : Timestamp} {s : σ} {r : InclusionPath}
    (hr : r ∈ l.missing v now s) : settled v about now s r = about r.target.purl := by
  have hnone := (List.mem_filter.mp hr).2
  rw [settled, Option.isNone_iff_eq_none.mp hnone, Option.getD_none]

theorem cacheKey_about {r : InclusionPath} (hr : Coordinate.ofText r.target.purl = .ok r.target)
    (hn : (about r.target.purl).coordinates = r.target.purl) :
    (about r.target.purl).cacheKey = r.key := by
  have hc : (about r.target.purl).coordinate = .ok r.target := by
    rw [PackageReport.coordinate, hn, hr]
  exact PackageReport.cacheKey_of_coordinate hc

theorem nodup_missing (hn : l.keys.Nodup) (v : store.View) (now : Timestamp) (s : σ) :
    (l.missing v now s).Nodup :=
  List.Nodup.filter _ (List.Nodup.of_map _ hn)

/-- What a run of the series asks for. -/
theorem batch_sublist (v : store.View) (now : Timestamp) (s : σ) (k : ℕ) :
    (((l.missing v now s).drop (k * l.batchSize)).take l.batchSize).Sublist l.registrations :=
  ((List.take_sublist _ _).trans (List.drop_sublist _ _)).trans List.filter_sublist

/-- The first registrations of those that are missing are not missing any more. -/
theorem filter_not_mem_take {rs : List InclusionPath} (hn : rs.Nodup) (n : ℕ) :
    (rs.filter fun r => !decide (r ∈ rs.take n)) = rs.drop n := by
  have hdisjoint := List.disjoint_take_drop hn (le_refl n)
  conv_lhs => arg 2; rw [← List.take_append_drop n rs]
  rw [List.filter_append, List.filter_eq_nil_iff.mpr (by simp), List.nil_append,
    List.filter_eq_self]
  intro r hr
  simpa using fun hm => hdisjoint hm hr

/-- The store before a run of the series: it holds the entries from before the series and what the
runs have written, and shows the reports about as many missing registrations as were answered. -/
structure Progressed (l : Lookup) (v : store.View) (about : String → PackageReport)
    (clocks : ℕ → Clock) (s : σ) (k : ℕ) (s' : σ) : Prop where
  reads : store.Reads s'
  accepts : store.Accepts s'
  content : ∀ key e, v.content s' key = some e →
    v.content s key = some e ∨ ∃ j < k, e.createdAt = clocks j 1
  stored_eq : ∀ r ∈ l.registrations, stored v (clocks k 0) s' r.key =
    if r ∈ (l.missing v (clocks 0 0) s).take (k * l.batchSize) then some (about r.target.purl)
    else stored v (clocks 0 0) s r.key

variable {v : store.View} {clocks : ℕ → Clock} {ts : ℕ → τ} {s s' : σ} {count k : ℕ}

theorem Progressed.missing_eq (hn : l.keys.Nodup) (h : Progressed l v about clocks s k s') :
    l.missing v (clocks k 0) s' = (l.missing v (clocks 0 0) s).drop (k * l.batchSize) := by
  have hstored := h.stored_eq
  rw [← filter_not_mem_take (nodup_missing hn v (clocks 0 0) s)]
  generalize (l.missing v (clocks 0 0) s).take (k * l.batchSize) = answered at hstored ⊢
  rw [missing, missing, List.filter_filter]
  apply List.filter_congr
  intro r hr
  rw [hstored r hr]
  by_cases hm : r ∈ answered <;> simp [hm]

/-- What a run of the series finds in the store lasts until the next one. -/
theorem Progressed.lasts (h : Progressed l v about clocks s k s')
    (he : Endures v.isLive (v.content s) l.keys clocks count) (hk : k + 1 < count) :
    Lasts v.isLive (v.content s') l.keys (clocks k) (clocks (k + 1)) 1 := by
  have hfresh : ∀ {e : Entry}, (∃ j < k, e.createdAt = clocks j 1) →
      v.isLive (clocks k 0) e = true ∧ v.isLive (clocks k 1) e = true ∧
        v.isLive (clocks (k + 1) 0) e = true := by
    rintro e ⟨j, hj, hw⟩
    have hnow := he.written j k (by omega) (by omega) e hw
    exact ⟨hnow.2 hj, hnow.1, (he.written j (k + 1) (by omega) hk e hw).2 (by omega)⟩
  refine ⟨fun key hkey e hc hlive => ?_, fun key hkey e hc hdead => ?_, fun i hi e hw => ?_⟩
  · have hkept : v.isLive (clocks k 1) e = true ∧ v.isLive (clocks (k + 1) 0) e = true := by
      rcases h.content key e hc with hold | hnew
      · have hstart : v.isLive (clocks 0 0) e = true := by
          by_contra hdead
          rw [he.expired key hkey e hold (by simpa using hdead) k (by omega)] at hlive
          cases hlive
        exact ⟨he.live key hkey e hold hstart k (by omega) 1 (le_refl 1),
          he.live key hkey e hold hstart (k + 1) hk 0 (by omega)⟩
      · exact (hfresh hnew).2
    refine ⟨fun i hi => ?_, hkept.2⟩
    obtain rfl : i = 0 := by omega
    exact hkept.1
  · rcases h.content key e hc with hold | hnew
    · have hstart : v.isLive (clocks 0 0) e = false := by
        by_contra hlive
        rw [he.live key hkey e hold (by simpa using hlive) k (by omega) 0 (by omega)] at hdead
        cases hdead
      exact he.expired key hkey e hold hstart (k + 1) hk
    · rw [(hfresh hnew).1] at hdead
      cases hdead
  · obtain rfl : i = 0 := by omega
    refine ⟨fun j hj => ?_, (he.written k (k + 1) (by omega) hk e hw).2 (by omega)⟩
    obtain rfl : j = 0 := by omega
    exact (he.written k k (le_refl k) (by omega) e hw).1

/-- The reports that are assigned to a batch of the series are those about its registrations. -/
theorem Throttled.mem_assign_iff (h : Throttled l v transport about clocks ts s count)
    (hn : l.keys.Nodup) {b : Batch} (hb : b.Sublist l.registrations) {ps : List PackageReport}
    (hps : ps.Perm (b.map (about ·.target.purl))) (key : String) (p : PackageReport) :
    (key, p) ∈ b.assign ps ↔ ∃ r ∈ b, r.key = key ∧ about r.target.purl = p := by
  have hk : Reporting.Names (fun r => some (about r.target.purl)) b := by
    intro r hr p hp
    cases hp
    exact cacheKey_about (h.readable r (hb.subset hr)) (h.named r (hb.subset hr))
  rw [Lookup.mem_assign_iff hk (hn.sublist (hb.map _)) (by simpa using hps)]
  simp

/-- The batch that a run of the series stores, and its result. -/
theorem Progressed.run_eq (h : Progressed l v about clocks s k s') (hn : l.keys.Nodup)
    (hsize : 0 < l.batchSize) (ht : Throttled l v transport about clocks ts s count)
    (hk : k < count) (hwanted : k * l.batchSize < (l.missing v (clocks 0 0) s).length) :
    let wanted := (l.missing v (clocks 0 0) s).drop (k * l.batchSize)
    let r := l.run store transport (clocks k) s' (ts k)
    ∃ found t', store.Accepts r.2.1 ∧
      Exchanged l store transport (clocks k) 0 [wanted.take l.batchSize] [found] s' (ts k) r.2.1
        t' ∧
      (∀ key p, (key, p) ∈ found ↔
        ∃ r ∈ wanted.take l.batchSize, r.key = key ∧ about r.target.purl = p) ∧
      r.1.result = if wanted.length ≤ l.batchSize then
          .ok (l.registrations.map (l.answer (l.cached store (clocks k 0) s' ++ found)))
        else .error (.transport .rateLimited) := by
  intro wanted r
  obtain ⟨stored, hf⟩ := h.reads.fetch (clocks k 0) l.keys
  have hm : l.misses (l.cached store (clocks k 0) s') = wanted := by
    rw [misses_cached l v hf, h.missing_eq hn]
  have hne : wanted ≠ [] := by
    rw [← List.length_pos_iff, List.length_drop]
    omega
  obtain ⟨ps, _, t', hps, rfl, haccepts, hx, hresult⟩ :=
    run_of_answersOnce hm hne hsize h.accepts (ht.answers k hk)
  exact ⟨_, t', haccepts, hx, ht.mem_assign_iff hn (batch_sublist v _ s k) hps, hresult⟩

/-- One run of the series: the next registrations have their reports in the store. -/
theorem Progressed.next (h : Progressed l v about clocks s k s') (hn : l.keys.Nodup)
    (hsize : 0 < l.batchSize) (ht : Throttled l v transport about clocks ts s count)
    (hk : k + 1 < count) (hwanted : k * l.batchSize < (l.missing v (clocks 0 0) s).length) :
    Progressed l v about clocks s (k + 1) (l.run store transport (clocks k) s' (ts k)).2.1 := by
  obtain ⟨found, t', haccepts, hx, hmem, -⟩ := h.run_eq hn hsize ht (by omega) hwanted
  have hlasts := h.lasts ht.endures hk
  have htake : (l.missing v (clocks 0 0) s).take ((k + 1) * l.batchSize) =
      (l.missing v (clocks 0 0) s).take (k * l.batchSize) ++
        ((l.missing v (clocks 0 0) s).drop (k * l.batchSize)).take l.batchSize := by
    rw [Nat.add_mul, Nat.one_mul, List.take_add]
  have hsub := batch_sublist (l := l) v (clocks 0 0) s k
  generalize hbatch : ((l.missing v (clocks 0 0) s).drop (k * l.batchSize)).take l.batchSize = batch
    at hx hmem htake hsub
  have hlaid := laid_of_exchanged v (ht.valid k) hx (by simpa using hn.sublist (hsub.map _))
  refine ⟨hx.reads h.reads, haccepts, ?_, ?_⟩
  · intro key e he
    have hor : (lastUnder key (written (clocks k) 0 [found])).or (v.content s' key) = some e := by
      rcases hlaid.overlays key with hkept | ⟨hnone, -⟩
      · rw [← hkept, he]
      · rw [hnone] at he
        cases he
    rcases Option.or_eq_some_iff.mp hor with hnew | ⟨-, hold⟩
    · obtain ⟨i, found', p, hi, hp, rfl⟩ := mem_written.mp (mem_of_lastUnder hnew)
      have hlt : i < 1 := (List.getElem?_eq_some_iff.mp hi).1
      obtain rfl : i = 0 := by omega
      exact Or.inr ⟨k, by omega, rfl⟩
    · rcases h.content key e hold with hc | ⟨j, hj, hc⟩
      · exact Or.inl hc
      · exact Or.inr ⟨j, by omega, hc⟩
  · intro r hr
    rw [htake]
    by_cases hm : r ∈ batch
    · rw [if_pos (List.mem_append_right _ hm)]
      have hfound : (r.key, about r.target.purl) ∈ [found].flatten := by
        simpa using (hmem _ _).mpr ⟨r, hm, rfl, rfl⟩
      exact hlaid.stored_of_mem hlasts hfound (ht.storable r hr)
    · have hunseen : ∀ x ∈ [found].flatten, x.1 ≠ r.key := by
        rintro ⟨key, p⟩ hx rfl
        obtain ⟨r', hr', hkey, -⟩ := (hmem _ p).mp (by simpa using hx)
        exact hm (eq_of_key_eq hn (hsub.subset hr') hr hkey ▸ hr')
      rw [hlaid.stored_of_not_mem hlasts (key_mem_keys hr) hunseen, h.stored_eq r hr]
      simp [hm]

theorem Throttled.progressed_zero (ht : Throttled l v transport about clocks ts s count) :
    Progressed l v about clocks s 0 s :=
  ⟨ht.reads, ht.accepts, fun _ _ he => Or.inl he, fun r _ => by simp⟩

theorem lt_ceilDiv_iff {size u : ℕ} (hs : 0 < size) (k : ℕ) : k < u ⌈/⌉ size ↔ k * size < u := by
  rw [← not_le, ceilDiv_le_iff_le_mul hs, not_le, Nat.mul_comm]

/-- The reports that are stored before a run with only one batch left, and those of the batch, settle
every registration. -/
theorem Progressed.report?_append (h : Progressed l v about clocks s k s') (hn : l.keys.Nodup)
    {found : Assignment} (hmem : ∀ key p, (key, p) ∈ found ↔
      ∃ r ∈ (l.missing v (clocks 0 0) s).drop (k * l.batchSize), r.key = key ∧
        about r.target.purl = p) :
    ∀ r ∈ l.registrations, report? (l.cached store (clocks k 0) s' ++ found) r.key =
      some (settled v about (clocks 0 0) s r) := by
  obtain ⟨stored, hf⟩ := h.reads.fetch (clocks k 0) l.keys
  refine report?_append_of_mem_iff hn ?_ ?_
  · intro r hr p hp
    rw [report?_cached l _ _ _ (key_mem_keys hr), shown_eq_stored v hf (key_mem_keys hr),
      h.stored_eq r hr] at hp
    split at hp
    · rename_i hm
      rw [settled_of_mem_missing (List.mem_of_mem_take hm), hp]
    · rw [settled, hp, Option.getD_some]
  · intro key p
    rw [hmem, misses_cached l v hf, h.missing_eq hn]
    constructor
    · rintro ⟨r, hr, hkey, rfl⟩
      exact ⟨r, hr, hkey, congrArg some (settled_of_mem_missing (List.mem_of_mem_drop hr))⟩
    · rintro ⟨r, hr, hkey, hp⟩
      rw [settled_of_mem_missing (List.mem_of_mem_drop hr)] at hp
      exact ⟨r, hr, hkey, Option.some.inj hp⟩

theorem answer_of_report? {found : Assignment} {r : InclusionPath} {p : PackageReport}
    (h : report? found r.key = some p) : l.answer found r = l.filter.apply p r := by
  simp only [answer, h]

variable (hn : l.keys.Nodup) (hsize : 0 < l.batchSize)
  (ht : Throttled l v transport about clocks ts s
    ((l.missing v (clocks 0 0) s).length ⌈/⌉ l.batchSize))
include hn hsize ht

/-- Before every run of the series the store holds the batches of the runs before. -/
theorem Throttled.progressed (k : ℕ)
    (hk : k < (l.missing v (clocks 0 0) s).length ⌈/⌉ l.batchSize) :
    Progressed l v about clocks s k (l.stateBefore store transport clocks ts s k) := by
  induction k with
  | zero => exact ht.progressed_zero
  | succ k ih =>
    exact (ih (by omega)).next hn hsize ht hk ((lt_ceilDiv_iff hsize k).mp (by omega))

/-- The runs before the last one are stopped by the rate limit, and the last one gives what is
settled about every registration. -/
theorem Throttled.result_eq (k : ℕ)
    (hk : k < (l.missing v (clocks 0 0) s).length ⌈/⌉ l.batchSize) :
    (l.run store transport (clocks k) (l.stateBefore store transport clocks ts s k) (ts k)).1.result =
      if k + 1 < (l.missing v (clocks 0 0) s).length ⌈/⌉ l.batchSize then
        .error (.transport .rateLimited)
      else .ok (l.registrations.map fun r =>
        l.filter.apply (settled v about (clocks 0 0) s r) r) := by
  have h := ht.progressed hn hsize k hk
  have hwanted := (lt_ceilDiv_iff hsize k).mp hk
  obtain ⟨found, t', -, -, hmem, hresult⟩ := h.run_eq hn hsize ht hk hwanted
  have hlast := lt_ceilDiv_iff (u := (l.missing v (clocks 0 0) s).length) hsize (k + 1)
  rw [Nat.add_mul, Nat.one_mul] at hlast
  rw [hresult, List.length_drop]
  by_cases hmore : k + 1 < (l.missing v (clocks 0 0) s).length ⌈/⌉ l.batchSize
  · have := hlast.mp hmore
    rw [if_neg (by omega), if_pos hmore]
  · have := mt hlast.mpr hmore
    rw [if_pos (by omega), if_neg hmore]
    rw [List.take_of_length_le (by rw [List.length_drop]; omega)] at hmem
    exact congrArg Except.ok (List.map_congr_left fun r hr =>
      answer_of_report? (h.report?_append hn hmem r hr))

omit hsize in
/-- Without the limit one run settles every registration. -/
theorem Throttled.result_unlimited {τ' : Type} {transport' : Transport τ'} {t' : τ'}
    (hall : transport'.AnswersAll about t') {clock : Clock} (hclock : clock 0 = clocks 0 0) :
    (l.run store transport' clock s t').1.result = .ok (l.registrations.map fun r =>
      l.filter.apply (settled v about (clocks 0 0) s r) r) := by
  obtain ⟨stored, hf⟩ := ht.reads.fetch (clock 0) l.keys
  have hmisses : l.misses (l.cached store (clock 0) s) = l.missing v (clocks 0 0) s := by
    rw [misses_cached l v hf, hclock]
  have hnames : Reporting.Names (fun r => some (settled v about (clocks 0 0) s r))
      (l.missing v (clocks 0 0) s) := by
    intro r hr p hp
    have hreg := (List.mem_filter.mp hr).1
    obtain rfl : about r.target.purl = p :=
      (settled_of_mem_missing hr).symm.trans (Option.some.inj hp)
    exact cacheKey_about (ht.readable r hreg) (ht.named r hreg)
  have hserves : l.Serves transport' (fun r => some (settled v about (clocks 0 0) s r))
      (l.missing v (clocks 0 0) s) t' := by
    intro before b hb
    obtain ⟨ps, hsend, hps⟩ := hall before (l.request b)
    refine ⟨ps, hsend, ?_⟩
    rw [request, List.map_map] at hps
    rw [List.filterMap_eq_map', List.map_congr_left fun r hr => settled_of_mem_missing (hb hr)]
    exact hps
  rw [← hmisses] at hnames hserves
  obtain ⟨found, hres, hrep⟩ := gather_of_serves hn clock hnames ht.accepts hserves (by
    intro r hr p hp
    rw [shown_eq_stored v hf (key_mem_keys hr), hclock] at hp
    rw [settled, hp, Option.getD_some])
  simp only [run, hres, Except.map]
  exact congrArg Except.ok (List.map_congr_left fun r hr => answer_of_report? (hrep r hr))

end Lookup
end DependencyAudit
