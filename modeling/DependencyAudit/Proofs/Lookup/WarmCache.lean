import DependencyAudit.Proofs.Cache.FileView
import DependencyAudit.Proofs.Lookup.Failure
import DependencyAudit.Proofs.Report.Storage

/-! A run that succeeded has stored all that it found: the next one finds it there and asks only for
the rest. -/
namespace DependencyAudit

namespace Lookup

variable {σ τ : Type} {l : Lookup} {store : Store σ} {transport : Transport τ}
  {clock clock' : Clock}

/-- Nothing expires between the start of a run with so many commits and that of the next run, and
what has expired before stays so. -/
structure Lasts (isLive : Timestamp → Entry → Bool) (content : String → Option Entry)
    (keys : List String) (clock clock' : Clock) (count : ℕ) : Prop where
  live : ∀ key ∈ keys, ∀ e, content key = some e → isLive (clock 0) e = true →
    (∀ i < count, isLive (clock (i + 1)) e = true) ∧ isLive (clock' 0) e = true
  expired : ∀ key ∈ keys, ∀ e, content key = some e → isLive (clock 0) e = false →
    isLive (clock' 0) e = false
  written : ∀ i < count, ∀ e : Entry, e.createdAt = clock (i + 1) →
    (∀ j < count, isLive (clock (j + 1)) e = true) ∧ isLive (clock' 0) e = true

theorem shown_of_not_readable {P : σ → Prop} (hr : store.Rereads P) {s : σ}
    (h : ¬store.Readable s) (now : Timestamp) (keys : List String) (key : String) :
    shown store now keys s key = none := by
  unfold shown
  cases hf : store.fetch now keys s with
  | error e => rfl
  | ok found => exact absurd (hr.readable_of_fetch hf) h

/-- A store that cannot be read takes no reports, and one that can be read goes on to be. -/
theorem Exchanged.readable {P : σ → Prop} (hr : store.Rereads P) {index : ℕ} {bs : List Batch}
    {founds : List Assignment} {s s' : σ} {t t' : τ}
    (h : Exchanged l store transport clock index bs founds s t s' t') (hs : P s) :
    (store.Readable s → store.Readable s') ∧
      (¬store.Readable s → s' = s ∧ founds.flatten = []) := by
  induction h with
  | done => exact ⟨id, fun _ => ⟨rfl, rfl⟩⟩
  | @next index b bs reports founds s s₁ s' t t₁ t' hsend hcommit hx ih =>
    by_cases hb : b.assign reports = []
    · rw [hb] at hcommit
      obtain rfl : s = s₁ := congrArg Prod.snd ((hr.commit_nil _ s).symm.trans hcommit)
      rw [hb, List.flatten_cons, List.nil_append]
      exact ih hs
    · have hn : entries (clock (index + 1)) (b.assign reports) ≠ [] := by simpa [entries] using hb
      obtain ⟨hbefore, hafter, hs₁⟩ := hr.of_commit hs hn hcommit
      exact ⟨fun _ => (ih hs₁).1 hafter, fun hnot => absurd hbefore hnot⟩

/-- The reports of a run that succeeded are the cached ones and those of its batches. -/
theorem exchanged_of_gather {s : σ} {t : τ} {found : Assignment}
    (h : (l.gather store transport clock s t).1.result = .ok found) :
    ∃ founds s' t',
      Exchanged l store transport clock 0 (l.batches store (clock 0) s) founds s t s' t' ∧
      found = l.cached store (clock 0) s ++ founds.flatten ∧
      l.run store transport clock s t = (⟨(l.batches store (clock 0) s).map l.request,
        .ok (l.registrations.map (l.answer found))⟩, s', t') := by
  rcases gather_cases l store transport clock s t with
    ⟨founds, s', t', hx, hg⟩ | ⟨done, b, rest, founds, s₁, t₁, e, s', t', -, -, -, hg⟩
  · rw [hg] at h
    cases h
    refine ⟨founds, s', t', hx, rfl, ?_⟩
    rw [run, hg]
    rfl
  · rw [hg] at h
    cases h

theorem nodup_keys_batches (hn : l.keys.Nodup) (store : Store σ) (now : Timestamp) (s : σ) :
    ((l.batches store now s).flatten.map (·.key)).Nodup := by
  rw [flatten_batches]
  exact nodup_keys_misses hn _

variable {v : store.View} {s s' : σ} {t t' : τ} {founds : List Assignment}

/-- An entry that is live at every commit is not dropped by them. -/
theorem Laid.content_of_live (h : Laid v clock founds s s') {key : String} {e : Entry}
    (he : (lastUnder key (written clock 0 founds)).or (v.content s key) = some e)
    (hlive : ∀ i < founds.length, v.isLive (clock (i + 1)) e = true) :
    v.content s' key = some e := by
  rw [h.overlays.eq_of_keeps, he]
  intro e' he'
  obtain rfl : e = e' := Option.some.inj (he.symm.trans he')
  rintro ⟨i, hi, hd⟩
  have hdead := v.not_live_of_drops hd
  rw [hlive i hi] at hdead
  cases hdead

/-- A report that was returned is live and can be decoded when the next run starts. -/
theorem Laid.stored_of_mem (h : Laid v clock founds s s')
    (hl : Lasts v.isLive (v.content s) l.keys clock clock' founds.length)
    {key : String} {p : PackageReport} (hm : (key, p) ∈ founds.flatten)
    (hp : ∀ now, (Entry.ofReport p now).report = .ok p) : stored v (clock' 0) s' key = some p := by
  obtain ⟨found, hfound, hm⟩ := List.mem_flatten.mp hm
  obtain ⟨i, hi⟩ := List.mem_iff_getElem?.mp hfound
  have hlt : i < founds.length := (List.getElem?_eq_some_iff.mp hi).1
  obtain ⟨e, hlast, he⟩ := h.returned i found key p hi hm
  have hlive := hl.written i hlt e he.createdAt
  have hcontent : v.content s' key = some e := h.content_of_live (by rw [hlast]; rfl) hlive.1
  have hreport : e.report = .ok p := he.eq_ofReport ▸ hp _
  simp [stored, hcontent, Option.filter_some, hlive.2, hreport, Except.toOption]

/-- Where nothing was returned the next run finds what this one found. -/
theorem Laid.stored_of_not_mem (h : Laid v clock founds s s')
    (hl : Lasts v.isLive (v.content s) l.keys clock clock' founds.length) {key : String}
    (hk : key ∈ l.keys) (hn : ∀ x ∈ founds.flatten, x.1 ≠ key) :
    stored v (clock' 0) s' key = stored v (clock 0) s key := by
  have hlast := h.unreturned key hn
  have hcases := h.overlays key
  rw [hlast, Option.none_or] at hcases
  cases hc : v.content s key with
  | none =>
    rw [hc] at hcases
    have hnone : v.content s' key = none := by
      rcases hcases with hcases | ⟨hcases, -⟩ <;> exact hcases
    simp [stored, hc, hnone]
  | some e =>
    cases hlive : v.isLive (clock 0) e with
    | true =>
      obtain ⟨hkept, hlive'⟩ := hl.live key hk e hc hlive
      have hsome : v.content s' key = some e :=
        h.content_of_live (by rw [hlast, hc]; rfl) hkept
      simp [stored, hc, hsome, Option.filter_some, hlive, hlive']
    | false =>
      have hdead := hl.expired key hk e hc hlive
      rw [hc] at hcases
      rcases hcases with hsome | ⟨hnone, -⟩
      · simp [stored, hc, hsome, Option.filter_some, hlive, hdead]
      · simp [stored, hc, hnone, Option.filter_some, hlive]

/-- A run that starts with the store that a run left finds what that run had found or fetched. -/
theorem report?_cached_after (v : store.View) {P : σ → Prop} (hr : store.Rereads P) (hs : P s)
    (hclock : ∀ i, (clock i).IsValid) (hn : l.keys.Nodup)
    (hx : Exchanged l store transport clock 0 (l.batches store (clock 0) s) founds s t s' t')
    (hl : Lasts v.isLive (v.content s) l.keys clock clock' founds.length)
    (hp : ∀ x ∈ founds.flatten, x.2.Storable) {key : String} (hk : key ∈ l.keys) :
    report? (l.cached store (clock' 0) s') key =
      report? (l.cached store (clock 0) s ++ founds.flatten) key := by
  rw [report?_append, report?_cached l _ _ _ hk, report?_cached l _ _ _ hk]
  by_cases hread : store.Readable s
  · obtain ⟨found, hf⟩ := hread (clock 0) l.keys
    obtain ⟨found', hf'⟩ := (hx.readable hr hs).1 hread (clock' 0) l.keys
    have hnodup := nodup_keys_batches hn store (clock 0) s
    have hlaid := laid_of_exchanged v hclock hx hnodup
    rw [shown_eq_stored v hf hk, shown_eq_stored v hf' hk]
    cases hreport : report? founds.flatten key with
    | none =>
      rw [hlaid.stored_of_not_mem hl hk (report?_eq_none_iff.mp hreport), Option.or_none]
    | some p =>
      have hm := mem_of_report? hreport
      obtain ⟨r, hmiss, hkey⟩ := hx.key_of_mem hm
      rw [flatten_batches, misses_cached l v hf] at hmiss
      have hnone : stored v (clock 0) s key = none := by
        have := (List.mem_filter.mp hmiss).2
        rw [hkey] at this
        simpa using this
      rw [hlaid.stored_of_mem hl hm (Entry.report_ofReport (hp _ hm)), hnone, Option.none_or]
  · obtain ⟨rfl, hempty⟩ := (hx.readable hr hs).2 hread
    rw [hempty, shown_of_not_readable hr hread, shown_of_not_readable hr hread]
    rfl

/-- The same reports under the keys give the same answers. -/
theorem answer_congr {found found' : Assignment} {r : InclusionPath}
    (h : report? found' r.key = report? found r.key) : l.answer found' r = l.answer found r := by
  simp only [answer, h]

theorem misses_congr {found found' : Assignment}
    (h : ∀ key ∈ l.keys, report? found' key = report? found key) :
    l.misses found' = l.misses found := by
  unfold misses
  apply List.filter_congr
  intro r hr
  rw [h r.key (key_mem_keys hr)]

/-- A run that finds some reports in its store asks for the other registrations, and what it gives
for the first does not depend on what it is answered. -/
theorem run_of_cached (transport : Transport τ) {s : σ} {found : Assignment}
    (h : ∀ key ∈ l.keys, report? (l.cached store (clock 0) s) key = report? found key) (t : τ) :
    let r := (l.run store transport clock s t).1
    let wanted := (l.misses found).map (·.target.purl)
    r.requested <+: wanted ∧
    (∀ ps, r.result = .ok ps → r.requested = wanted ∧
      ∀ (i : ℕ) q p, l.registrations[i]? = some q → report? found q.key = some p →
        ps[i]? = some (l.filter.apply p q)) ∧
    (l.misses found = [] →
      r.requests = [] ∧ r.result = .ok (l.registrations.map (l.answer found))) := by
  intro r wanted
  have hrequested := requested_run l store transport clock s t
  rw [misses_congr h] at hrequested
  have hanswer (later : Assignment) {q : InclusionPath} {p : PackageReport}
      (hq : q ∈ l.registrations) (hp : report? found q.key = some p) :
      l.answer (l.cached store (clock 0) s ++ later) q = l.filter.apply p q := by
    simp only [answer, report?_append, h q.key (key_mem_keys hq), hp, Option.some_or]
  refine ⟨hrequested.1, fun ps hps => ⟨hrequested.2 ps hps, ?_⟩, fun hnone => ?_⟩
  · intro i q p hi hp
    rcases run_cases l store transport clock s t with ⟨founds, s', t', -, hr⟩ |
      ⟨done, b, rest, founds, s₁, t₁, e, s', t', -, -, -, hr⟩
    · simp only [r, hr] at hps
      cases hps
      rw [List.getElem?_map, hi, Option.map_some, hanswer _ (List.mem_of_getElem? hi) hp]
    · simp only [r, hr] at hps
      cases hps
  · have hb : l.batches store (clock 0) s = [] := by
      rw [batches, misses_congr h, hnone, Batch.chunks]
    rcases run_cases l store transport clock s t with ⟨founds, s', t', hx, hr⟩ |
      ⟨done, b, rest, founds, s₁, t₁, e, s', t', hcut, -, -, -⟩
    · rw [hb] at hx hr
      cases hx
      simp only [r, hr, List.map_nil, List.flatten_nil, List.append_nil, true_and]
      congr 1
      apply List.map_congr_left
      exact fun q hq => answer_congr (h q.key (key_mem_keys hq))
    · rw [hb] at hcut
      simp at hcut

end Lookup

/-- Opening makes the file, so that it is there. -/
theorem FileStore.unguarded_of_openAt {path : String} {hours : ℕ} {d d' : Disk} {f : FileStore}
    (h : FileStore.openAt path hours d = (.ok f, d')) : f.Unguarded d' := by
  unfold openAt at h
  split at h
  · cases h
  · split at h
    · cases h
    · rename_i ho
      cases h
      obtain ⟨hp, node, hnode⟩ := Disk.node?_of_openFile ho
      intro q hq hnone
      obtain rfl := Except.ok.inj (hp.symm.trans hq)
      rw [hnode] at hnone
      cases hnone

namespace Shelf

def lifetime : Shelf → Lifetime
  | memory lifetime _ => lifetime
  | file f => f.lifetime

/-- The entries that the store on a shelf holds. -/
def held (d : Disk) : Shelf → Entries
  | memory _ entries => entries
  | file f => f.held d

/-- A store's file that is not there is not kept from being read. -/
def Unguarded (d : Disk) : Shelf → Prop
  | memory _ _ => True
  | file f => f.Unguarded d

theorem exists_view {shelf : Shelf} {d : Disk} (hf : shelf.IsOpened) (hg : shelf.Unguarded d) :
    ∃ (v : (shelf.openOn d).store.View) (P : (shelf.openOn d).State → Prop),
      (shelf.openOn d).store.Rereads P ∧ P (shelf.openOn d).state ∧
      v.content (shelf.openOn d).state = (shelf.held d).get? ∧
      v.isLive = fun now e => !e.isExpired shelf.lifetime now := by
  cases shelf with
  | memory lifetime entries =>
    exact ⟨memoryView lifetime, fun _ => True, rereads_memoryStore lifetime, trivial, rfl, rfl⟩
  | file f => exact ⟨fileView f hf, f.Unguarded, rereads_fileStore hf, hg, rfl, rfl⟩

end Shelf

namespace Service

variable {σ τ : Type}

/-- The next run uses the store in memory or in a file that is on a shelf. -/
structure Uses (s : Service σ) (w : World σ) (shelf : Shelf) (d : Disk) : Prop where
  openStore_eq : s.openStore w = shelf.openOn d
  isOpened : shelf.IsOpened
  unguarded : shelf.Unguarded d

/-- The reports that a run has from its store and from the service. -/
def gathered (s : Service σ) (transport : Transport τ) (clock : Clock) (w : World σ) (t : τ) :
    Except AuditError Assignment :=
  (s.lookup.gather (s.openStore w).store transport clock (s.openStore w).state t).1.result

theorem unguarded_freshShelf (s : Service σ) (d : Disk) :
    (s.freshShelf d).1.Unguarded (s.freshShelf d).2 := by
  unfold freshShelf
  split
  · trivial
  · split
    · rename_i h
      exact FileStore.unguarded_of_openAt h
    · trivial

/-- A service without a store that was given to it uses one in memory or in a file. -/
theorem Reachable.exists_uses {s : Service σ} (hs : s.Reachable) (hi : s.injected = none)
    {w : World σ} (hg : ∀ shelf, s.shelf = some shelf → shelf.Unguarded w.disk) :
    ∃ shelf d, s.Uses w shelf d := by
  have hunguarded : (s.resolveShelf w.disk).1.Unguarded (s.resolveShelf w.disk).2 := by
    unfold resolveShelf
    split
    · rename_i shelf h
      exact hg shelf h
    · exact unguarded_freshShelf s w.disk
  exact ⟨(s.resolveShelf w.disk).1, (s.resolveShelf w.disk).2, openStore_of_shelf hi rfl,
    isOpened_resolveShelf hs.isOpened w.disk, hunguarded⟩

end Service

open Lookup in
/-- After a run that succeeded, the next one on the same store asks for exactly the registrations that
had no report, and for none when there are none; for the others both give the same, however the
reports were matched. -/
theorem run_warm {σ τ τ' : Type} {s : Service σ} (hs : s.Reachable) {w : World σ} {shelf : Shelf}
    {d : Disk} (hu : s.Uses w shelf d) {transport : Transport τ} {clock clock' : Clock}
    (hclock : ∀ i, (clock i).IsValid) {t : τ} {found : Assignment}
    (hok : s.gathered transport clock w t = .ok found) (hp : ∀ x ∈ found, x.2.Storable)
    (hl : Lasts (fun now e => !e.isExpired shelf.lifetime now) (shelf.held d).get? s.lookup.keys
      clock clock' (s.run transport clock w t).record.requests.length)
    (transport' : Transport τ') (t' : τ') :
    let first := s.run transport clock w t
    let second := first.service.run transport' clock' first.world t'
    let unreported := s.lookup.misses found
    let wanted := unreported.map (·.target.purl)
    ∃ ps, first.record.result = .ok ps ∧
      second.record.requested <+: wanted ∧
      (∀ ps', second.record.result = .ok ps' → second.record.requested = wanted ∧
        ∀ (i : ℕ) r p, s.registrations[i]? = some r → report? found r.key = some p →
          ps[i]? = some (s.filter.apply p r) ∧ ps'[i]? = some (s.filter.apply p r)) ∧
      (unreported = [] → second.record.requests = [] ∧ second.record.result = .ok ps) := by
  intro first second unreported wanted
  obtain ⟨v, P, hr, hP, hcontent, hlive⟩ := Shelf.exists_view hu.isOpened hu.unguarded
  have hok : ((s.lookup.gather (shelf.openOn d).store transport clock (shelf.openOn d).state t).1
      ).result = .ok found := by
    rw [← hu.openStore_eq]
    exact hok
  obtain ⟨founds, s', t₁, hx, rfl, hrun⟩ := exchanged_of_gather hok
  have hfirst := Service.record_run_of_openStore hu.openStore_eq transport clock t
  rw [hrun] at hfirst
  have hnext : first.service.openStore first.world =
      ⟨(shelf.openOn d).State, (shelf.openOn d).store, s'⟩ := by
    rw [Service.openStore_run, hu.openStore_eq, hrun]
  have hsecond := Service.record_run_of_openStore hnext transport' clock' t'
  rw [Service.lookup_run] at hsecond
  rw [hfirst, List.length_map, ← hx.length_eq, ← hcontent, ← hlive] at hl
  have hcached : ∀ key ∈ s.lookup.keys, report? (s.lookup.cached _ (clock' 0) s') key = _ :=
    fun key hk => report?_cached_after (l := s.lookup) v hr hP hclock hs.nodup_keys hx hl
      (fun x hx => hp x (List.mem_append_right _ hx)) hk
  obtain ⟨hstart, hsame, hnone⟩ := run_of_cached transport' hcached t'
  rw [← hsecond] at hstart hsame hnone
  refine ⟨s.registrations.map (s.lookup.answer _), by rw [hfirst]; rfl, hstart, ?_, hnone⟩
  intro ps' hps'
  refine ⟨(hsame ps' hps').1, fun i r p hi hreport => ⟨?_, (hsame ps' hps').2 i r p hi hreport⟩⟩
  rw [List.getElem?_map, hi, Option.map_some]
  simp only [answer, hreport]
  rfl

open Lookup in
/-- Two reports that name neither package are matched by position, and found again. -/
theorem run_warm_by_position :
    let s : Service Entries := (Service.new.register (.single ⟨"npm", none, "a", some "1.0.0"⟩)).register
      (.single ⟨"npm", none, "b", some "2.0.0"⟩)
    let first : PackageReport := { PackageReport.blank with coordinates := "first" }
    let second : PackageReport := { PackageReport.blank with coordinates := "second" }
    let clock : Clock := fun _ => ⟨⟨2024, 5, 1⟩, 0, 0⟩
    let w : World Entries := ⟨.empty, .empty⟩
    let r := s.run scriptedTransport clock w [.reports [first, second]]
    r.record.result = .ok [first, second] ∧
      (r.service.run scriptedTransport clock r.world r.transport).record.requests = [] ∧
      (r.service.run scriptedTransport clock r.world r.transport).record.result =
        .ok [first, second] := by
  intro s first second clock w r
  have hs : s.Reachable := .register _ (.register _ .new)
  have hu : s.Uses w (.memory (.ofHours 12) .empty) .empty := ⟨rfl, trivial, trivial⟩
  have hok : s.gathered scriptedTransport clock w [.reports [first, second]] =
      .ok [("npm:a@1.0.0", first), ("npm:b@2.0.0", second)] := by
    decide +kernel
  have hp : ∀ x ∈ [("npm:a@1.0.0", first), ("npm:b@2.0.0", second)], x.2.Storable := by
    intro x hx
    simp only [List.mem_cons, List.not_mem_nil, or_false] at hx
    rcases hx with rfl | rfl <;> exact ⟨by decide, by simp [first, second, PackageReport.blank]⟩
  have hlive : ∀ e : Entry, e.createdAt = clock 0 → e.isExpired (.ofHours 12) (clock 0) = false := by
    intro e he
    rw [Entry.isExpired, he]
    decide
  have hl : Lasts (fun now e => !e.isExpired (.ofHours 12) now) Entries.empty.get? s.lookup.keys
      clock clock r.record.requests.length := by
    refine ⟨fun key _ e he => ?_, fun key _ e he => ?_, fun i _ e he => ?_⟩
    · cases he
    · cases he
    · have := hlive e he
      exact ⟨fun j _ => by simpa using this, by simpa using this⟩
  obtain ⟨ps, hfirst, -, -, hnone⟩ := run_warm hs hu (fun i => by decide) hok hp hl
    scriptedTransport r.transport
  have hresult : r.record.result = .ok [first, second] := by decide +kernel
  obtain rfl : ps = [first, second] := Except.ok.inj (hfirst.symm.trans hresult)
  exact ⟨hresult, hnone (by decide +kernel)⟩

end DependencyAudit
