import DependencyAudit.Proofs.Lookup.Serving

/-! A run over a service that knows one report for each package gives these reports, whatever is
cached and however the packages are put in batches. -/
namespace DependencyAudit

/-- The report of each package that has one. -/
abbrev Catalogue := Coordinate → Option PackageReport

namespace Catalogue

/-- Every report names its package, by the package URL or by the canonical text. -/
def Named (f : Catalogue) : Prop :=
  ∀ c p, f c = some p → p.coordinates = c.purl ∨ p.coordinates = c.text

/-- The first report of a list that names the package. -/
def ofReports (ps : List PackageReport) : Catalogue := fun c =>
  ps.find? fun p => p.coordinates == c.purl || p.coordinates == c.text

theorem named_ofReports (ps : List PackageReport) : (ofReports ps).Named := by
  intro c p h
  simpa using List.find?_some h

/-- The reports of the requested packages. -/
def reports (f : Catalogue) (request : Request) : List PackageReport :=
  request.coordinates.filterMap fun text => (Coordinate.ofText text).toOption.bind f

/-- What a run should give for each registration. -/
def results (f : Catalogue) (l : Lookup) : List PackageReport :=
  l.registrations.map fun r =>
    match f r.target with
    | some p => l.filter.apply p r
    | none => .pending r.target

end Catalogue

namespace Transport

variable {τ : Type}

/-- From a state on, every request is answered with the reports of its packages, in any order. -/
def Answers (transport : Transport τ) (f : Catalogue) (t : τ) : Prop :=
  ∀ before request, ∃ ps, (transport.send request (transport.after before t)).1 = .ok ps ∧
    ps.Perm (f.reports request)

/-- The service that looks up a catalogue. -/
def ofCatalogue (f : Catalogue) : Transport Unit where
  send request t := (.ok (f.reports request), t)

theorem answers_ofCatalogue (f : Catalogue) : (ofCatalogue f).Answers f () :=
  fun _ _ => ⟨_, rfl, List.Perm.refl _⟩

end Transport

/-- Both texts of the target are read as the target. -/
def InclusionPath.Readable (r : InclusionPath) : Prop :=
  Coordinate.ofText r.target.purl = .ok r.target ∧ Coordinate.ofText r.target.text = .ok r.target

theorem Catalogue.Named.cacheKey_eq {f : Catalogue} (hf : f.Named) {r : InclusionPath}
    (hr : r.Readable) {p : PackageReport} (hp : f r.target = some p) : p.cacheKey = r.key := by
  have hc : p.coordinate = .ok r.target := by
    unfold PackageReport.coordinate
    rcases hf r.target p hp with h | h
    · rw [h, hr.1]
    · rw [h, hr.2]
  exact PackageReport.cacheKey_of_coordinate hc

theorem Catalogue.reports_request (f : Catalogue) (l : Lookup) {b : Batch}
    (hb : ∀ r ∈ b, r.Readable) :
    f.reports (l.request b) = b.filterMap fun r => f r.target := by
  unfold reports Lookup.request
  rw [List.filterMap_map]
  apply List.filterMap_congr
  intro r hr
  simp [(hb r hr).1, Except.toOption]

namespace Lookup

variable {σ τ : Type} {l : Lookup} {store : Store σ} {transport : Transport τ} {f : Catalogue}

theorem serves_of_answers {rs : List InclusionPath} (hr : ∀ r ∈ rs, r.Readable) {t : τ}
    (ht : transport.Answers f t) : l.Serves transport (fun r => f r.target) rs t := by
  intro before b hb
  obtain ⟨ps, hs, hp⟩ := ht before (l.request b)
  rw [f.reports_request l fun r hm => hr r (hb hm)] at hp
  exact ⟨ps, hs, hp⟩

/-- The reports that are cached and those that are fetched make up the catalogue. -/
theorem gather_of_answers (hf : f.Named) (hr : ∀ r ∈ l.registrations, r.Readable)
    (hn : l.keys.Nodup) (clock : Clock) {s : σ} {t : τ} (hs : store.Accepts s)
    (ht : transport.Answers f t)
    (hc : ∀ r ∈ l.registrations, ∀ p, shown store (clock 0) l.keys s r.key = some p →
      f r.target = some p) :
    ∃ found, (l.gather store transport clock s t).1.result = .ok found ∧
      ∀ r ∈ l.registrations, report? found r.key = f r.target := by
  have hread : ∀ r ∈ l.misses (l.cached store (clock 0) s), r.Readable :=
    fun r hm => hr r (mem_misses.mp hm).1
  exact gather_of_serves hn clock (fun r hm p hp => hf.cacheKey_eq (hread r hm) hp) hs
    (serves_of_answers hread ht) hc

end Lookup

/-- All that a run meets agrees with the catalogue: the service answers from it, what is cached and
can be read is taken from it, and nothing fails but the reading of the store. -/
structure Faithful {σ τ : Type} (f : Catalogue) (s : Service σ) (transport : Transport τ)
    (clock : Clock) (w : World σ) (t : τ) : Prop where
  reachable : s.Reachable
  readable : ∀ r ∈ s.registrations, r.Readable
  answers : transport.Answers f t
  cached : ∀ r ∈ s.registrations, ∀ p,
    Lookup.shown (s.openStore w).store (clock 0) s.lookup.keys (s.openStore w).state r.key =
      some p → f r.target = some p
  accepts : (s.openStore w).store.Accepts (s.openStore w).state

theorem Faithful.result_run {σ τ : Type} {f : Catalogue} (hf : f.Named) {s : Service σ}
    {transport : Transport τ} {clock : Clock} {w : World σ} {t : τ}
    (h : Faithful f s transport clock w t) :
    (s.run transport clock w t).record.result = .ok (f.results s.lookup) := by
  obtain ⟨found, hres, hrep⟩ := Lookup.gather_of_answers (l := s.lookup) hf h.readable
    h.reachable.nodup_keys clock h.accepts h.answers h.cached
  rw [Service.record_run]
  simp only [Lookup.run, hres, Except.map, Catalogue.results, Except.ok.injEq]
  apply List.map_congr_left
  intro r hr
  cases hp : f r.target <;> simp only [Lookup.answer, hrep r hr, hp]

/-- A run gives the filtered reports of the catalogue, with placeholders where there is none; so it
gives the same with any batches and with anything cached. -/
theorem run_transparent {σ τ : Type} {f : Catalogue} (hf : f.Named) {s : Service σ}
    {transport : Transport τ} {clock : Clock} {w : World σ} {t : τ}
    (h : Faithful f s transport clock w t) :
    (s.run transport clock w t).record.result = .ok (s.registrations.map fun r =>
      match f r.target with
      | some p => s.filter.apply p r
      | none => .pending r.target) ∧
    ∀ (σ' τ' : Type) (s' : Service σ') (transport' : Transport τ') (clock' : Clock)
      (w' : World σ') (t' : τ'), Faithful f s' transport' clock' w' t' →
      s'.registrations = s.registrations → s'.filter = s.filter →
      (s'.run transport' clock' w' t').record.result =
        (s.run transport clock w t).record.result := by
  refine ⟨h.result_run hf, ?_⟩
  intro σ' τ' s' transport' clock' w' t' h' hr hs
  rw [h'.result_run hf, h.result_run hf]
  simp only [Catalogue.results, Service.lookup, hr, hs]

/-- Two packages are known, a third one is not; the second is cached. -/
theorem run_transparent_three :
    let f := Catalogue.ofReports [{ PackageReport.blank with coordinates := "pkg:npm/a@1.0.0" },
      { PackageReport.blank with coordinates := "npm:@x/b" }]
    let s : Service Entries :=
      (((Service.new.withStore (memoryStore ⟨1⟩)).register
        (.single ⟨"npm", none, "a", some "1.0.0"⟩)).register
        (.single ⟨"npm", some "@x", "b", none⟩)).register
        (.single ⟨"cargo", none, "c", some "2.0.0"⟩)
    let clock : Clock := fun _ => ⟨⟨2024, 5, 1⟩, 0, 0⟩
    let w : World Entries := ⟨.empty, Entries.empty.put "npm:@x/b"
      (.ofReport { PackageReport.blank with coordinates := "npm:@x/b" } (clock 0))⟩
    f.Named ∧ Faithful f s (.ofCatalogue f) clock w () ∧
      (s.run (.ofCatalogue f) clock w ()).record.result =
        .ok [{ PackageReport.blank with coordinates := "pkg:npm/a@1.0.0" },
          { PackageReport.blank with coordinates := "npm:@x/b" },
          .pending ⟨"cargo", none, "c", some "2.0.0"⟩] := by
  intro f s clock w
  have hregs : s.registrations = [.single ⟨"npm", none, "a", some "1.0.0"⟩,
      .single ⟨"npm", some "@x", "b", none⟩, .single ⟨"cargo", none, "c", some "2.0.0"⟩] := by
    decide +kernel
  have hshown : ∀ r ∈ s.registrations,
      let p := Lookup.shown (s.openStore w).store (clock 0) s.lookup.keys (s.openStore w).state r.key
      p = none ∨ p = f r.target := by
    rw [hregs]
    decide +kernel
  have h : Faithful f s (.ofCatalogue f) clock w () := by
    refine ⟨.register _ (.register _ (.register _ (.withStore _ .new))), ?_,
      Transport.answers_ofCatalogue f, ?_, accepts_memoryStore _ _⟩
    · rw [hregs]
      unfold InclusionPath.Readable
      decide +kernel
    · intro r hr p hp
      rcases hshown r hr with hn | he
      · cases hn.symm.trans hp
      · exact he.symm.trans hp
  have hf : f.Named := Catalogue.named_ofReports _
  refine ⟨hf, h, (run_transparent hf h).1.trans (congrArg Except.ok ?_)⟩
  rw [hregs]
  decide +kernel

end DependencyAudit
