import DependencyAudit.Proofs.Audit.Reachable
import DependencyAudit.Proofs.Lookup.Throttled

/-! Audits under a rate limit that is tolerated: each of them stores what it was answered, so that one
of them reports about everything. -/
namespace DependencyAudit.Auditor

open Lookup

variable {σ τ : Type}

/-- What an audit makes of the result of its lookup. -/
def reported (settings : Settings) (rs : List InclusionPath) :
    Except AuditError (List PackageReport) → Except AuditError AuditReport
  | .ok packages => .ok (.of (packages.zip rs))
  | .error e => onFailure settings e

theorem reported_rateLimited {settings : Settings} (hc : settings.usableCredentials.isSome = true)
    (hl : settings.rateLimitAsError = false) (rs : List InclusionPath) :
    reported settings rs (.error (.transport .rateLimited)) = .ok .empty := by
  cases h : settings.usableCredentials with
  | none => simp [h] at hc
  | some c => simp [reported, onFailure, AuditError.isRateLimited, h, hl]

/-- An auditor that looks up the same as another one did, with its store in a state. -/
structure Resumes (a : Auditor σ) (o : OpenStore) (a' : Auditor σ) (w : World σ) : Prop where
  settings_eq : a'.settings = a.settings
  lookup_eq : a'.service.lookup = a.service.lookup
  openStore_eq : a'.service.openStore w = o

theorem Resumes.refl (a : Auditor σ) (w : World σ) : Resumes a (a.service.openStore w) a w :=
  ⟨rfl, rfl, rfl⟩

/-- An audit is a run of its lookup, and leaves the store as that does. -/
theorem Resumes.run {a a' : Auditor σ} {o : OpenStore} {w : World σ} (h : Resumes a o a' w)
    (transport : Transport τ) (clock : Clock) (t : τ) :
    let audit := a'.run transport clock w t
    let lookup := a.service.lookup.run o.store transport clock o.state t
    audit.record.result = reported a.settings a.service.registrations lookup.1.result ∧
      Resumes a ⟨o.State, o.store, lookup.2.1⟩ audit.auditor audit.world := by
  obtain ⟨hsettings, hlookup, rfl⟩ := h
  have hregistrations : a'.service.registrations = a.service.registrations :=
    congrArg Lookup.registrations hlookup
  intro audit lookup
  refine ⟨?_, hsettings, ?_, ?_⟩
  · simp only [audit, lookup, Auditor.run, Service.record_run, hlookup, hsettings, hregistrations]
    cases (a.service.lookup.run (a'.service.openStore w).store transport clock
      (a'.service.openStore w).state t).1.result <;> rfl
  · simp only [audit, Auditor.run, Service.lookup_run, hlookup]
  · simp only [audit, lookup, Auditor.run, Service.openStore_run, hlookup]

/-- Audits one after another, counted from zero; each has its own clock and finds the service in its
own state. -/
def series (a : Auditor σ) (transport : Transport τ) (clocks : ℕ → Clock) (ts : ℕ → τ)
    (w : World σ) : ℕ → AuditResult σ τ
  | 0 => a.run transport (clocks 0) w (ts 0)
  | k + 1 =>
    let last := series a transport clocks ts w k
    last.auditor.run transport (clocks (k + 1)) last.world (ts (k + 1))

/-- A series of audits is a series of runs of the lookup. -/
theorem series_eq (a : Auditor σ) (transport : Transport τ) (clocks : ℕ → Clock) (ts : ℕ → τ)
    (w : World σ) (k : ℕ) :
    let o := a.service.openStore w
    let before := a.service.lookup.stateBefore o.store transport clocks ts o.state
    let audit := a.series transport clocks ts w k
    audit.record.result = reported a.settings a.service.registrations
        (a.service.lookup.run o.store transport (clocks k) (before k) (ts k)).1.result ∧
      Resumes a ⟨o.State, o.store, before (k + 1)⟩ audit.auditor audit.world := by
  induction k with
  | zero => exact (Resumes.refl a w).run transport (clocks 0) (ts 0)
  | succ k ih => exact ih.2.run transport (clocks (k + 1)) (ts (k + 1))

/-- The registrations of which the store has no live report that can be decoded. -/
def uncached (a : Auditor σ) (w : World σ) (v : (a.service.openStore w).store.View)
    (now : Timestamp) : List InclusionPath :=
  a.service.lookup.missing v now (a.service.openStore w).state

/-- With a rate limit that lets one request through in each audit, all audits but the last one that is
needed give the empty report, and that one gives the report of an audit without the limit. -/
theorem series_progresses {a : Auditor σ} (ha : a.Reachable)
    (hcredentials : a.settings.usableCredentials.isSome = true)
    (hlimit : a.settings.rateLimitAsError = false) {w : World σ}
    {v : (a.service.openStore w).store.View} {transport : Transport τ}
    {about : String → PackageReport} {clocks : ℕ → Clock} {ts : ℕ → τ} {needed : ℕ}
    (hneeded : needed = (a.uncached w v (clocks 0 0)).length ⌈/⌉ a.settings.batchSize)
    (h : a.service.lookup.Throttled v transport about clocks ts (a.service.openStore w).state needed)
    (hpos : 1 ≤ needed) :
    (∀ k, k + 1 < needed → (a.series transport clocks ts w k).record.result = .ok .empty) ∧
    ∃ report, (a.series transport clocks ts w (needed - 1)).record.result = .ok report ∧
      ∀ (τ' : Type) (unlimited : Transport τ') (t : τ') (clock : Clock),
        unlimited.AnswersAll about t → clock 0 = clocks 0 0 →
        (a.run unlimited clock w t).record.result = .ok report := by
  have hn : a.service.lookup.keys.Nodup := ha.configured.reachable.nodup_keys
  have hsize : a.service.lookup.batchSize = a.settings.batchSize :=
    congrArg Lookup.batchSize ha.configured.lookup_eq
  have hsizepos : 0 < a.service.lookup.batchSize := hsize ▸ ha.configured.batchSize_pos
  rw [← hsize, uncached] at hneeded
  subst hneeded
  have hresult := h.result_eq hn hsizepos
  refine ⟨fun k hk => ?_, AuditReport.of ((a.service.registrations.map fun r =>
    a.service.filter.apply (settled v about (clocks 0 0) (a.service.openStore w).state r) r).zip
      a.service.registrations), ?_, fun τ' unlimited t clock hall hclock => ?_⟩
  · rw [(series_eq a transport clocks ts w k).1, hresult k (by omega), if_pos hk]
    exact reported_rateLimited hcredentials hlimit _
  · rw [(series_eq a transport clocks ts w _).1, hresult _ (by omega), if_neg (by omega)]
    rfl
  · rw [((Resumes.refl a w).run unlimited clock t).1, h.result_unlimited hn hall hclock]
    rfl

/-- Three packages in batches of two: the first audit is stopped, and the second reports. -/
theorem series_progresses_three :
    let settings : Settings := { Settings.default ⟨"/s", "/c"⟩ with
      cacheFile := none, batchSize := 2, rateLimitAsError := false, credentials := some ⟨"u", "t"⟩ }
    let fresh : Auditor Entries :=
      ⟨{ (Service.new : Service Entries) with batchSize := 2, credentials := some ⟨"u", "t"⟩ }, settings⟩
    let a := (fresh.addForest [.node "" "a" "1" [.node "" "b" "2" []], .node "" "c" "3" []]).2
    let about (purl : String) : PackageReport :=
      ⟨purl, none, none, 1, [{ Vulnerability.blank with id := "X-1" }]⟩
    let clock : Clock := fun _ => ⟨⟨2024, 5, 1⟩, 0, 0⟩
    let w : World Entries := ⟨.empty, .empty⟩
    let clocks : ℕ → Clock := fun _ => clock
    let audits := a.series (.limited about) clocks (fun _ => true) w
    (audits 0).record.result = .ok .empty ∧
      (audits 1).record.result = (a.run (.unlimited about) clock w ()).record.result ∧
      (audits 1).record.result.isOk = true := by
  intro settings fresh a about clock w clocks audits
  have hfresh : new settings .empty = (.ok fresh, .empty) := rfl
  have ha : a.Reachable := .addForest _ (.new hfresh)
  let v : (a.service.openStore w).store.View := memoryView (.ofHours 12)
  have hneeded : 2 = (a.uncached w v (clocks 0 0)).length ⌈/⌉ a.settings.batchSize := by
    decide +kernel
  have hlive : ∀ e : Entry, e.createdAt = clock 0 → v.isLive (clock 0) e = true := by
    intro e he
    simp only [v, memoryView, Entry.isExpired, he]
    decide
  have h : a.service.lookup.Throttled v (.limited about) about clocks (fun _ => true)
      (a.service.openStore w).state 2 := by
    refine ⟨by decide +kernel, fun _ _ => rfl, fun r _ now => ?_,
      fun _ _ => Transport.answersOnce_limited about, fun _ _ => by decide, ?_,
      reads_memoryStore _ _, accepts_memoryStore _ _⟩
    · have hcount : 1 < Text.numberLimit := by decide
      have hfinite : Vulnerability.blank.score.isFinite = true := by decide
      exact Entry.report_ofReport ⟨hcount, by simpa [about] using hfinite⟩ now
    · refine ⟨fun _ _ _ he => ?_, fun _ _ _ he => ?_, fun _ _ _ _ e he => ?_⟩
      · cases he
      · cases he
      · exact ⟨hlive e he, fun _ => hlive e he⟩
  obtain ⟨hstopped, report, hreport, hall⟩ :=
    series_progresses ha (by decide) rfl hneeded h (by decide)
  have hsingle := hall Unit (.unlimited about) () clock (Transport.answersAll_unlimited about) rfl
  exact ⟨hstopped 0 (by decide), hreport.trans hsingle.symm, by rw [hreport]; rfl⟩

end DependencyAudit.Auditor
