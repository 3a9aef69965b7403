import DependencyAudit.Proofs.Lookup.Exchange
import DependencyAudit.Proofs.Lookup.Misses
import DependencyAudit.Proofs.Lookup.Reachable

/-! Calls of a service one after another, and what each does to it: of the paths that they register
the first under each key stays, and each run answers the registrations one by one. -/
namespace DependencyAudit

/-- A call of an operation of a service; a run has its own transport, clock and world. -/
inductive ServiceCall (σ : Type) : Type 1 where
  | register (path : InclusionPath)
  | registerCoordinate (c : Coordinate)
  | addRule (r : Rule)
  | setLocation (path : Option String) (d : Disk)
  | setTtl (hours : ℕ)
  | setBatchSize (size : ℕ)
  | setCredentials (c : Credentials)
  | withStore (store : Store σ)
  | run {τ : Type} (transport : Transport τ) (clock : Clock) (w : World σ) (t : τ)

namespace ServiceCall

variable {σ : Type}

/-- The path that a call registers. -/
def path? : ServiceCall σ → Option InclusionPath
  | register path => some path
  | registerCoordinate c => some (.single c)
  | _ => none

/-- The store that a call gives to the service. -/
def store? : ServiceCall σ → Option (Store σ)
  | withStore store => some store
  | _ => none

/-- The cache file, or none, that a call sets; a place that cannot be used is not set. -/
def location? : ServiceCall σ → Option (Option String)
  | setLocation none _ => some none
  | setLocation (some path) d =>
    match (Service.checkLocation path d).1 with
    | .ok () => some (some path)
    | .error _ => none
  | _ => none

def hours? : ServiceCall σ → Option ℕ
  | setTtl hours => some hours
  | _ => none

def size? : ServiceCall σ → Option ℕ
  | setBatchSize size => if size = 0 then none else some size
  | _ => none

/-- A call after which the store is made anew. -/
def resets (c : ServiceCall σ) : Bool := c.location?.isSome || c.hours?.isSome

def isRun : ServiceCall σ → Bool
  | run .. => true
  | _ => false

/-- The service after a call; a call that fails leaves it as it was. -/
def perform (s : Service σ) : ServiceCall σ → Service σ
  | register path => s.register path
  | registerCoordinate c => s.registerCoordinate c
  | addRule r => s.addRule r
  | setLocation path d => (s.setLocation path d).1.toOption.getD s
  | setTtl hours => s.setTtl hours
  | setBatchSize size => (s.setBatchSize size).toOption.getD s
  | setCredentials c => s.setCredentials c
  | withStore store => s.withStore store
  | run transport clock w t => (s.run transport clock w t).service

/-- What calls make of a new service. -/
@[irreducible] def after (calls : List (ServiceCall σ)) : Service σ :=
  calls.foldl perform Service.new

theorem reachable_perform {s : Service σ} (h : s.Reachable) (c : ServiceCall σ) :
    (c.perform s).Reachable := by
  cases c with
  | register path => exact .register path h
  | registerCoordinate c => exact .register (.single c) h
  | addRule r => exact .addRule r h
  | setLocation path d =>
    simp only [perform]
    cases hs : s.setLocation path d with
    | mk outcome d' =>
      cases outcome with
      | error e => exact h
      | ok s' => exact .setLocation h hs
  | setTtl hours => exact .setTtl hours h
  | setBatchSize size =>
    simp only [perform]
    cases hs : s.setBatchSize size with
    | error e => exact h
    | ok s' => exact .setBatchSize h hs
  | setCredentials c => exact .setCredentials c h
  | withStore store => exact .withStore store h
  | run transport clock w t => exact .run transport clock w t h

theorem reachable_foldl_perform {s : Service σ} (h : s.Reachable) (calls : List (ServiceCall σ)) :
    (calls.foldl perform s).Reachable := by
  induction calls generalizing s with
  | nil => exact h
  | cons c calls ih => exact ih (reachable_perform h c)

theorem reachable_after (calls : List (ServiceCall σ)) : (after calls).Reachable := by
  rw [after]
  exact reachable_foldl_perform .new calls

/-- What a call does to a service. -/
structure Effect (s : Service σ) (c : ServiceCall σ) (s' : Service σ) : Prop where
  registrations : c.path? = none → s'.registrations = s.registrations
  registeredKeys : c.path? = none → s'.registeredKeys = s.registeredKeys
  cacheFile : s'.cacheFile = c.location?.getD s.cacheFile
  ttlHours : s'.ttlHours = c.hours?.getD s.ttlHours
  batchSize : s'.batchSize = c.size?.getD s.batchSize
  injected : s'.injected = c.store?.or s.injected
  shelf : c.isRun = false → s'.shelf = if c.resets then none else s.shelf

theorem effect_perform (s : Service σ) (c : ServiceCall σ) : Effect s c (c.perform s) := by
  cases c with
  | register path =>
    simp only [perform, Service.register]
    split <;> exact ⟨fun h => absurd h (Option.some_ne_none _),
      fun h => absurd h (Option.some_ne_none _), rfl, rfl, rfl, rfl, fun _ => rfl⟩
  | registerCoordinate c =>
    simp only [perform, Service.registerCoordinate, Service.register]
    split <;> exact ⟨fun h => absurd h (Option.some_ne_none _),
      fun h => absurd h (Option.some_ne_none _), rfl, rfl, rfl, rfl, fun _ => rfl⟩
  | setLocation path d =>
    cases path with
    | none => exact ⟨fun _ => rfl, fun _ => rfl, rfl, rfl, rfl, rfl, fun _ => rfl⟩
    | some path =>
      cases hcheck : Service.checkLocation path d with
      | mk outcome d' =>
        cases outcome <;> constructor <;>
          simp [perform, Service.setLocation, location?, hours?, size?, store?, resets, hcheck,
            Except.toOption]
  | setBatchSize size =>
    simp only [perform, Service.setBatchSize]
    by_cases hsize : size = 0 <;> constructor <;>
      simp [location?, hours?, size?, store?, resets, hsize, Except.toOption]
  | run transport clock w t =>
    obtain ⟨shelf, h⟩ := Service.exists_service_run s transport clock w t
    rw [perform, h]
    exact ⟨fun _ => rfl, fun _ => rfl, rfl, rfl, rfl, rfl, fun hrun => Bool.noConfusion hrun⟩
  | addRule | setTtl | setCredentials | withStore =>
    exact ⟨fun _ => rfl, fun _ => rfl, rfl, rfl, rfl, rfl, fun _ => rfl⟩

theorem perform_of_some (s : Service σ) {c : ServiceCall σ} {path : InclusionPath}
    (h : c.path? = some path) : c.perform s = s.register path := by
  cases c <;> cases h <;> rfl

/-- As far as registrations go, calls do no more than to register their paths in turn. -/
theorem registrations_foldl_perform (s : Service σ) (calls : List (ServiceCall σ)) :
    (calls.foldl perform s).registrations =
      ((calls.filterMap path?).foldl Service.register s).registrations := by
  induction calls generalizing s with
  | nil => rfl
  | cons c calls ih =>
    rw [List.foldl_cons, ih]
    cases hc : c.path? with
    | some path => rw [List.filterMap_cons_some hc, List.foldl_cons, perform_of_some s hc]
    | none =>
      -- The paths that follow are registered alike, for that depends on the list and the set alone.
      have hr := (effect_perform s c).registrations hc
      have hk := (effect_perform s c).registeredKeys hc
      have hregistered : (c.perform s).isRegistered = s.isRegistered := by
        funext key
        rw [Service.isRegistered, hk, Service.isRegistered]
      rw [List.filterMap_cons_none hc, Service.registrations_foldl_register, hr, hregistered,
        ← Service.registrations_foldl_register]

/-- Of the registered paths the first under each key stays, in the order of the calls. -/
theorem registrations_after (calls : List (ServiceCall σ)) :
    (after calls).registrations =
      (calls.filterMap path?).eraseDupsBy fun p q => p.key == q.key := by
  rw [after, registrations_foldl_perform, Service.registrations_foldl_register]
  simp [Service.new, Service.isRegistered]

end ServiceCall

namespace Lookup

variable {σ τ : Type} {l : Lookup} {store : Store σ} {transport : Transport τ} {clock : Clock}

/-- What a run answers for a registration, where these reports are cached and those were assigned. -/
inductive IsAnswer (l : Lookup) (cached : String → Option PackageReport) (assigned : Assignment)
    (r : InclusionPath) : PackageReport → Prop
  | cached {p : PackageReport} (h : cached r.key = some p) :
      IsAnswer l cached assigned r (l.filter.apply p r)
  | assigned {p : PackageReport} (hc : cached r.key = none) (h : (r.key, p) ∈ assigned) :
      IsAnswer l cached assigned r (l.filter.apply p r)
  | pending (hc : cached r.key = none) (h : ∀ p, (r.key, p) ∉ assigned) :
      IsAnswer l cached assigned r (.pending r.target)

theorem isAnswer_answer {now : Timestamp} {s : σ} {assigned : Assignment} {r : InclusionPath}
    (hr : r ∈ l.registrations) : IsAnswer l (shown store now l.keys s) assigned r
      (l.answer (l.cached store now s ++ assigned) r) := by
  rw [answer, report?_append, report?_cached l store now s (key_mem_keys hr)]
  cases hc : shown store now l.keys s r.key with
  | some p => exact .cached hc
  | none =>
    rw [Option.none_or]
    cases ha : report? assigned r.key with
    | some p => exact .assigned hc (mem_of_report? ha)
    | none => exact .pending hc fun p hp => report?_eq_none_iff.mp ha _ hp rfl

/-- A run that succeeds answers its registrations one by one. -/
theorem exists_of_run_ok {s : σ} {t : τ} {answers : List PackageReport}
    (h : (l.run store transport clock s t).1.result = .ok answers) :
    ∃ founds s' t',
      Exchanged l store transport clock 0 (l.batches store (clock 0) s) founds s t s' t' ∧
      List.Forall₂ (IsAnswer l (shown store (clock 0) l.keys s) founds.flatten)
        l.registrations answers := by
  rcases run_cases l store transport clock s t with
    ⟨founds, s', t', hx, hr⟩ | ⟨_, _, _, _, _, _, e, _, _, -, -, -, hr⟩
  · rw [hr] at h
    cases h
    refine ⟨founds, s', t', hx, ?_⟩
    rw [List.forall₂_map_right_iff, List.forall₂_same]
    exact fun r hm => isAnswer_answer hm
  · rw [hr] at h
    cases h

end Lookup

/-- Whatever calls are made, the registrations are the paths that were registered first under their
keys, in that order, and their keys are those that are known; and a run that succeeds gives one answer
for each of them in turn: its cached report or else the one assigned to its key, filtered on its path,
or a placeholder where there is neither. -/
theorem one_answer_per_registration {σ : Type} (calls : List (ServiceCall σ)) :
    let s := ServiceCall.after calls
    s.registrations =
      (calls.filterMap ServiceCall.path?).eraseDupsBy (fun p q => p.key == q.key) ∧
    (s.registrations.map (·.key)).Nodup ∧
    (∀ key, key ∈ s.registeredKeys ↔ ∃ r ∈ s.registrations, r.key = key) ∧
    ∀ {τ : Type} (transport : Transport τ) (clock : Clock) (w : World σ) (t : τ) answers,
      (s.run transport clock w t).record.result = .ok answers →
      let o := s.openStore w
      ∃ founds o' t', Lookup.Exchanged s.lookup o.store transport clock 0
          (s.lookup.batches o.store (clock 0) o.state) founds o.state t o' t' ∧
        List.Forall₂ (s.lookup.IsAnswer
          (Lookup.shown o.store (clock 0) s.lookup.keys o.state) founds.flatten)
          s.registrations answers := by
  intro s
  have hs : s.Reachable := ServiceCall.reachable_after calls
  refine ⟨ServiceCall.registrations_after calls, hs.nodup_keys, fun key => ?_, ?_⟩
  · rw [← hs.indexed.isRegistered_iff, Service.isRegistered, List.contains_iff_mem]
  · intro τ transport clock w t answers h
    rw [Service.record_run] at h
    exact Lookup.exists_of_run_ok h

/-- Of two packages that differ in case the first stays. A report is cached, one is fetched and loses
a finding, and for the last package there is none. -/
theorem one_answer_per_registration_case :
    let c (name : String) : Coordinate := ⟨"npm", none, name, some "1.0.0"⟩
    let below (parent name : String) : InclusionPath :=
      (InclusionPath.single (c parent)).child (c name)
    let calls : List (ServiceCall Entries) := [.withStore (memoryStore (.ofHours 1)),
      .registerCoordinate (c "A"), .setBatchSize 0, .register (below "b" "a"),
      .addRule (.ignoreVulnerability none "x"), .register (below "a" "b"), .setTtl 0,
      .setBatchSize 2, .registerCoordinate (c "c"), .registerCoordinate (c "B")]
    let s := ServiceCall.after calls
    let report (name : String) (ids : List String) : PackageReport :=
      { PackageReport.blank with
        coordinates := (c name).text
        vulnerabilities := ids.map fun id => { Vulnerability.blank with id } }
    let clock : Clock := fun _ => ⟨⟨2024, 5, 1⟩, 0, 0⟩
    let w : World Entries :=
      ⟨.empty, Entries.empty.put "npm:b@1.0.0" (.ofReport (report "b" []) (clock 0))⟩
    let script : List Answer := [.reports [report "a" ["x", "y"]]]
    let answers := [{ report "a" ["y"] with unfilteredCount := 2 }, report "b" [], .pending (c "c")]
    let o := s.openStore w
    (s.run scriptedTransport clock w script).record.result = .ok answers ∧
      s.registrations = [.single (c "A"), below "a" "b", .single (c "c")] ∧
      (s.registrations.map (·.key)).Nodup ∧
      (∀ key, key ∈ s.registeredKeys ↔ ∃ r ∈ s.registrations, r.key = key) ∧
      ∃ assigned, List.Forall₂ (s.lookup.IsAnswer
        (Lookup.shown o.store (clock 0) s.lookup.keys o.state) assigned) s.registrations answers := by
  intro c below calls s report clock w script answers o
  obtain ⟨hregistrations, hnodup, hkeys, hrun⟩ := one_answer_per_registration calls
  have hresult : (s.run scriptedTransport clock w script).record.result = .ok answers := by
    decide +kernel
  have hfirst : (calls.filterMap ServiceCall.path?).eraseDupsBy (fun p q => p.key == q.key) =
      [.single (c "A"), below "a" "b", .single (c "c")] := by
    decide +kernel
  obtain ⟨founds, -, -, -, hanswers⟩ := hrun scriptedTransport clock w script answers hresult
  exact ⟨hresult, hregistrations.trans hfirst, hnodup, hkeys, founds.flatten, hanswers⟩

end DependencyAudit
