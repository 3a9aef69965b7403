import Mathlib.Data.List.Nodup
import DependencyAudit.Lookup.Service
import DependencyAudit.Proofs.Cache.FileView

/-! What a service can become by calls of its operations, and the store that its next run uses. -/
namespace DependencyAudit

/-- A store and the state in which it is. -/
structure OpenStore where
  State : Type
  store : Store State
  state : State

namespace Shelf

/-- The store on a shelf; that of a file has the disk for its state. -/
def openOn (d : Disk) : Shelf → OpenStore
  | memory lifetime entries => ⟨Entries, memoryStore lifetime, entries⟩
  | file f => ⟨Disk, fileStore f, d⟩

/-- A file store comes from opening its file, which fails for a path that ends in a slash. -/
def IsOpened : Shelf → Prop
  | memory _ _ => True
  | file f => f.route.slash = false

end Shelf

namespace Service

variable {σ τ : Type}

/-- The store of the next run. -/
def openStore (s : Service σ) (w : World σ) : OpenStore :=
  match s.injected with
  | some store => ⟨σ, store, w.outside⟩
  | none => (s.resolveShelf w.disk).1.openOn (s.resolveShelf w.disk).2

theorem record_run (s : Service σ) (transport : Transport τ) (clock : Clock) (w : World σ) (t : τ) :
    (s.run transport clock w t).record =
      (s.lookup.run (s.openStore w).store transport clock (s.openStore w).state t).1 := by
  unfold run openStore
  cases s.injected with
  | some store => rfl
  | none =>
    obtain ⟨shelf, d⟩ := s.resolveShelf w.disk
    cases shelf <;> rfl

theorem record_run_of_openStore {s : Service σ} {w : World σ} {o : OpenStore}
    (h : s.openStore w = o) (transport : Transport τ) (clock : Clock) (t : τ) :
    (s.run transport clock w t).record = (s.lookup.run o.store transport clock o.state t).1 := by
  subst h
  exact record_run s transport clock w t

theorem openStore_of_injected {s : Service σ} {store : Store σ} (h : s.injected = some store)
    (w : World σ) : s.openStore w = ⟨σ, store, w.outside⟩ := by
  simp only [openStore, h]

theorem openStore_of_shelf {s : Service σ} (h : s.injected = none) {w : World σ} {shelf : Shelf}
    {d : Disk} (hs : s.resolveShelf w.disk = (shelf, d)) : s.openStore w = shelf.openOn d := by
  simp only [openStore, h, hs]

/-- The next run goes on with the same store, as this run left it. -/
theorem openStore_run (s : Service σ) (transport : Transport τ) (clock : Clock) (w : World σ)
    (t : τ) :
    (s.run transport clock w t).service.openStore (s.run transport clock w t).world =
      ⟨(s.openStore w).State, (s.openStore w).store,
        (s.lookup.run (s.openStore w).store transport clock (s.openStore w).state t).2.1⟩ := by
  cases h : s.injected with
  | some store =>
    rw [openStore_of_injected h]
    unfold run
    simp only [h]
    exact openStore_of_injected rfl _
  | none =>
    cases hs : s.resolveShelf w.disk with
    | mk shelf d =>
      rw [openStore_of_shelf h hs]
      unfold run
      cases shelf <;> simp only [h, hs] <;> exact openStore_of_shelf rfl rfl

/-- A run changes nothing of a service but its shelf and its phase. -/
theorem exists_service_run (s : Service σ) (transport : Transport τ) (clock : Clock) (w : World σ)
    (t : τ) : ∃ shelf, (s.run transport clock w t).service =
      { s with shelf := shelf, phase := phaseAfter (s.run transport clock w t).record } := by
  unfold run
  cases s.injected with
  | some store => exact ⟨s.shelf, rfl⟩
  | none =>
    obtain ⟨shelf, d⟩ := s.resolveShelf w.disk
    cases shelf <;> exact ⟨_, rfl⟩

@[simp] theorem lookup_run (s : Service σ) (transport : Transport τ) (clock : Clock) (w : World σ)
    (t : τ) : (s.run transport clock w t).service.lookup = s.lookup := by
  obtain ⟨shelf, h⟩ := exists_service_run s transport clock w t
  rw [h]
  rfl

@[simp] theorem registrations_run (s : Service σ) (transport : Transport τ) (clock : Clock)
    (w : World σ) (t : τ) :
    (s.run transport clock w t).service.registrations = s.registrations :=
  congrArg Lookup.registrations (lookup_run s transport clock w t)

theorem registeredKeys_run (s : Service σ) (transport : Transport τ) (clock : Clock)
    (w : World σ) (t : τ) :
    (s.run transport clock w t).service.registeredKeys = s.registeredKeys := by
  obtain ⟨shelf, h⟩ := exists_service_run s transport clock w t
  rw [h]

theorem phase_run (s : Service σ) (transport : Transport τ) (clock : Clock) (w : World σ) (t : τ) :
    (s.run transport clock w t).service.phase =
      phaseAfter (s.run transport clock w t).record := by
  obtain ⟨shelf, h⟩ := exists_service_run s transport clock w t
  rw [h]

theorem transport_run (s : Service σ) (transport : Transport τ) (clock : Clock) (w : World σ)
    (t : τ) : (s.run transport clock w t).transport =
      (s.lookup.run (s.openStore w).store transport clock (s.openStore w).state t).2.2 := by
  unfold run openStore
  cases s.injected with
  | some store => rfl
  | none =>
    obtain ⟨shelf, d⟩ := s.resolveShelf w.disk
    cases shelf <;> rfl

/-- What calls of the operations make of a new service, in any order. -/
inductive Reachable : Service σ → Prop
  | new : Reachable new
  | withStore {s : Service σ} (store : Store σ) : Reachable s → Reachable (s.withStore store)
  | register {s : Service σ} (path : InclusionPath) : Reachable s → Reachable (s.register path)
  | addRule {s : Service σ} (r : Rule) : Reachable s → Reachable (s.addRule r)
  | setTtl {s : Service σ} (hours : ℕ) : Reachable s → Reachable (s.setTtl hours)
  | setCredentials {s : Service σ} (c : Credentials) :
    Reachable s → Reachable (s.setCredentials c)
  | setBatchSize {s s' : Service σ} {size : ℕ} :
    Reachable s → s.setBatchSize size = .ok s' → Reachable s'
  | setLocation {s s' : Service σ} {path : Option String} {d d' : Disk} :
    Reachable s → s.setLocation path d = (.ok s', d') → Reachable s'
  | run {s : Service σ} {τ : Type} (transport : Transport τ) (clock : Clock) (w : World σ) (t : τ) :
    Reachable s → Reachable (s.run transport clock w t).service

theorem eq_of_setBatchSize {s s' : Service σ} {size : ℕ} (h : s.setBatchSize size = .ok s') :
    0 < size ∧ s' = { s with batchSize := size } := by
  simp only [setBatchSize] at h
  split at h
  · cases h
  · rename_i hsize
    cases h
    exact ⟨Nat.pos_of_ne_zero hsize, rfl⟩

theorem eq_of_setLocation {s s' : Service σ} {path : Option String} {d d' : Disk}
    (h : s.setLocation path d = (.ok s', d')) :
    s' = { s with cacheFile := path, shelf := none } := by
  simp only [setLocation] at h
  split at h
  · cases h
    rfl
  · split at h <;> cases h
    rfl

/-- The keys that are known are those of the registrations, and no two registrations have one key. -/
structure Indexed (s : Service σ) : Prop where
  isRegistered_iff : ∀ key, s.isRegistered key = true ↔ ∃ r ∈ s.registrations, r.key = key
  nodup_keys : (s.registrations.map (·.key)).Nodup

theorem Indexed.congr {s s' : Service σ} (h : s.Indexed) (hr : s'.registrations = s.registrations)
    (hk : s'.registeredKeys = s.registeredKeys) : s'.Indexed where
  isRegistered_iff key := by
    rw [isRegistered, hk, hr]
    exact h.isRegistered_iff key
  nodup_keys := by
    rw [hr]
    exact h.nodup_keys

theorem Indexed.register {s : Service σ} (h : s.Indexed) (path : InclusionPath) :
    (s.register path).Indexed := by
  cases hp : s.isRegistered path.key with
  | true => simpa only [Service.register, hp, if_true] using h
  | false =>
    have hregistrations : (s.register path).registrations = s.registrations ++ [path] := by
      simp [Service.register, hp]
    refine ⟨fun key => ?_, ?_⟩
    · rw [isRegistered_register, Bool.or_eq_true, beq_iff_eq, h.isRegistered_iff, hregistrations]
      simp only [List.mem_append, List.mem_singleton, or_and_right, exists_or, exists_eq_left]
      rw [or_comm, eq_comm (a := key)]
    · have hnew : ∀ r ∈ s.registrations, r.key ≠ path.key := by
        intro r hr hk
        rw [(h.isRegistered_iff path.key).mpr ⟨r, hr, hk⟩] at hp
        cases hp
      rw [hregistrations, List.map_append, List.nodup_append]
      refine ⟨h.nodup_keys, by simp, ?_⟩
      intro a ha b hb
      obtain ⟨r, hr, rfl⟩ := List.mem_map.mp ha
      obtain rfl : b = path.key := by simpa using hb
      exact hnew r hr

/-- The list of registrations and the set of their keys stay in step. -/
theorem Reachable.indexed {s : Service σ} (h : Reachable s) : s.Indexed := by
  induction h with
  | new => exact ⟨by simp [Service.new, isRegistered], by simp [Service.new]⟩
  | register path _ ih => exact ih.register path
  | withStore _ _ ih => exact ih.congr rfl rfl
  | addRule _ _ ih => exact ih.congr rfl rfl
  | setTtl _ _ ih => exact ih.congr rfl rfl
  | setCredentials _ _ ih => exact ih.congr rfl rfl
  | setBatchSize _ hs ih =>
    obtain ⟨-, rfl⟩ := eq_of_setBatchSize hs
    exact ih.congr rfl rfl
  | setLocation _ hs ih =>
    obtain rfl := eq_of_setLocation hs
    exact ih.congr rfl rfl
  | run transport clock w t _ ih =>
    exact ih.congr (registrations_run _ transport clock w t)
      (registeredKeys_run _ transport clock w t)

/-- No two registrations have one key. -/
theorem Reachable.nodup_keys {s : Service σ} (h : Reachable s) :
    (s.registrations.map (·.key)).Nodup :=
  h.indexed.nodup_keys

/-- Paths under new keys come after those that were there, the first one under each key. -/
theorem registrations_foldl_register (s : Service σ) (paths : List InclusionPath) :
    (paths.foldl register s).registrations =
      s.registrations ++ (paths.filter fun p => !s.isRegistered p.key).eraseDupsBy
        fun p q => p.key == q.key := by
  induction paths generalizing s with
  | nil => simp
  | cons p paths ih =>
    rw [List.foldl_cons, ih]
    simp only [isRegistered_register]
    cases hp : s.isRegistered p.key with
    | true =>
      have hsame : ∀ q : InclusionPath, (q.key == p.key || s.isRegistered q.key) =
          s.isRegistered q.key := by
        intro q
        by_cases hq : q.key = p.key <;> simp [hq, hp]
      simp [register, hp, hsame]
    | false =>
      simp [register, hp, List.eraseDupsBy_cons, List.filter_filter, beq_eq_decide]

theorem isRegistered_foldl_register {s : Service σ} {paths : List InclusionPath} {key : String}
    (h : s.isRegistered key = true ∨ ∃ p ∈ paths, p.key = key) :
    (paths.foldl register s).isRegistered key = true := by
  induction paths generalizing s with
  | nil => simpa using h
  | cons p paths ih =>
    rw [List.foldl_cons]
    apply ih
    rw [isRegistered_register, Bool.or_eq_true, beq_iff_eq]
    rcases h with h | ⟨q, hq, rfl⟩
    · exact Or.inl (Or.inr h)
    · rcases List.mem_cons.mp hq with rfl | hq
      · exact Or.inl (Or.inl rfl)
      · exact Or.inr ⟨q, hq, rfl⟩

theorem isOpened_freshShelf (s : Service σ) (d : Disk) : (s.freshShelf d).1.IsOpened := by
  simp only [freshShelf]
  split
  · trivial
  · split
    · rename_i h
      exact (FileStore.namesFile_of_openAt (congrArg Prod.fst h)).slash
    · trivial

theorem isOpened_resolveShelf {s : Service σ} (h : ∀ shelf, s.shelf = some shelf → shelf.IsOpened)
    (d : Disk) : (s.resolveShelf d).1.IsOpened := by
  simp only [resolveShelf]
  split
  · rename_i shelf hs
    exact h shelf hs
  · exact isOpened_freshShelf s d

theorem isOpened_run {s : Service σ} (h : ∀ shelf, s.shelf = some shelf → shelf.IsOpened)
    (transport : Transport τ) (clock : Clock) (w : World σ) (t : τ) :
    ∀ shelf, (s.run transport clock w t).service.shelf = some shelf → shelf.IsOpened := by
  intro shelf hs
  unfold run at hs
  cases hi : s.injected with
  | some store =>
    simp only [hi] at hs
    exact h shelf hs
  | none =>
    have ho := isOpened_resolveShelf h w.disk
    simp only [hi] at hs
    cases hk : s.resolveShelf w.disk with
    | mk kept d =>
      simp only [hk] at hs ho
      cases kept <;> cases hs
      · trivial
      · exact ho

/-- The file store in use was opened. -/
theorem Reachable.isOpened {s : Service σ} (h : Reachable s) :
    ∀ shelf, s.shelf = some shelf → shelf.IsOpened := by
  induction h with
  | new => simp [Service.new]
  | register path _ ih =>
    simp only [Service.register]
    split <;> exact ih
  | withStore _ _ ih => exact ih
  | addRule _ _ ih => exact ih
  | setTtl _ _ ih => simp [Service.setTtl]
  | setCredentials _ _ ih => exact ih
  | setBatchSize _ hs ih =>
    obtain ⟨-, rfl⟩ := eq_of_setBatchSize hs
    exact ih
  | setLocation _ hs ih => simp [eq_of_setLocation hs]
  | run transport clock w t _ ih => exact isOpened_run ih transport clock w t

end Service
end DependencyAudit
