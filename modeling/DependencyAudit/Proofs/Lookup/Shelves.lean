import Mathlib.Data.List.DropRight
import DependencyAudit.Proofs.Lookup.Calls

/-! The settings of a service after some calls, and the store of its runs: it is made for the settings
at the first run and kept until the cache file or the time to live is set again. -/
namespace DependencyAudit

namespace ServiceCall

variable {σ : Type}

/-- No run since the store was last reset. -/
def Fresh (calls : List (ServiceCall σ)) : Prop :=
  ∀ c ∈ calls.rtakeWhile fun c => !c.resets, c.isRun = false

theorem fresh_concat_iff {calls : List (ServiceCall σ)} {c : ServiceCall σ} :
    Fresh (calls ++ [c]) ↔ c.resets = true ∨ Fresh calls ∧ c.isRun = false := by
  cases hr : c.resets with
  | true => simp [Fresh, List.rtakeWhile_concat_neg, hr]
  | false =>
    have hrecent : (calls ++ [c]).rtakeWhile (fun c => !c.resets) =
        calls.rtakeWhile (fun c => !c.resets) ++ [c] :=
      List.rtakeWhile_concat_pos _ _ _ (by simp [hr])
    rw [Fresh, hrecent, List.forall_mem_append, List.forall_mem_singleton]
    simp [Fresh]

/-- Either no run came since the store was last reset, or there is a first one. -/
theorem fresh_or_exists (calls : List (ServiceCall σ)) :
    Fresh calls ∨ ∃ before c between, calls = before ++ c :: between ∧ c.isRun = true ∧
      Fresh before ∧ ∀ c ∈ between, c.resets = false := by
  -- On the last call, which says whether the calls before it still count.
  induction calls using List.reverseRecOn with
  | nil => exact Or.inl (by simp [Fresh])
  | append_singleton calls c ih =>
    rw [fresh_concat_iff]
    cases hr : c.resets with
    | true => exact Or.inl (Or.inl rfl)
    | false =>
      rcases ih with hfresh | ⟨before, r, between, rfl, hrun, hfresh, hkept⟩
      · cases hc : c.isRun with
        | true => exact Or.inr ⟨calls, c, [], rfl, hc, hfresh, nofun⟩
        | false => exact Or.inl (Or.inr ⟨hfresh, rfl⟩)
      · refine Or.inr ⟨before, r, between ++ [c], by simp, hrun, hfresh, ?_⟩
        rw [List.forall_mem_append, List.forall_mem_singleton]
        exact ⟨hkept, hr⟩

/-- A setting is what the last call made it that set it. -/
theorem setting_foldl {α : Type} {setting : Service σ → α} {set? : ServiceCall σ → Option α}
    (h : ∀ s c, setting (c.perform s) = (set? c).getD (setting s)) (s : Service σ)
    (calls : List (ServiceCall σ)) :
    setting (calls.foldl perform s) = (calls.filterMap set?).getLast?.getD (setting s) := by
  induction calls generalizing s with
  | nil => rfl
  | cons c calls ih =>
    rw [List.foldl_cons, ih, h]
    cases hc : set? c with
    | none => rw [List.filterMap_cons_none hc, Option.getD_none]
    | some a =>
      rw [List.filterMap_cons_some hc, List.getLast?_cons, Option.getD_some, Option.getD_some]

theorem injected_foldl (s : Service σ) (calls : List (ServiceCall σ)) :
    (calls.foldl perform s).injected = (calls.filterMap store?).getLast?.or s.injected := by
  induction calls generalizing s with
  | nil => rfl
  | cons c calls ih =>
    rw [List.foldl_cons, ih, (effect_perform s c).injected]
    cases hc : c.store? with
    | none => rw [List.filterMap_cons_none hc, Option.none_or]
    | some store =>
      rw [List.filterMap_cons_some hc, List.getLast?_cons]
      cases (calls.filterMap store?).getLast? <;> rfl

section After

variable (calls : List (ServiceCall σ))

theorem cacheFile_after :
    (after calls).cacheFile = (calls.filterMap location?).getLast?.getD none := by
  rw [after]
  exact setting_foldl (fun s c => (effect_perform s c).cacheFile) Service.new calls

theorem ttlHours_after : (after calls).ttlHours =
    (calls.filterMap hours?).getLast?.getD Service.defaultTtlHours := by
  rw [after]
  exact setting_foldl (fun s c => (effect_perform s c).ttlHours) Service.new calls

theorem batchSize_after : (after calls).batchSize =
    (calls.filterMap size?).getLast?.getD Service.defaultBatchSize := by
  rw [after]
  exact setting_foldl (fun s c => (effect_perform s c).batchSize) Service.new calls

/-- A batch has room for at least one package. -/
theorem batchSize_pos : 0 < (after calls).batchSize := by
  rw [batchSize_after]
  cases hlast : (calls.filterMap size?).getLast? with
  | none => decide
  | some size =>
    obtain ⟨c, -, hc⟩ := List.mem_filterMap.mp (List.mem_of_getLast? hlast)
    cases c with
    | setBatchSize n =>
      rw [size?] at hc
      split at hc
      · cases hc
      · rename_i hn
        cases hc
        exact Nat.pos_of_ne_zero hn
    | _ => cases hc

theorem injected_after : (after calls).injected = (calls.filterMap store?).getLast? := by
  rw [after, injected_foldl]
  exact Option.or_none

end After

theorem after_append (calls calls' : List (ServiceCall σ)) :
    after (calls ++ calls') = calls'.foldl perform (after calls) := by
  rw [after, after, List.foldl_append]

/-- What is on the shelf came there by a run since the last reset. -/
theorem shelf_eq_none_of_fresh {calls : List (ServiceCall σ)} (h : Fresh calls) :
    (after calls).shelf = none := by
  induction calls using List.reverseRecOn with
  | nil => rw [after]; rfl
  | append_singleton calls c ih =>
    rw [after_append, List.foldl_cons, List.foldl_nil]
    have heffect := effect_perform (after calls) c
    rcases fresh_concat_iff.mp h with hr | ⟨hfresh, hrun⟩
    · have hrun : c.isRun = false := by
        cases c with
        | run => cases hr
        | _ => rfl
      rw [heffect.shelf hrun, hr, if_pos rfl]
    · rw [heffect.shelf hrun, ih hfresh, ite_self]

end ServiceCall

namespace Shelf

variable {σ : Type}

/-- The store that is made for a cache file and a time to live: on that file, or in memory where none
is set or it cannot be opened. -/
inductive Built (hours : ℕ) (d : Disk) : Option String → Shelf → Disk → Prop
  | unset : Built hours d none (.memory (.ofHours hours) .empty) d
  | opened {path : String} {d' : Disk} :
    FileStore.openAt path hours d = (.ok ⟨path, .ofHours hours⟩, d') →
    Built hours d (some path) (.file ⟨path, .ofHours hours⟩) d'
  | refused {path : String} {e : CacheError} {d' : Disk} :
    FileStore.openAt path hours d = (.error e, d') →
    Built hours d (some path) (.memory (.ofHours hours) .empty) d'

theorem built_freshShelf (s : Service σ) (d : Disk) :
    Built s.ttlHours d s.cacheFile (s.freshShelf d).1 (s.freshShelf d).2 := by
  unfold Service.freshShelf
  cases s.cacheFile with
  | none => exact .unset
  | some path =>
    cases ho : FileStore.openAt path s.ttlHours d with
    | mk outcome d' =>
      cases outcome with
      | error e =>
        simp only [ho]
        exact .refused ho
      | ok f =>
        obtain rfl := FileStore.eq_of_openAt ho
        simp only [ho]
        exact .opened ho

/-- What a call leaves on a shelf: a run puts its entries into memory; those of a file are on the
disk. -/
def leave (l : Lookup) : Shelf → ServiceCall σ → Shelf
  | .memory lifetime entries, .run transport clock _ t =>
    .memory lifetime (l.run (memoryStore lifetime) transport clock entries t).2.1
  | shelf, _ => shelf

/-- What calls of a service leave on a shelf. -/
def afterCalls (s : Service σ) (shelf : Shelf) : List (ServiceCall σ) → Shelf
  | [] => shelf
  | c :: calls => afterCalls (c.perform s) (shelf.leave s.lookup c) calls

theorem leave_of_not_run (l : Lookup) (shelf : Shelf) {c : ServiceCall σ} (h : c.isRun = false) :
    shelf.leave l c = shelf := by
  cases c with
  | run => cases h
  | _ => cases shelf <;> rfl

/-- The same store, which may have entries under more keys by now. -/
inductive Continues : Shelf → Shelf → Prop
  | memory {lifetime : Lifetime} {entries entries' : Entries} :
    (∀ key, (entries.get? key).isSome = true → (entries'.get? key).isSome = true) →
    Continues (.memory lifetime entries) (.memory lifetime entries')
  | file (f : FileStore) : Continues (.file f) (.file f)

theorem Continues.refl (shelf : Shelf) : shelf.Continues shelf := by
  cases shelf with
  | memory lifetime entries => exact .memory fun key hk => hk
  | file f => exact .file f

theorem Continues.trans {a b c : Shelf} (h : a.Continues b) (h' : b.Continues c) :
    a.Continues c := by
  cases h with
  | memory h =>
    cases h' with
    | memory h' => exact .memory fun key hk => h' key (h key hk)
  | file f =>
    cases h'
    exact .file f

theorem continues_leave (l : Lookup) (shelf : Shelf) (c : ServiceCall σ) :
    shelf.Continues (shelf.leave l c) := by
  cases c with
  | run transport clock w t =>
    cases shelf with
    | file f => exact .file f
    | memory lifetime entries =>
      refine .memory fun key hk =>
        Lookup.keeps_run (P := fun es : Entries => (es.get? key).isSome = true) ?_ hk t
      rintro now batch es outcome es' ⟨⟩ hes
      rw [Entries.get?_putAll, Option.isSome_or, hes, Bool.or_true]
  | _ =>
    rw [leave_of_not_run l shelf rfl]
    exact .refl shelf

theorem continues_afterCalls (s : Service σ) (shelf : Shelf) (calls : List (ServiceCall σ)) :
    shelf.Continues (shelf.afterCalls s calls) := by
  induction calls generalizing s shelf with
  | nil => exact .refl shelf
  | cons c calls ih => exact (continues_leave s.lookup shelf c).trans (ih _ _)

end Shelf

namespace Service

variable {σ τ : Type} {s : Service σ}

theorem shelf_run (hi : s.injected = none) (transport : Transport τ) (clock : Clock) (w : World σ)
    (t : τ) : (s.run transport clock w t).service.shelf =
      some ((s.resolveShelf w.disk).1.leave s.lookup (.run transport clock w t)) := by
  unfold run
  simp only [hi]
  obtain ⟨shelf, d⟩ := s.resolveShelf w.disk
  cases shelf <;> rfl

theorem resolveShelf_of_some {shelf : Shelf} (hs : s.shelf = some shelf) (d : Disk) :
    s.resolveShelf d = (shelf, d) := by
  simp only [resolveShelf, hs]

theorem shelf_perform {c : ServiceCall σ} (hi : s.injected = none) (hr : c.resets = false)
    {shelf : Shelf} (hs : s.shelf = some shelf) :
    (c.perform s).shelf = some (shelf.leave s.lookup c) := by
  cases hrun : c.isRun with
  | false =>
    rw [(ServiceCall.effect_perform s c).shelf hrun, hr, if_neg Bool.false_ne_true, hs,
      shelf.leave_of_not_run s.lookup hrun]
  | true =>
    cases c with
    | run transport clock w t =>
      rw [ServiceCall.perform, shelf_run hi, resolveShelf_of_some hs]
    | _ => cases hrun

/-- A shelf stays in use, with what the calls leave on it, until it is reset. -/
theorem shelf_foldl_perform {calls : List (ServiceCall σ)}
    (hi : (calls.foldl ServiceCall.perform s).injected = none)
    (hr : ∀ c ∈ calls, c.resets = false) {shelf : Shelf} (hs : s.shelf = some shelf) :
    (calls.foldl ServiceCall.perform s).shelf = some (shelf.afterCalls s calls) := by
  induction calls generalizing s shelf with
  | nil => exact hs
  | cons c calls ih =>
    rw [List.forall_mem_cons] at hr
    have hnone : s.injected = none := by
      rw [ServiceCall.injected_foldl, Option.or_eq_none_iff] at hi
      exact hi.2
    exact ih hi hr.2 (shelf_perform hnone hr.1 hs)

end Service

open ServiceCall in
/-- Where the store of the next run comes from when none was given: it is made for the settings, or
the first run since they were last set made it for them, and the calls since then put into it what is
there. -/
inductive IsMade {σ : Type} (calls : List (ServiceCall σ)) (w : World σ) : OpenStore → Prop
  | now {shelf : Shelf} {d : Disk} : Fresh calls →
    Shelf.Built (after calls).ttlHours w.disk (after calls).cacheFile shelf d →
    IsMade calls w (shelf.openOn d)
  | kept {τ : Type} {before between : List (ServiceCall σ)} {transport : Transport τ} {clock : Clock}
    {w₀ : World σ} {t : τ} {shelf : Shelf} {d : Disk} :
    calls = before ++ run transport clock w₀ t :: between → Fresh before →
    (∀ c ∈ between, c.resets = false) →
    Shelf.Built (after calls).ttlHours w₀.disk (after calls).cacheFile shelf d →
    IsMade calls w ((shelf.afterCalls (after before)
      (run transport clock w₀ t :: between)).openOn w.disk)

namespace ServiceCall

variable {σ τ : Type} {calls before between : List (ServiceCall σ)} {transport : Transport τ}
  {clock : Clock} {w₀ : World σ} {t : τ}

/-- The store of a run is that of the later runs, as long as nothing resets it. -/
theorem openStore_after (hi : (after calls).injected = none)
    (hcalls : calls = before ++ run transport clock w₀ t :: between)
    (hr : ∀ c ∈ between, c.resets = false) :
    (after before).injected = none ∧ ∀ w, (after calls).openStore w =
      (((after before).resolveShelf w₀.disk).1.afterCalls (after before)
        (run transport clock w₀ t :: between)).openOn w.disk := by
  have hafter : after calls =
      between.foldl perform ((run transport clock w₀ t).perform (after before)) := by
    rw [hcalls, after_append, List.foldl_cons]
  rw [hafter] at hi ⊢
  have hbefore : (after before).injected = none := by
    have h := hi
    rw [← List.foldl_cons, injected_foldl, Option.or_eq_none_iff] at h
    exact h.2
  have hshelf := Service.shelf_run hbefore transport clock w₀ t
  have hlater := Service.shelf_foldl_perform hi hr hshelf
  refine ⟨hbefore, fun w => ?_⟩
  exact Service.openStore_of_shelf hi (Service.resolveShelf_of_some hlater w.disk)

/-- Where nothing is reset the store is made for the same settings. -/
theorem settings_after (hcalls : calls = before ++ run transport clock w₀ t :: between)
    (hr : ∀ c ∈ between, c.resets = false) :
    (after calls).cacheFile = (after before).cacheFile ∧
      (after calls).ttlHours = (after before).ttlHours := by
  have hnone : ∀ c ∈ run transport clock w₀ t :: between, c.location? = none ∧ c.hours? = none := by
    rw [List.forall_mem_cons]
    refine ⟨⟨rfl, rfl⟩, fun c hc => ?_⟩
    simpa [resets] using hr c hc
  have hlocations := List.filterMap_eq_nil_iff.mpr fun c hc => (hnone c hc).1
  have hhours := List.filterMap_eq_nil_iff.mpr fun c hc => (hnone c hc).2
  constructor
  · rw [cacheFile_after, cacheFile_after, hcalls, List.filterMap_append, hlocations, List.append_nil]
  · rw [ttlHours_after, ttlHours_after, hcalls, List.filterMap_append, hhours, List.append_nil]

theorem isMade_openStore (hi : (after calls).injected = none) (w : World σ) :
    IsMade calls w ((after calls).openStore w) := by
  have hmade {before : List (ServiceCall σ)} (hfresh : Fresh before) (d : Disk) :
      (after before).resolveShelf d = (after before).freshShelf d := by
    simp only [Service.resolveShelf, shelf_eq_none_of_fresh hfresh]
  rcases fresh_or_exists calls with hfresh | ⟨before, c, between, hcalls, hrun, hfresh, hr⟩
  · rw [Service.openStore_of_shelf hi (hmade hfresh w.disk)]
    exact .now hfresh (Shelf.built_freshShelf _ w.disk)
  · cases c with
    | run transport clock w₀ t =>
      obtain ⟨-, hopen⟩ := openStore_after hi hcalls hr
      obtain ⟨hfile, hhours⟩ := settings_after hcalls hr
      have hbuilt := Shelf.built_freshShelf (after before) w₀.disk
      rw [← hfile, ← hhours] at hbuilt
      rw [hopen, hmade hfresh]
      exact .kept hcalls hfresh hr hbuilt
    | _ => cases hrun

end ServiceCall

open ServiceCall in
/-- Whatever calls are made: each setting is what the last call made it that could set it, and a call
that fails changes nothing. A run uses the store that was given. Without one it uses the store that
was made for the cache file and the time to live as they are set; runs between which neither is set
share their store, so that what one put into memory the next finds there. -/
theorem runs_share_store_of_settings {σ : Type} (calls : List (ServiceCall σ)) :
    let s := after calls
    (s.cacheFile = (calls.filterMap location?).getLast?.getD none ∧
      s.ttlHours = (calls.filterMap hours?).getLast?.getD Service.defaultTtlHours ∧
      s.batchSize = (calls.filterMap size?).getLast?.getD Service.defaultBatchSize ∧
      s.injected = (calls.filterMap store?).getLast?) ∧
    (∀ path d e, (s.setLocation path d).1 = .error e → after (calls ++ [.setLocation path d]) = s) ∧
    (∀ size e, s.setBatchSize size = .error e → after (calls ++ [.setBatchSize size]) = s) ∧
    (∀ {τ : Type} (transport : Transport τ) (clock : Clock) (w : World σ) (t : τ),
      (s.run transport clock w t).record =
        (s.lookup.run (s.openStore w).store transport clock (s.openStore w).state t).1) ∧
    (∀ store w, s.injected = some store → s.openStore w = ⟨σ, store, w.outside⟩) ∧
    (s.injected = none → (∀ w, IsMade calls w (s.openStore w)) ∧
      ∀ {τ : Type} (transport : Transport τ) (clock : Clock) (w₀ : World σ) (t : τ) before between,
        calls = before ++ run transport clock w₀ t :: between →
        (∀ c ∈ between, c.resets = false) →
        ∃ (shelf : Shelf) (d : Disk) (shelf' : Shelf), (after before).openStore w₀ = shelf.openOn d ∧
          (∀ w, s.openStore w = shelf'.openOn w.disk) ∧ shelf.Continues shelf') := by
  intro s
  have hsettings := And.intro (cacheFile_after calls) <| And.intro (ttlHours_after calls) <|
    And.intro (batchSize_after calls) (injected_after calls)
  refine ⟨hsettings, fun path d e he => ?_, fun size e he => ?_, Service.record_run s,
    fun store w hi => Service.openStore_of_injected hi w,
    fun hi => ⟨isMade_openStore hi, fun transport clock w₀ t before between hcalls hr => ?_⟩⟩
  · rw [after_append, List.foldl_cons, List.foldl_nil, perform, he]
    rfl
  · rw [after_append, List.foldl_cons, List.foldl_nil, perform, he]
    rfl
  · obtain ⟨hbefore, hopen⟩ := openStore_after hi hcalls hr
    exact ⟨_, _, _, Service.openStore_of_shelf hbefore rfl, hopen, Shelf.continues_afterCalls _ _ _⟩

open ServiceCall in
/-- A run that comes after calls that fail finds in memory what the run before them put there, and one
that comes after the time to live was set again finds nothing. -/
theorem runs_share_store_of_settings_failing :
    let c (name : String) : Coordinate := ⟨"npm", none, name, some "1.0.0"⟩
    let clock : Clock := fun _ => ⟨⟨2024, 5, 1⟩, 0, 0⟩
    let w : World Entries := ⟨.empty, .empty⟩
    let script : List Answer := []
    let before : List (ServiceCall Entries) := [.setTtl 1, .registerCoordinate (c "a")]
    let between : List (ServiceCall Entries) :=
      [.setBatchSize 0, .setLocation (some "/") .empty, .registerCoordinate (c "b")]
    let calls := before ++ run scriptedTransport clock w script :: between
    let asked (calls : List (ServiceCall Entries)) :=
      ((after calls).run scriptedTransport clock w script).record.requested
    (asked before = ["pkg:npm/a@1.0.0"] ∧ asked calls = ["pkg:npm/b@1.0.0"] ∧
      asked (calls ++ [.setTtl 1]) = ["pkg:npm/a@1.0.0", "pkg:npm/b@1.0.0"]) ∧
    (after calls).ttlHours = 1 ∧ (after calls).batchSize = Service.defaultBatchSize ∧
    IsMade calls w ((after calls).openStore w) ∧
    ∃ (shelf : Shelf) (d : Disk) (shelf' : Shelf), (after before).openStore w = shelf.openOn d ∧
      (∀ w, (after calls).openStore w = shelf'.openOn w.disk) ∧ shelf.Continues shelf' := by
  intro c clock w script before between calls asked
  obtain ⟨⟨-, hhours, hsize, hinjected⟩, -, -, -, -, hown⟩ := runs_share_store_of_settings calls
  have hlast : calls.filterMap hours? = [1] ∧ calls.filterMap size? = [] ∧
      calls.filterMap store? = [] := ⟨rfl, rfl, rfl⟩
  rw [hlast.1] at hhours
  rw [hlast.2.1] at hsize
  rw [hlast.2.2] at hinjected
  have hkept : ∀ c ∈ between, c.resets = false := by
    simp only [between, List.forall_mem_cons]
    exact ⟨rfl, by decide, rfl, nofun⟩
  obtain ⟨hmade, hshared⟩ := hown hinjected
  exact ⟨by decide +kernel, hhours, hsize, hmade w,
    hshared scriptedTransport clock w script before between rfl hkept⟩

end DependencyAudit
