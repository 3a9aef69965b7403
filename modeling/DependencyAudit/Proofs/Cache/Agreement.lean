import DependencyAudit.Proofs.Cache.FileView
import DependencyAudit.Proofs.Cache.Session

/-! Disks that a store in a file cannot tell apart. A store makes a lock and a draft beside its
file; whether these are there, and what is in them, shows in nothing that any later call gives. -/
namespace DependencyAudit

/-- Both disks have the same file at a path; the files beside it may differ. There is room for them:
the longest name beside it can be looked up. -/
structure Disk.AgreeAt (r : Route) (d d' : Disk) : Prop where
  setting : SameSetting d d'
  exists_lock : ∃ p, d.place (r.withEnding ".lock") = .ok p
  node_eq : ∀ p, d.place r = .ok p → d'.node? p = d.node? p

namespace Disk.AgreeAt

variable {r : Route} {d d' d'' : Disk} {p : Place} {ending : String}

theorem refl (h : ∃ p, d.place (r.withEnding ".lock") = .ok p) : AgreeAt r d d :=
  ⟨SameSetting.refl d, h, fun _ _ => rfl⟩

theorem symm (h : AgreeAt r d d') : AgreeAt r d' d where
  setting := h.setting.symm
  exists_lock := h.setting.exists_place h.exists_lock
  node_eq p hp := (h.node_eq p (h.setting.place_iff.mp hp)).symm

theorem trans (h : AgreeAt r d d') (h' : AgreeAt r d' d'') : AgreeAt r d d'' where
  setting := h.setting.trans h'.setting
  exists_lock := h.exists_lock
  node_eq p hp := (h'.node_eq p (h.setting.place_iff.mpr hp)).trans (h.node_eq p hp)

theorem ne_directory (h : AgreeAt r d d') (hn : d.node? p ≠ some .directory) :
    d'.node? p ≠ some .directory :=
  fun hd => hn ((h.setting.directory_iff p).mp hd)

theorem exists_place (h : AgreeAt r d d') (hr : r.NamesFile) : ∃ p, d.place r = .ok p :=
  h.exists_lock.elim fun _ hp => exists_place_of_withEnding hp hr

theorem exists_draft (h : AgreeAt r d d') : ∃ p, d.place (r.withEnding ".tmp") = .ok p :=
  h.exists_lock.elim fun _ hp => exists_place_withEnding hp (by decide) (by decide)

/-- A file is written on both. -/
theorem put (h : AgreeAt r d d') (hn : d.node? p ≠ some .directory) (content : ByteArray) :
    AgreeAt r (d.put p (.file content)) (d'.put p (.file content)) := by
  have hput := SameSetting.put_file hn content
  refine ⟨hput.symm.trans (h.setting.trans (SameSetting.put_file (h.ne_directory hn) content)),
    hput.exists_place h.exists_lock, fun q hq => ?_⟩
  -- What is written may be the file at the path itself: then it has the new content on both.
  by_cases hqp : q = p
  · subst hqp
    rw [node?_put _ _ (ne_nil_of_node? hn), node?_put _ _ (ne_nil_of_node? hn)]
  · rw [node?_put_of_ne _ _ hqp, node?_put_of_ne _ _ hqp, h.node_eq q (hput.place_iff.mp hq)]

/-- A file is removed from both. -/
theorem remove (h : AgreeAt r d d') (hn : d.node? p ≠ some .directory) :
    AgreeAt r (d.remove p) (d'.remove p) := by
  have hremove := SameSetting.remove hn
  refine ⟨hremove.symm.trans (h.setting.trans (SameSetting.remove (h.ne_directory hn))),
    hremove.exists_place h.exists_lock, fun q hq => ?_⟩
  rw [node?_remove, node?_remove, h.node_eq q (hremove.place_iff.mp hq)]

/-- A file is written beside. -/
theorem put_beside (h : ∃ p, d.place (r.withEnding ".lock") = .ok p) (he : ending ≠ "")
    (hp : d.place (r.withEnding ending) = .ok p) (hn : d.node? p ≠ some .directory)
    (content : ByteArray) : AgreeAt r d (d.put p (.file content)) :=
  ⟨SameSetting.put_file hn content, h, fun _ hq => node?_put_beside he hp hn hq content⟩

theorem of_lock {outcome : Except DiskFault Unit} (h : ∃ p, d.place (r.withEnding ".lock") = .ok p)
    (hl : d.lock (r.withEnding ".lock") = (outcome, d')) : AgreeAt r d d' := by
  rcases cases_of_lock hl with rfl | ⟨p, hp, hn, rfl⟩
  · exact refl h
  · exact put_beside h (by decide) hp (by simp [hn]) _

/-- The lock is taken on both, or on neither. -/
theorem lock (h : AgreeAt r d d') :
    ∃ outcome d₁ d₁', d.lock (r.withEnding ".lock") = (outcome, d₁) ∧
      d'.lock (r.withEnding ".lock") = (outcome, d₁') ∧ AgreeAt r d₁ d₁' := by
  obtain ⟨p, hp⟩ := h.exists_lock
  -- The setting decides whether it is given, and the file that may be made for it stands beside.
  have houtcome := h.setting.lock_fst_eq (r.slash_withEnding ".lock") hp
  cases hd : d.lock (r.withEnding ".lock") with
  | mk outcome d₁ =>
    cases hd' : d'.lock (r.withEnding ".lock") with
    | mk outcome' d₁' =>
      obtain rfl : outcome' = outcome := by simpa [hd, hd'] using houtcome
      have h₁ := (of_lock h.exists_lock hd).symm.trans (h.trans (of_lock h.symm.exists_lock hd'))
      exact ⟨outcome', d₁, d₁', rfl, rfl, h₁⟩

/-- A draft is written on both, or on neither. -/
theorem write_draft (h : AgreeAt r d d') (content : ByteArray) :
    (∃ fault, d.write (r.withEnding ".tmp") content = .error fault ∧
      d'.write (r.withEnding ".tmp") content = .error fault) ∨
    ∃ d₁ d₁' o, d.write (r.withEnding ".tmp") content = .ok d₁ ∧
      d'.write (r.withEnding ".tmp") content = .ok d₁' ∧ AgreeAt r d₁ d₁' ∧
      d₁.place (r.withEnding ".tmp") = .ok o ∧ d₁.node? o = some (.file content) ∧
      d₁'.node? o = some (.file content) := by
  obtain ⟨o, ho⟩ := h.exists_draft
  refine (h.setting.write (r.slash_withEnding ".tmp") ho).imp_right ?_
  rintro ⟨hn, hw, hw'⟩
  exact ⟨_, _, o, hw, hw', h.put hn content, (SameSetting.put_file hn content).place_iff.mpr ho,
    node?_put _ _ (ne_nil_of_node? hn), node?_put _ _ (ne_nil_of_node? hn)⟩

/-- A draft takes the place of the file on both, or on neither. -/
theorem rename_draft (h : AgreeAt r d d') (hr : r.NamesFile) {o : Place} {content : ByteArray}
    (ho : d.place (r.withEnding ".tmp") = .ok o) (hn : d.node? o = some (.file content))
    (hn' : d'.node? o = some (.file content)) :
    (∃ fault, d.rename (r.withEnding ".tmp") r = .error fault ∧
      d'.rename (r.withEnding ".tmp") r = .error fault) ∨
    ∃ d₁ d₁', d.rename (r.withEnding ".tmp") r = .ok d₁ ∧
      d'.rename (r.withEnding ".tmp") r = .ok d₁' ∧ AgreeAt r d₁ d₁' := by
  obtain ⟨p, hp⟩ := h.exists_place hr
  refine (h.setting.rename ho hn hn' hp).imp_right ?_
  rintro ⟨hfree, hm, hm'⟩
  have hfile : d.node? o ≠ some .directory := by simp [hn]
  have hfree' : (d.remove o).node? p ≠ some .directory := fun hd =>
    hfree (((SameSetting.remove hfile).directory_iff p).mp hd)
  exact ⟨_, _, hm, hm', (h.remove hfile).put hfree' content⟩

end Disk.AgreeAt

/-- An operation on either of two disks gives the same, and leaves disks that agree again. -/
def SameOutcome (r : Route) {α : Type} (x x' : α × Disk) : Prop :=
  x'.1 = x.1 ∧ x.2.AgreeAt r x'.2

theorem asCommit_of_sameOutcome {r : Route} {x x' : Except CacheError Unit × Disk}
    (h : SameOutcome r x x') : SameOutcome r (asCommit x) (asCommit x') := by
  obtain ⟨outcome, d₁⟩ := x
  obtain ⟨outcome', d₁'⟩ := x'
  obtain ⟨rfl : outcome' = outcome, h⟩ := h
  cases outcome' <;> exact ⟨rfl, h⟩

namespace FileStore

open Disk

variable {f : FileStore} {d d' : Disk}

theorem at?_of_agreeAt (hr : f.route.NamesFile) (h : AgreeAt f.route d d') :
    d'.at? f.route = d.at? f.route := by
  obtain ⟨p, hp⟩ := h.exists_place hr
  simp only [at?, hp, h.setting.place_iff.mpr hp, bind, Except.bind, h.node_eq p hp]

theorem entries_of_agreeAt (hr : f.route.NamesFile) (h : AgreeAt f.route d d') :
    f.entries d' = f.entries d := by
  obtain ⟨p, hp⟩ := h.exists_place hr
  rw [entries_eq hr.slash hp, entries_eq hr.slash (h.setting.place_iff.mpr hp), h.node_eq p hp,
    h.setting.refused_eq]

/-- An update ends on both, or fails at the same step on both. -/
theorem update_of_agreeAt (hr : f.route.NamesFile) (h : AgreeAt f.route d d')
    (change : Entries → Entries) :
    SameOutcome f.route (f.update change d) (f.update change d') := by
  obtain ⟨outcome, d₁, d₁', hlock, hlock', h₁⟩ := h.lock
  have hentries := entries_of_agreeAt hr h₁
  unfold update
  rw [lockRoute, hlock, hlock']
  cases outcome with
  | error fault => exact ⟨rfl, h₁⟩
  | ok _ =>
    dsimp only
    rw [hentries]
    cases f.entries d₁ with
    | error fault => exact ⟨rfl, h₁⟩
    | ok es =>
      dsimp only [writeText, draftRoute]
      obtain ⟨fault, hw, hw'⟩ | ⟨d₂, d₂', o, hw, hw', h₂, ho, hn, hn'⟩ :=
        h₁.write_draft (change es).document.toUTF8
      · rw [hw, hw']
        exact ⟨rfl, h₁⟩
      · rw [hw, hw']
        dsimp only
        obtain ⟨fault, hm, hm'⟩ | ⟨d₃, d₃', hm, hm', h₃⟩ := h₂.rename_draft hr ho hn hn'
        · rw [hm, hm']
          exact ⟨rfl, h₂⟩
        · rw [hm, hm']
          exact ⟨rfl, h₃⟩

theorem writeResult_of_sameOutcome (count : ℕ) {x x' : Except DiskFault Unit × Disk}
    (h : SameOutcome f.route x x') :
    SameOutcome f.route (f.writeResult count x) (f.writeResult count x') := by
  obtain ⟨outcome, d₁⟩ := x
  obtain ⟨outcome', d₁'⟩ := x'
  obtain ⟨rfl : outcome' = outcome, h⟩ := h
  cases outcome' <;> exact ⟨rfl, h⟩

theorem fetch_of_agreeAt (hr : f.route.NamesFile) (h : AgreeAt f.route d d') (now : Timestamp)
    (keys : List String) : f.fetch now keys d' = f.fetch now keys d := by
  simp only [fetch, entries_of_agreeAt hr h]

theorem get_of_agreeAt (hr : f.route.NamesFile) (h : AgreeAt f.route d d') (now : Timestamp)
    (key : String) : f.get now key d' = f.get now key d := by
  simp only [FileStore.get, fetch_of_agreeAt hr h]

/-- A call has the same outcome on both, and leaves them as alike as they were. -/
theorem perform_of_agreeAt (hr : f.route.NamesFile) (h : AgreeAt f.route d d') (c : TimedCall) :
    SameOutcome f.route ((fileStore f).perform c d) ((fileStore f).perform c d') := by
  obtain ⟨now, call⟩ := c
  cases call with
  | get key => exact ⟨by simp only [Store.perform, fileStore, get_of_agreeAt hr h], h⟩
  | getMany keys => exact ⟨by simp only [Store.perform, fileStore, fetch_of_agreeAt hr h], h⟩
  | commit batch =>
    by_cases hn : batch = []
    · subst hn
      exact ⟨rfl, h⟩
    · have hw := writeResult_of_sameOutcome batch.length
        (update_of_agreeAt hr h fun es => (es.live f.lifetime now).putAll batch)
      have hc := asCommit_of_sameOutcome hw
      simp only [Store.perform, fileStore, f.commit_eq now hn]
      exact ⟨by rw [hc.1], hc.2⟩
  | clear =>
    have hw := writeResult_of_sameOutcome 0 (update_of_agreeAt hr h fun _ => .empty)
    simp only [Store.perform, fileStore, clear]
    exact ⟨by rw [hw.1], hw.2⟩

/-- A handle is given on both, or on neither. -/
theorem openAt_of_agreeAt {path : String} (hr : (Route.ofText path).NamesFile) (hours : ℕ)
    (h : AgreeAt (.ofText path) d d') :
    SameOutcome (.ofText path) (openAt path hours d) (openAt path hours d') := by
  obtain ⟨p, hp⟩ := h.exists_place hr
  have hp' := h.setting.place_iff.mpr hp
  simp only [openAt, makeParent_of_place hp, makeParent_of_place hp', openFile_eq hr.slash hp,
    openFile_eq hr.slash hp', h.setting.allows_eq, h.node_eq p hp]
  cases d.allows .openFile p with
  | error fault => exact ⟨rfl, h⟩
  | ok _ =>
    cases hn : d.node? p with
    | none => exact ⟨rfl, h.put (by simp [hn]) _⟩
    | some node => cases node <;> exact ⟨rfl, h⟩

end FileStore

/-- Sessions on disks that agree have the same outcomes, whichever handles are open. -/
theorem session_of_agreeAt {path : String} (hr : (Route.ofText path).NamesFile) (hours : ℕ)
    (steps : List SessionStep) {handles : List FileStore} (hh : ∀ f ∈ handles, f.path = path)
    {d d' : Disk} (h : d.AgreeAt (.ofText path) d') :
    session path hours steps handles d' = session path hours steps handles d := by
  -- Each step gives the same on both disks, and leaves disks that agree and handles on the path.
  induction steps generalizing handles d d' with
  | nil => rfl
  | cons step steps ih =>
    cases step with
    | opening =>
      obtain ⟨hsame, hagree⟩ := FileStore.openAt_of_agreeAt hr hours h
      cases ho : FileStore.openAt path hours d with
      | mk outcome d₁ =>
        cases ho' : FileStore.openAt path hours d' with
        | mk outcome' d₁' =>
          simp only [ho, ho'] at hsame hagree
          subst hsame
          cases outcome' with
          | error e => rw [session_opening_error ho, session_opening_error ho', ih hh hagree]
          | ok f =>
            rw [session_opening ho, session_opening ho']
            refine ih (fun g hg => ?_) hagree
            rcases List.mem_append.mp hg with hg | hg
            · exact hh g hg
            · rw [List.mem_singleton.mp hg, FileStore.eq_of_openAt ho]
    | calling handle c =>
      cases hf : handles[handle]? with
      | none => rw [session_calling_none hf, session_calling_none hf, ih hh h]
      | some f =>
        obtain rfl := hh f (List.mem_of_getElem? hf)
        obtain ⟨hsame, hagree⟩ := FileStore.perform_of_agreeAt hr h c
        rw [session_calling hf, session_calling hf, hsame, ih hh hagree]

end DependencyAudit
