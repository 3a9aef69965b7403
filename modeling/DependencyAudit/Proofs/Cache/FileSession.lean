import DependencyAudit.Proofs.Cache.FileView
import DependencyAudit.Proofs.Cache.Pruning

/-! Calls through a file. The entries in it go through the states of a store that drops what has
expired; a call that fails leaves them as they are, and none fails where nothing stands in the way. -/
namespace DependencyAudit

namespace FileStore

open Disk

variable {f : FileStore} {d d' : Disk} {c : TimedCall}

/-- The file is there and its content is text. -/
def HasText (f : FileStore) (d : Disk) : Prop :=
  ∃ text : String, d.at? f.route = .ok (.file text.toUTF8)

theorem HasText.slash (h : f.HasText d) : f.route.slash = false := by
  obtain ⟨text, ht⟩ := h
  exact (at?_eq_file_iff.mp ht).1

theorem HasText.of_sameFile (h : f.HasText d) (hs : f.SameFile d d') : f.HasText d' := by
  obtain ⟨text, ht⟩ := h
  exact ⟨text, (hs _).mpr ht⟩

theorem hasText_of_update {change : Entries → Entries} (h : f.HasText d)
    (hu : f.update change d = (.ok (), d')) : f.HasText d' :=
  ⟨_, at?_of_update h.slash hu⟩

/-- Nothing stands in the way of the file, of its lock and of its draft. -/
structure Usable (f : FileStore) (d : Disk) : Prop where
  file : d.Permits [.openFile, .read, .rename] f.route
  lock : d.Permits [.openFile, .lock] f.lockRoute
  unlocked : ∀ x ∈ d.locks, d.place f.lockRoute = .ok x.1 → x.2 < lockWait
  draft : d.Permits [.write] f.draftRoute

instance (f : FileStore) (d : Disk) : Decidable (f.Usable d) :=
  decidable_of_iff (d.Permits [.openFile, .read, .rename] f.route ∧
      d.Permits [.openFile, .lock] f.lockRoute ∧
      (∀ x ∈ d.locks, d.place f.lockRoute = .ok x.1 → x.2 < lockWait) ∧
      d.Permits [.write] f.draftRoute)
    ⟨fun ⟨hf, hl, hu, hd⟩ => ⟨hf, hl, hu, hd⟩, fun ⟨hf, hl, hu, hd⟩ => ⟨hf, hl, hu, hd⟩⟩

theorem Usable.of_sameSetting (h : f.Usable d) (hs : SameSetting d d') : f.Usable d' where
  file := h.file.of_sameSetting hs
  lock := h.lock.of_sameSetting hs
  unlocked x hx hp := h.unlocked x (hs.locks_eq ▸ hx) (hs.place_iff.mp hp)
  draft := h.draft.of_sameSetting hs

theorem entries_of_usable (h : f.Usable d) (ht : f.HasText d) : f.entries d = .ok (f.held d) := by
  obtain ⟨p, hp, -, hfree⟩ := h.file.exists_place
  obtain ⟨text, ht'⟩ := ht
  obtain ⟨hs, q, hq, hn⟩ := at?_eq_file_iff.mp ht'
  obtain rfl : p = q := Except.ok.inj (hp.symm.trans hq)
  rw [entries_eq hs hp, held_eq hs hp, hn]
  have hread : (.read, p) ∉ d.refused := allows_eq_ok_iff.mp (hfree .read (by simp))
  simp only [if_neg hread, fromUTF8?_toUTF8, Option.map_some, Option.getD_some]

theorem exists_update (h : f.Usable d) (ht : f.HasText d) (change : Entries → Entries) :
    ∃ d', f.update change d = (.ok (), d') := by
  obtain ⟨d₁, hlock⟩ := exists_lock h.lock h.unlocked
  have h₁ := h.of_sameSetting (sameSetting_lock hlock)
  have hentries := entries_of_usable h₁ (ht.of_sameFile (sameFile_of_lock hlock))
  obtain ⟨d₂, hwrite⟩ := exists_write h₁.draft (change (f.held d₁)).document.toUTF8
  obtain ⟨o, ho, hn, rfl⟩ := exists_of_write hwrite
  have hput := SameSetting.put_file hn (change (f.held d₁)).document.toUTF8
  obtain ⟨d₃, hrename⟩ := exists_rename (hput.place_iff.mpr ho)
    (node?_put _ _ (ne_nil_of_node? hn)) (h₁.file.of_sameSetting hput) (by simp)
  refine ⟨d₃, ?_⟩
  simp only [update, hlock, hentries, writeText, hwrite, hrename]

/-- A call has succeeded and given what the store of the entries gives, or has failed and changed no
entries. -/
def Follows (f : FileStore) (c : TimedCall) (d : Disk) (outcome : StoreOutcome) (d' : Disk) : Prop :=
  (outcome.isOk = true ∧ (pruningStore f.lifetime).perform c (f.held d) = (outcome, f.held d')) ∨
    (outcome.isOk = false ∧ f.held d' = f.held d)

theorem fetch_cases (f : FileStore) (hs : f.route.slash = false) (now : Timestamp)
    (keys : List String) (d : Disk) :
    f.fetch now keys d = .ok ((f.held d).takeMany f.lifetime now keys) ∨
      ∃ e, f.fetch now keys d = .error e := by
  unfold fetch
  split
  · exact Or.inr ⟨_, rfl⟩
  · rename_i es hes
    rw [held_of_entries hs hes]
    exact Or.inl rfl

theorem writeResult_update {count : ℕ} {change : Entries → Entries} {outcome : Except CacheError Unit}
    (ht : f.HasText d) (hc : (change (f.held d)).Kept)
    (h : f.writeResult count (f.update change d) = (outcome, d')) :
    f.HasText d' ∧ (outcome = .ok () ∧ f.held d' = change (f.held d) ∨
      ∃ e, outcome = .error e ∧ f.held d' = f.held d) := by
  cases hu : f.update change d with
  | mk result d₁ =>
    rw [hu] at h
    cases result with
    | error fault =>
      cases h
      have hsame := sameFile_of_update_error hu
      exact ⟨ht.of_sameFile hsame, Or.inr ⟨_, rfl, hsame.held_eq⟩⟩
    | ok _ =>
      cases h
      exact ⟨hasText_of_update ht hu, Or.inl ⟨rfl, held_of_update ht.slash hc hu⟩⟩

/-- One call through the file, case by case. -/
theorem perform_fileStore (ht : f.HasText d) (hb : ∀ x ∈ c.call.batch, x.2.createdAt.IsValid) :
    f.HasText ((fileStore f).perform c d).2 ∧
      f.Follows c d ((fileStore f).perform c d).1 ((fileStore f).perform c d).2 := by
  obtain ⟨now, call⟩ := c
  cases call with
  | get key =>
    refine ⟨ht, ?_⟩
    simp only [Store.perform, fileStore, FileStore.get]
    rcases f.fetch_cases ht.slash now [key] d with h | ⟨e, h⟩
    · rw [h]
      exact Or.inl ⟨rfl, rfl⟩
    · rw [h]
      exact Or.inr ⟨rfl, rfl⟩
  | getMany keys =>
    refine ⟨ht, ?_⟩
    simp only [Store.perform, fileStore]
    rcases f.fetch_cases ht.slash now keys d with h | ⟨e, h⟩
    · rw [h]
      exact Or.inl ⟨rfl, rfl⟩
    · rw [h]
      exact Or.inr ⟨rfl, rfl⟩
  | commit batch =>
    by_cases hn : batch = []
    · subst hn
      exact ⟨ht, Or.inl ⟨rfl, rfl⟩⟩
    · have hkept := ((f.kept_held d).live f.lifetime now).putAll hb
      simp only [Store.perform, fileStore, f.commit_eq now hn d]
      cases hu : f.writeResult batch.length
          (f.update (fun es => (es.live f.lifetime now).putAll batch) d) with
      | mk outcome d' =>
        obtain ⟨ht', ⟨rfl, hd⟩ | ⟨e, rfl, hd⟩⟩ := writeResult_update ht hkept hu
        · exact ⟨ht', Or.inl ⟨rfl, by simp [Store.perform, pruningStore, hn, hd, asCommit]⟩⟩
        · exact ⟨ht', Or.inr ⟨rfl, hd⟩⟩
  | clear =>
    simp only [Store.perform, fileStore, clear]
    cases hu : f.writeResult 0 (f.update (fun _ => .empty) d) with
    | mk outcome d' =>
      obtain ⟨ht', ⟨rfl, hd⟩ | ⟨e, rfl, hd⟩⟩ := writeResult_update ht Entries.kept_empty hu
      · exact ⟨ht', Or.inl ⟨rfl, by simp [Store.perform, pruningStore, hd]⟩⟩
      · exact ⟨ht', Or.inr ⟨rfl, hd⟩⟩

theorem exists_writeResult (h : f.Usable d) (ht : f.HasText d) (count : ℕ)
    (change : Entries → Entries) :
    ∃ d', f.writeResult count (f.update change d) = (.ok (), d') ∧ f.Usable d' := by
  obtain ⟨d', hu⟩ := exists_update h ht change
  exact ⟨d', by rw [hu]; rfl, h.of_sameSetting (sameSetting_of_update hu)⟩

/-- Where nothing stands in the way every call succeeds, and nothing comes to stand in the way. -/
theorem perform_usable (h : f.Usable d) (ht : f.HasText d) (c : TimedCall) :
    ((fileStore f).perform c d).1.isOk = true ∧ f.Usable ((fileStore f).perform c d).2 := by
  obtain ⟨now, call⟩ := c
  have hentries := entries_of_usable h ht
  cases call with
  | get key =>
    simp only [Store.perform, fileStore, FileStore.get, fetch, hentries]
    exact ⟨rfl, h⟩
  | getMany keys =>
    simp only [Store.perform, fileStore, fetch, hentries]
    exact ⟨rfl, h⟩
  | commit batch =>
    by_cases hn : batch = []
    · subst hn
      exact ⟨rfl, h⟩
    · obtain ⟨d', hu, h'⟩ := exists_writeResult h ht batch.length
        fun es => (es.live f.lifetime now).putAll batch
      simp only [Store.perform, fileStore, f.commit_eq now hn d, hu]
      exact ⟨rfl, h'⟩
  | clear =>
    obtain ⟨d', hu, h'⟩ := exists_writeResult h ht 0 fun _ => .empty
    simp only [Store.perform, fileStore, clear, hu]
    exact ⟨rfl, h'⟩

/-- The store to which an opening gives a handle. -/
abbrev opened (path : String) (hours : ℕ) : FileStore := ⟨path, .ofHours hours⟩

variable {path : String} {hours : ℕ}

/-- Opening a file that is there changes nothing, and succeeds where nothing stands in the way. -/
theorem openAt_cases (ht : (opened path hours).HasText d) :
    openAt path hours d = (.ok (opened path hours), d) ∨
      (∃ e, openAt path hours d = (.error e, d)) ∧ ¬(opened path hours).Usable d := by
  obtain ⟨text, ht⟩ := ht
  obtain ⟨hs, p, hp, hn⟩ := at?_eq_file_iff.mp ht
  have hparent := makeParent_of_place hp
  have hopen := openFile_of_file hs hp hn
  simp only [route] at hparent hopen
  cases ha : d.allows .openFile p with
  | error fault =>
    right
    simp only [ha, Except.map] at hopen
    refine ⟨⟨.unavailable path fault.message, by simp only [openAt, hparent, hopen]⟩, ?_⟩
    intro h
    obtain ⟨q, hq, -, hfree⟩ := h.file.exists_place
    obtain rfl : p = q := Except.ok.inj (hp.symm.trans hq)
    rw [hfree .openFile List.mem_cons_self] at ha
    cases ha
  | ok _ =>
    left
    simp only [ha, Except.map] at hopen
    simp only [openAt, hparent, hopen]

end FileStore

section Session

open FileStore

variable {path : String} {hours : ℕ} {handles : List FileStore} {steps : List SessionStep} {d : Disk}

/-- The calls that are made are among those that are issued. -/
theorem session_sublist {bound : ℕ} (hh : handles.length ≤ bound) :
    ((session path hours steps handles d).map (·.1)).Sublist (issued bound steps) := by
  induction steps generalizing handles d bound with
  | nil => exact List.Sublist.slnil
  | cons step steps ih =>
    cases step with
    | opening =>
      simp only [session, issued]
      split
      · exact ih (by simpa using hh)
      · exact ih (by omega)
    | calling handle c =>
      simp only [session, issued]
      split
      · rename_i f hf
        obtain ⟨hlt, -⟩ := List.getElem?_eq_some_iff.mp hf
        rw [if_pos (by omega), List.map_cons]
        exact (ih hh).cons_cons _
      · split
        · exact (ih hh).cons _
        · exact ih hh

/-- The calls that succeed have the outcomes that the store of the entries gives. -/
theorem replies_session (hh : ∀ f ∈ handles, f = opened path hours)
    (ht : (opened path hours).HasText d)
    (hb : ∀ x ∈ session path hours steps handles d, ∀ y ∈ x.1.call.batch, y.2.createdAt.IsValid) :
    (pruningStore (.ofHours hours)).replies
        (((session path hours steps handles d).filter (·.2.isOk)).map (·.1))
        ((opened path hours).held d) =
      ((session path hours steps handles d).filter (·.2.isOk)).map (·.2) := by
  induction steps generalizing handles d with
  | nil => rfl
  | cons step steps ih =>
    cases step with
    | opening =>
      rcases openAt_cases ht with ho | ⟨⟨e, ho⟩, -⟩
      · rw [session_opening ho] at hb ⊢
        exact ih (by simpa [or_imp, forall_and] using hh) ht hb
      · rw [session_opening_error ho] at hb ⊢
        exact ih hh ht hb
    | calling handle c =>
      cases hf : handles[handle]? with
      | none =>
        rw [session_calling_none hf] at hb ⊢
        exact ih hh ht hb
      | some f =>
        obtain rfl := hh f (List.mem_of_getElem? hf)
        rw [session_calling hf] at hb ⊢
        have hc : ∀ y ∈ c.call.batch, y.2.createdAt.IsValid := hb _ List.mem_cons_self
        obtain ⟨ht', hstep⟩ := perform_fileStore ht hc
        have ih := ih hh ht' fun x hx => hb x (List.mem_cons_of_mem _ hx)
        rcases hstep with ⟨hok, hperform⟩ | ⟨herror, hheld⟩
        · simp only [List.filter_cons, hok, if_true, List.map_cons, Store.replies, hperform, ih]
        · rw [hheld] at ih
          simpa only [List.filter_cons, herror, Bool.false_eq_true, if_false] using ih

/-- Where nothing stands in the way every call that is issued is made, and succeeds. -/
theorem session_usable (hh : ∀ f ∈ handles, f = opened path hours)
    (ht : (opened path hours).HasText d) (hu : (opened path hours).Usable d)
    (hb : ∀ x ∈ session path hours steps handles d, ∀ y ∈ x.1.call.batch, y.2.createdAt.IsValid) :
    (session path hours steps handles d).map (·.1) = issued handles.length steps ∧
      ∀ x ∈ session path hours steps handles d, x.2.isOk = true := by
  induction steps generalizing handles d with
  | nil => exact ⟨rfl, by simp [session]⟩
  | cons step steps ih =>
    cases step with
    | opening =>
      rcases openAt_cases ht with ho | ⟨-, hn⟩
      · rw [session_opening ho] at hb ⊢
        have ih := ih (by simpa [or_imp, forall_and] using hh) ht hu hb
        rwa [List.length_append] at ih
      · exact absurd hu hn
    | calling handle c =>
      cases hf : handles[handle]? with
      | none =>
        rw [session_calling_none hf] at hb ⊢
        have hle := List.getElem?_eq_none_iff.mp hf
        rw [issued, if_neg (by omega)]
        exact ih hh ht hu hb
      | some f =>
        obtain rfl := hh f (List.mem_of_getElem? hf)
        rw [session_calling hf] at hb ⊢
        obtain ⟨hlt, -⟩ := List.getElem?_eq_some_iff.mp hf
        have hc : ∀ y ∈ c.call.batch, y.2.createdAt.IsValid := hb _ List.mem_cons_self
        obtain ⟨ht', -⟩ := perform_fileStore ht hc
        obtain ⟨hok, hu'⟩ := perform_usable hu ht c
        obtain ⟨hcalls, hall⟩ := ih hh ht' hu' fun x hx => hb x (List.mem_cons_of_mem _ hx)
        rw [issued, if_pos hlt, List.map_cons, hcalls]
        exact ⟨rfl, List.forall_mem_cons.mpr ⟨hok, hall⟩⟩

end Session
end DependencyAudit
