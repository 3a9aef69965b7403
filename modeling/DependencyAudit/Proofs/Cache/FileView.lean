import DependencyAudit.Proofs.Cache.Document
import DependencyAudit.Proofs.Cache.View
import DependencyAudit.Proofs.Disk.Beside

/-! What a file store holds: the entries in its file. A commit replaces them, or leaves them when it
fails at any of its steps. -/
namespace DependencyAudit

theorem fromUTF8?_toUTF8 (s : String) : String.fromUTF8? s.toUTF8 = some s := by
  have h : s.toUTF8.IsValidUTF8 := s.isValidUTF8
  simp only [String.fromUTF8?, dif_pos h]
  rfl

theorem Disk.at?_eq_file_iff {d : Disk} {r : Route} {content : ByteArray} :
    d.at? r = .ok (.file content) ↔
      r.slash = false ∧ ∃ p, d.place r = .ok p ∧ d.node? p = some (.file content) := by
  constructor
  · intro h
    obtain ⟨p, hp, h⟩ := exists_of_bind h
    split at h
    · cases h
    · rename_i hn
      split at h
      · cases h
      · rename_i hs
        cases h
        exact ⟨by simpa using hs, p, hp, hn⟩
    · cases h
  · rintro ⟨hs, p, hp, hn⟩
    simp only [at?, hp, bind, Except.bind, hn, hs]
    rfl

/-- A text that is there, and may be read, is read. -/
theorem Disk.readText_of_at? {d : Disk} {r : Route} {text : String}
    (h : d.at? r = .ok (.file text.toUTF8)) (hp : d.Permits [.read] r) :
    d.readText r = .ok text := by
  obtain ⟨p, hplace, -, hall⟩ := hp.exists_place
  have hallows := hall .read List.mem_cons_self
  simp only [readText, read, h, hplace, hallows, fromUTF8?_toUTF8, bind, Except.bind, pure,
    Except.pure]

namespace FileStore

open Disk

variable {f : FileStore} {d d' : Disk}

theorem eq_of_openAt {path : String} {hours : ℕ} (h : openAt path hours d = (.ok f, d')) :
    f = ⟨path, .ofHours hours⟩ := by
  simp only [openAt] at h
  split at h
  · cases h
  · split at h <;> cases h
    rfl

theorem namesFile_of_openAt {path : String} {hours : ℕ} (h : (openAt path hours d).1 = .ok f) :
    f.route.NamesFile := by
  simp only [openAt] at h
  split at h
  · cases h
  · split at h
    · cases h
    · rename_i ho
      cases h
      exact namesFile_of_openFile ho

/-- The entries in the file, whether it may be read or not; where no file of text is, none. -/
def held (f : FileStore) (d : Disk) : Entries :=
  match d.at? f.route with
  | .ok (.file content) => ((String.fromUTF8? content).map .ofDocument).getD .empty
  | _ => .empty

theorem kept_held (f : FileStore) (d : Disk) : (f.held d).Kept := by
  unfold held
  split
  · cases String.fromUTF8? _ with
    | none => exact Entries.kept_empty
    | some text => exact Entries.kept_ofDocument text
  · exact Entries.kept_empty

theorem held_eq_empty (h : ∀ content, d.at? f.route ≠ .ok (.file content)) : f.held d = .empty := by
  unfold held
  split
  · rename_i content hc
    exact absurd hc (h content)
  · rfl

/-- The store's file is there with the same content, or not there as before. -/
def SameFile (f : FileStore) (d d' : Disk) : Prop :=
  ∀ content, d'.at? f.route = .ok (.file content) ↔ d.at? f.route = .ok (.file content)

theorem SameFile.refl (f : FileStore) (d : Disk) : f.SameFile d d := fun _ => Iff.rfl

theorem SameFile.trans {d'' : Disk} (h : f.SameFile d d') (h' : f.SameFile d' d'') :
    f.SameFile d d'' := fun content => (h' content).trans (h content)

theorem SameFile.held_eq (h : f.SameFile d d') : f.held d' = f.held d := by
  by_cases hf : ∃ content, d.at? f.route = .ok (.file content)
  · obtain ⟨content, hc⟩ := hf
    rw [held, held, hc, (h content).mpr hc]
  · rw [not_exists] at hf
    rw [held_eq_empty hf, held_eq_empty fun content hc => hf content ((h content).mp hc)]

theorem sameFile_put_beside {ending : String} (he : ending ≠ "") {o : Place}
    (ho : d.place (f.route.withEnding ending) = .ok o) (hn : d.node? o ≠ some .directory)
    (content : ByteArray) : f.SameFile d (d.put o (.file content)) := by
  intro held
  rw [at?_eq_file_iff, at?_eq_file_iff]
  refine and_congr_right fun _ => exists_congr fun p => ?_
  rw [(SameSetting.put_file hn content).place_iff]
  refine and_congr_right fun hp => ?_
  rw [node?_put_beside he ho hn hp]

theorem sameFile_of_lock {outcome : Except DiskFault Unit} (h : d.lock f.lockRoute = (outcome, d')) :
    f.SameFile d d' := by
  rcases cases_of_lock h with rfl | ⟨o, ho, hn, rfl⟩
  · exact SameFile.refl f d'
  · exact sameFile_put_beside (by decide) ho (by simp [hn]) _

theorem held_eq (hs : f.route.slash = false) {p : Place} (hp : d.place f.route = .ok p) :
    f.held d = match d.node? p with
      | some (.file content) => ((String.fromUTF8? content).map .ofDocument).getD .empty
      | _ => .empty := by
  simp only [held, at?, hp, bind, Except.bind, hs]
  cases d.node? p with
  | none => rfl
  | some node => cases node <;> rfl

/-- A file can be read, is kept from reading, or is no text. -/
theorem entries_eq (hs : f.route.slash = false) {p : Place} (hp : d.place f.route = .ok p) :
    f.entries d = match d.node? p with
      | none => .ok .empty
      | some node => if (.read, p) ∈ d.refused then .error .refused
        else match node with
          | .directory => .error .isDirectory
          | .file content => match String.fromUTF8? content with
            | some text => .ok (.ofDocument text)
            | none => .error .notText := by
  simp only [entries, readText, Disk.read, at?, hp, allows, bind, Except.bind, hs]
  cases d.node? p with
  | none => rfl
  | some node =>
    by_cases hr : (.read, p) ∈ d.refused
    · cases node <;> simp [hr, pure, Except.pure]
    · cases node with
      | directory => simp [hr, pure, Except.pure, throw, throwThe, MonadExceptOf.throw]
      | file content =>
        cases ht : String.fromUTF8? content <;>
          simp [hr, ht, pure, Except.pure, throw, throwThe, MonadExceptOf.throw]

theorem held_of_entries (hs : f.route.slash = false) {es : Entries} (h : f.entries d = .ok es) :
    es = f.held d := by
  cases hp : d.place f.route with
  | error fault =>
    rw [held_eq_empty (by simp [at?_eq_file_iff, hp])]
    simp only [entries, readText, Disk.read, at?, hp, bind, Except.bind] at h
    split at h
    · rename_i ht
      cases ht
    · cases h
      rfl
    · cases h
  | ok p =>
    rw [entries_eq hs hp] at h
    rw [held_eq hs hp]
    cases hn : d.node? p with
    | none =>
      rw [hn] at h
      cases h
      rfl
    | some node =>
      rw [hn] at h
      dsimp only at h
      split at h
      · cases h
      · split at h
        · cases h
        · split at h
          · rename_i htext
            cases h
            simp [htext]
          · cases h

/-- A moved draft is what stands in the file from then on. -/
theorem at?_of_rename (hs : f.route.slash = false) {o : Place} (ho : d.place f.draftRoute = .ok o)
    {content : ByteArray} (hn : d.node? o = some (.file content))
    (h : d.rename f.draftRoute f.route = .ok d') : d'.at? f.route = .ok (.file content) := by
  obtain ⟨o', p, content', ho', hp, hn', hp', hsame⟩ := exists_of_rename h
  obtain rfl : o = o' := Except.ok.inj (ho.symm.trans ho')
  obtain rfl : content = content' := by
    have := hn.symm.trans hn'
    simpa using this
  exact at?_eq_file_iff.mpr ⟨hs, p, hsame.place_iff.mpr hp, hp'⟩

theorem held_of_at? {es : Entries} (hes : es.Kept)
    (h : d.at? f.route = .ok (.file es.document.toUTF8)) : f.held d = es := by
  simp only [held, h, fromUTF8?_toUTF8, Option.map_some, Option.getD_some,
    Entries.ofDocument_document hes]

variable {change : Entries → Entries}

/-- What a successful update goes through: the lock, the draft, and its move. -/
theorem exists_of_update (h : f.update change d = (.ok (), d')) :
    ∃ d₁ es o, d.lock f.lockRoute = (.ok (), d₁) ∧ f.entries d₁ = .ok es ∧
      d₁.place f.draftRoute = .ok o ∧ d₁.node? o ≠ some .directory ∧
      (d₁.put o (.file (change es).document.toUTF8)).rename f.draftRoute f.route = .ok d' := by
  unfold update at h
  split at h
  · cases h
  · rename_i d₁ hlock
    split at h
    · cases h
    · rename_i es hes
      split at h
      · cases h
      · rename_i d₂ hwrite
        split at h
        · cases h
        · rename_i d₃ hrename
          cases h
          obtain ⟨o, ho, hn, rfl⟩ := exists_of_write hwrite
          exact ⟨d₁, es, o, hlock, hes, ho, hn, hrename⟩

/-- A successful update puts the document of the changed entries into the file. -/
theorem at?_of_update (hs : f.route.slash = false) (h : f.update change d = (.ok (), d')) :
    d'.at? f.route = .ok (.file (change (f.held d)).document.toUTF8) := by
  obtain ⟨d₁, es, o, hlock, hes, ho, hn, hrename⟩ := exists_of_update h
  obtain rfl := held_of_entries hs hes
  rw [(sameFile_of_lock hlock).held_eq] at hrename
  refine at?_of_rename hs ?_ (node?_put _ _ (ne_nil_of_node? hn)) hrename
  exact (SameSetting.put_file hn _).place_iff.mpr ho

/-- A successful update changes the entries as it should. -/
theorem held_of_update (hs : f.route.slash = false) (hc : (change (f.held d)).Kept)
    (h : f.update change d = (.ok (), d')) : f.held d' = change (f.held d) :=
  held_of_at? hc (at?_of_update hs h)

/-- An update that fails at any of its steps leaves the file as it was. -/
theorem sameFile_of_update_error {fault : DiskFault} (h : f.update change d = (.error fault, d')) :
    f.SameFile d d' := by
  unfold update at h
  split at h
  · rename_i d₁ hlock
    cases h
    exact sameFile_of_lock hlock
  · rename_i d₁ hlock
    split at h
    · cases h
      exact sameFile_of_lock hlock
    · split at h
      · cases h
        exact sameFile_of_lock hlock
      · rename_i d₂ hwrite
        split at h
        · cases h
          obtain ⟨o, ho, hn, rfl⟩ := exists_of_write hwrite
          exact (sameFile_of_lock hlock).trans (sameFile_put_beside (by decide) ho hn _)
        · cases h

theorem commit_eq (f : FileStore) (now : Timestamp) {batch : List (String × Entry)}
    (hb : batch ≠ []) (d : Disk) : f.commit now batch d =
      f.writeResult batch.length (f.update (fun es => (es.live f.lifetime now).putAll batch) d) := by
  have he : batch.isEmpty = false := by simpa using hb
  simp [commit, he]

theorem commit_nil (f : FileStore) (now : Timestamp) (d : Disk) : f.commit now [] d = (.ok (), d) :=
  rfl

/-- A batch is put over the entries that are still live. -/
theorem held_of_commit (hs : f.route.slash = false) {now : Timestamp}
    {batch : List (String × Entry)} (hn : batch ≠ []) (hb : ∀ x ∈ batch, x.2.createdAt.IsValid)
    (h : f.commit now batch d = (.ok (), d')) :
    f.held d' = ((f.held d).live f.lifetime now).putAll batch := by
  rw [commit_eq f now hn] at h
  cases hu : f.update (fun es => (es.live f.lifetime now).putAll batch) d with
  | mk outcome d₁ =>
    rw [hu] at h
    cases outcome with
    | error fault => cases h
    | ok _ =>
      cases h
      exact held_of_update hs (((f.kept_held d).live _ _).putAll hb) hu

theorem sameFile_of_commit_error {now : Timestamp} {batch : List (String × Entry)} {e : CacheError}
    (h : f.commit now batch d = (.error e, d')) : f.SameFile d d' := by
  by_cases hn : batch = []
  · subst hn
    cases h
  · rw [commit_eq f now hn] at h
    cases hu : f.update (fun es => (es.live f.lifetime now).putAll batch) d with
    | mk outcome d₁ =>
      rw [hu] at h
      cases outcome with
      | error fault =>
        cases h
        exact sameFile_of_update_error hu
      | ok _ => cases h

/-- A file that is not there is not kept from being read. -/
def Unguarded (f : FileStore) (d : Disk) : Prop :=
  ∀ p, d.place f.route = .ok p → d.node? p = none → (.read, p) ∉ d.refused

theorem sameSetting_of_update (h : f.update change d = (.ok (), d')) : SameSetting d d' := by
  obtain ⟨d₁, es, o, hlock, -, -, hn, hrename⟩ := exists_of_update h
  obtain ⟨_, _, _, -, -, -, -, hrenamed⟩ := exists_of_rename hrename
  exact ((sameSetting_lock hlock).trans (SameSetting.put_file hn _)).trans hrenamed

/-- Taking the lock changes nothing about the store's file. -/
theorem entries_of_lock (hs : f.route.slash = false) {outcome : Except DiskFault Unit} {p : Place}
    (hp : d.place f.route = .ok p) (h : d.lock f.lockRoute = (outcome, d')) :
    f.entries d' = f.entries d := by
  have hsame := sameSetting_lock h
  have hnode : d'.node? p = d.node? p := by
    rcases cases_of_lock h with rfl | ⟨o, ho, hn, rfl⟩
    · rfl
    · exact node?_put_beside (by decide) ho (by simp [hn]) hp _
  rw [entries_eq hs hp, entries_eq hs (hsame.place_iff.mpr hp), hnode, hsame.refused_eq]

/-- What could be changed could be read before, and can be read again. -/
theorem entries_of_update (hs : f.route.slash = false) (hg : f.Unguarded d)
    (h : f.update change d = (.ok (), d')) :
    (∃ es, f.entries d = .ok es) ∧ (∃ es, f.entries d' = .ok es) ∧ f.Unguarded d' := by
  obtain ⟨-, p, hp, hn⟩ := at?_eq_file_iff.mp (at?_of_update hs h)
  have hsame := sameSetting_of_update h
  have hp₀ := hsame.place_iff.mp hp
  obtain ⟨d₁, es, o, hlock, hes, -⟩ := exists_of_update h
  rw [entries_of_lock hs hp₀ hlock] at hes
  have hfree : (.read, p) ∉ d.refused := by
    cases hnode : d.node? p with
    | none => exact hg p hp₀ hnode
    | some node =>
      rw [entries_eq hs hp₀, hnode] at hes
      intro hr
      simp [hr] at hes
  refine ⟨⟨es, hes⟩, ⟨.ofDocument (change (f.held d)).document, ?_⟩, fun q hq hnone => ?_⟩
  · simp only [entries_eq hs hp, hn, hsame.refused_eq, if_neg hfree, fromUTF8?_toUTF8]
  · obtain rfl : p = q := Except.ok.inj (hp.symm.trans hq)
    rw [hn] at hnone
    cases hnone

end FileStore

theorem commit_of_fileStore {f : FileStore} {now : Timestamp} {batch : List (String × Entry)}
    {d d' : Disk} (h : (fileStore f).commit now batch d = (.ok (), d')) :
    f.commit now batch d = (.ok (), d') := by
  simp only [fileStore] at h
  cases hc : f.commit now batch d with
  | mk outcome d₁ =>
    rw [hc] at h
    cases outcome <;> cases h
    rfl

theorem commit_error_of_fileStore {f : FileStore} {now : Timestamp}
    {batch : List (String × Entry)} {d d' : Disk} {e : CommitFailure}
    (h : (fileStore f).commit now batch d = (.error e, d')) :
    ∃ e, f.commit now batch d = (.error e, d') := by
  simp only [fileStore] at h
  cases hc : f.commit now batch d with
  | mk outcome d₁ =>
    rw [hc] at h
    cases outcome with
    | error e =>
      cases h
      exact ⟨e, rfl⟩
    | ok _ => cases h

theorem Entries.Kept.overlays_putAll_live {es : Entries} (h : es.Kept) (lifetime : Lifetime)
    (now : Timestamp) (batch : List (String × Entry)) :
    Overlays (fun e => e.isExpired lifetime now = true) batch es.get?
      ((es.live lifetime now).putAll batch).get? := by
  intro key
  rw [Entries.get?_putAll, h.get?_live, Entries.getLive?_eq]
  cases lastUnder key batch with
  | some e => exact Or.inl rfl
  | none =>
    cases hg : es.get? key with
    | none => exact Or.inl rfl
    | some e =>
      cases he : e.isExpired lifetime now with
      | false => exact Or.inl (by simp [he, Option.filter_some])
      | true => exact Or.inr ⟨by simp [he, Option.filter_some], e, rfl, he⟩

/-- A store in a file drops what has expired when it commits. -/
def fileView (f : FileStore) (hs : f.route.slash = false) : (fileStore f).View where
  content d := (f.held d).get?
  isLive now e := !e.isExpired f.lifetime now
  drops now e := e.isExpired f.lifetime now = true
  not_live_of_drops h := by simp [h]
  get?_fetch := by
    intro now keys d found h key hk
    simp only [fileStore, FileStore.fetch] at h
    split at h
    · cases h
    · rename_i es hes
      cases h
      rw [FileStore.held_of_entries hs hes, Entries.get?_takeMany, if_pos hk, Entries.getLive?_eq]
  overlays_commit := by
    intro now batch d d' _ hb h
    have hc := commit_of_fileStore h
    by_cases hn : batch = []
    · subst hn
      cases hc
      exact Overlays.refl _ _
    · rw [FileStore.held_of_commit hs hn hb hc]
      exact (f.kept_held d).overlays_putAll_live f.lifetime now batch
  content_of_error := by
    intro now batch d e d' _ _ h
    obtain ⟨e', hc⟩ := commit_error_of_fileStore h
    rw [(FileStore.sameFile_of_commit_error hc).held_eq]

theorem readable_fileStore_iff {f : FileStore} {d : Disk} :
    (fileStore f).Readable d ↔ ∃ es, f.entries d = .ok es := by
  constructor
  · intro h
    obtain ⟨found, hf⟩ := h Entry.blank.createdAt []
    simp only [fileStore, FileStore.fetch] at hf
    split at hf
    · cases hf
    · rename_i es hes
      exact ⟨es, hes⟩
  · rintro ⟨es, hes⟩ now keys
    exact ⟨es.takeMany f.lifetime now keys, by simp only [fileStore, FileStore.fetch, hes]⟩

theorem rereads_fileStore {f : FileStore} (hs : f.route.slash = false) :
    (fileStore f).Rereads f.Unguarded where
  readable_of_fetch := by
    intro now keys d found h
    rw [readable_fileStore_iff]
    simp only [fileStore, FileStore.fetch] at h
    split at h
    · cases h
    · rename_i es hes
      exact ⟨es, hes⟩
  commit_nil _ _ := rfl
  of_commit := by
    intro now batch d d' hg hn h
    have hc := commit_of_fileStore h
    rw [f.commit_eq now hn] at hc
    cases hu : f.update (fun es => (es.live f.lifetime now).putAll batch) d with
    | mk outcome d₁ =>
      rw [hu] at hc
      cases outcome with
      | error fault => cases hc
      | ok _ =>
        cases hc
        obtain ⟨hbefore, hafter, hg'⟩ := FileStore.entries_of_update hs hg hu
        exact ⟨readable_fileStore_iff.mpr hbefore, readable_fileStore_iff.mpr hafter, hg'⟩

end DependencyAudit
