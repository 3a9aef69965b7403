import DependencyAudit.Proofs.Cache.Agreement

/-! A commit or a clearing does all that it should, or nothing that shows. At whichever step it
fails, what it leaves behind stands beside the file and is never read. -/
namespace DependencyAudit

namespace FileStore

open Disk

variable {f : FileStore} {d d' : Disk} {change : Entries → Entries} {fault : DiskFault}

/-- The step at which an update fails, when those before it have succeeded, and the disk then. -/
inductive Stops (f : FileStore) (change : Entries → Entries) (d : Disk) (fault : DiskFault) :
    Disk → Prop
  | lock {d₁ : Disk} : d.lock f.lockRoute = (.error fault, d₁) → Stops f change d fault d₁
  | read {d₁ : Disk} : d.lock f.lockRoute = (.ok (), d₁) → f.entries d₁ = .error fault →
    Stops f change d fault d₁
  | write {d₁ : Disk} {es : Entries} : d.lock f.lockRoute = (.ok (), d₁) → f.entries d₁ = .ok es →
    d₁.writeText f.draftRoute (change es).document = .error fault → Stops f change d fault d₁
  | rename {d₁ d₂ : Disk} {es : Entries} : d.lock f.lockRoute = (.ok (), d₁) →
    f.entries d₁ = .ok es → d₁.writeText f.draftRoute (change es).document = .ok d₂ →
    d₂.rename f.draftRoute f.route = .error fault → Stops f change d fault d₂

theorem update_eq_error_iff :
    f.update change d = (.error fault, d') ↔ f.Stops change d fault d' := by
  constructor
  · intro h
    unfold update at h
    split at h
    · rename_i hlock
      cases h
      exact .lock hlock
    · rename_i hlock
      split at h
      · rename_i hread
        cases h
        exact .read hlock hread
      · rename_i hread
        split at h
        · rename_i hwrite
          cases h
          exact .write hlock hread hwrite
        · rename_i hwrite
          split at h
          · rename_i hrename
            cases h
            exact .rename hlock hread hwrite hrename
          · cases h
  · intro h
    unfold update
    cases h with
    | lock hlock => simp only [hlock]
    | read hlock hread => simp only [hlock, hread]
    | write hlock hread hwrite => simp only [hlock, hread, hwrite]
    | rename hlock hread hwrite hrename => simp only [hlock, hread, hwrite, hrename]

/-- What an attempt can leave behind: nothing, a lock where there was none, and a draft in which
anything stands, as its writing can break off anywhere. -/
inductive Littered (f : FileStore) (d : Disk) : Disk → Prop
  | nothing : Littered f d d
  | lock {p : Place} : d.place f.lockRoute = .ok p → d.node? p = none →
    Littered f d (d.put p (.file .empty))
  | draft {d₁ : Disk} {p o : Place} {content : ByteArray} : Littered f d d₁ →
    d₁.place f.lockRoute = .ok p → d₁.place f.draftRoute = .ok o →
    d₁.node? o ≠ some .directory → Littered f d (d₁.put o (.file content))

theorem littered_of_lock {outcome : Except DiskFault Unit}
    (h : d.lock f.lockRoute = (outcome, d')) : f.Littered d d' := by
  rcases cases_of_lock h with rfl | ⟨p, hp, hn, rfl⟩
  · exact .nothing
  · exact .lock hp hn

theorem Littered.agreeAt (h : f.Littered d d') : d' = d ∨ AgreeAt f.route d d' := by
  induction h with
  | nothing => exact Or.inl rfl
  | lock hp hn => exact Or.inr (AgreeAt.put_beside ⟨_, hp⟩ (by decide) hp (by simp [hn]) _)
  | draft _ hlock ho hn ih =>
    have hput := AgreeAt.put_beside ⟨_, hlock⟩ (by decide) ho hn
    rcases ih with rfl | ih
    · exact Or.inr (hput _)
    · exact Or.inr (ih.trans (hput _))

theorem exists_place_of_lock (h : d.lock f.lockRoute = (.ok (), d')) :
    ∃ p, d'.place f.lockRoute = .ok p := by
  unfold Disk.lock at h
  split at h
  · cases h
  · rename_i d₁ p ho
    have hd : d₁ = d' := by
      split at h
      · cases h
      · split at h <;> exact congrArg Prod.snd h
    exact ⟨p, hd ▸ (node?_of_openFile ho).1⟩

theorem Stops.littered (h : f.Stops change d fault d') : f.Littered d d' := by
  cases h with
  | lock hlock => exact littered_of_lock hlock
  | read hlock => exact littered_of_lock hlock
  | write hlock => exact littered_of_lock hlock
  | rename hlock _ hwrite =>
    obtain ⟨o, ho, hn, rfl⟩ := exists_of_write hwrite
    obtain ⟨p, hp⟩ := exists_place_of_lock hlock
    exact .draft (littered_of_lock hlock) hp ho hn

/-- Nothing that can be read tells the disks apart: not the file, nor a read of the store, nor what
any later calls give, through whichever handles on the file. -/
structure Unseen (f : FileStore) (d d' : Disk) : Prop where
  file : d'.at? f.route = d.at? f.route
  get : ∀ now key, f.get now key d' = f.get now key d
  session : ∀ hours steps (handles : List FileStore), (∀ g ∈ handles, g.path = f.path) →
    session f.path hours steps handles d' = session f.path hours steps handles d

theorem Littered.unseen (hr : f.route.NamesFile) (h : f.Littered d d') : f.Unseen d d' := by
  -- Where nothing is left behind, there may be no room beside the file, and none is needed.
  rcases h.agreeAt with rfl | h
  · exact ⟨rfl, fun _ _ => rfl, fun _ _ _ _ => rfl⟩
  · exact ⟨at?_of_agreeAt hr h, get_of_agreeAt hr h,
      fun hours steps _ hh => session_of_agreeAt hr hours steps hh h⟩

/-- A writing operation fails with the number of entries that it was to write, and only litters; or
no step fails, and the document of the changed entries is the content of the file. -/
structure AllOrNothing (f : FileStore) (count : ℕ) (change : Entries → Entries)
    (write : Disk → Except CacheError Unit × Disk) (d : Disk) : Prop where
  failed : ∀ fault d', f.Stops change d fault d' →
    write d = (.error (.write f.path count (f.reason fault)), d') ∧ f.Littered d d'
  done : (∀ fault d', ¬f.Stops change d fault d') →
    ∃ d', write d = (.ok (), d') ∧
      d'.at? f.route = .ok (.file (change (f.held d)).document.toUTF8) ∧
      ((change (f.held d)).Kept → f.held d' = change (f.held d))

theorem allOrNothing_update (hs : f.route.slash = false) (count : ℕ) (change : Entries → Entries)
    (d : Disk) :
    f.AllOrNothing count change (fun d => f.writeResult count (f.update change d)) d where
  failed fault d' h := ⟨by rw [update_eq_error_iff.mpr h]; rfl, h.littered⟩
  done h := by
    cases hu : f.update change d with
    | mk outcome d' =>
      cases outcome with
      | error fault => exact absurd (update_eq_error_iff.mp hu) (h fault d')
      | ok _ => exact ⟨d', rfl, at?_of_update hs hu, fun hc => held_of_update hs hc hu⟩

/-- For a store on a file that was ever opened, whatever the disk has become since: a commit that
fails at any step names the number of its entries, one that does not puts its batch over the live
entries, clearing is the same with no entries, and what a failure leaves, even a draft that is not
written to its end, is not seen by any later call. -/
theorem writes_all_or_nothing {path : String} {hours : ℕ} {d₀ d₁ : Disk}
    (h : openAt path hours d₀ = (.ok f, d₁)) (d : Disk) :
    (∀ now batch, batch ≠ [] →
      f.AllOrNothing batch.length (fun es => (es.live f.lifetime now).putAll batch)
        (f.commit now batch) d ∧
      ((∀ x ∈ batch, x.2.createdAt.IsValid) →
        (((f.held d).live f.lifetime now).putAll batch).Kept) ∧
      ∀ key, (((f.held d).live f.lifetime now).putAll batch).get? key =
        (lastUnder key batch).or ((f.held d).getLive? f.lifetime now key)) ∧
    f.AllOrNothing 0 (fun _ => .empty) f.clear d ∧
    ∀ d', f.Littered d d' → f.Unseen d d' := by
  have hr := namesFile_of_openAt (congrArg Prod.fst h)
  have hkept := f.kept_held d
  refine ⟨fun now batch hb => ⟨?_, (hkept.live _ _).putAll, fun key => ?_⟩,
    allOrNothing_update hr.slash _ _ d, fun d' => Littered.unseen hr⟩
  · rw [funext (f.commit_eq now hb)]
    exact allOrNothing_update hr.slash _ _ d
  · rw [Entries.get?_putAll, hkept.get?_live]

/-- The move of the draft is refused, in a directory where a draft was left before: the entry that
was there is still found, and a commit that is not refused replaces it. -/
theorem writes_all_or_nothing_refused :
    let f : FileStore := ⟨"/c", .ofHours 12⟩
    let now : Timestamp := ⟨⟨2020, 1, 1⟩, 3600, 0⟩
    let old : Entry := ⟨"old", now⟩
    let new : Entry := ⟨"new", now⟩
    let held : Entries := ⟨[("k", old)]⟩
    let d : Disk := { Disk.empty with
      nodes := [(["c"], .file held.document.toUTF8), (["c.tmp"], .file ⟨#[123]⟩)] }
    let refusing : Disk := { d with refused := [(.rename, ["c"])] }
    let batch : List (String × Entry) := [("k", new), ("m", new)]
    openAt "/c" 12 d = (.ok f, d) ∧ batch ≠ [] ∧
    (∃ d', f.commit now batch refusing = (.error (.write "/c" 2 DiskFault.refused.message), d') ∧
      f.get now "k" d' = .ok (some old)) ∧
    ∃ d', f.commit now batch d = (.ok (), d') ∧ f.held d' = ⟨[("k", new), ("m", new)]⟩ := by
  intro f now old new held d refusing batch
  have ho : openAt "/c" 12 d = (.ok f, d) := by decide +kernel
  have hb : batch ≠ [] := by decide
  have hvalid : ∀ x ∈ batch, x.2.createdAt.IsValid := by decide +kernel
  refine ⟨ho, hb, ?_, ?_⟩
  · obtain ⟨hcommit, -, hseen⟩ := writes_all_or_nothing ho refusing
    have hfails : (f.update (fun es => (es.live f.lifetime now).putAll batch) refusing).1 =
        .error .refused := by decide +kernel
    obtain ⟨hd', hl⟩ := (hcommit now batch hb).1.failed .refused _
      (update_eq_error_iff.mp (Prod.ext hfails rfl))
    refine ⟨_, hd', ?_⟩
    rw [(hseen _ hl).get]
    decide +kernel
  · obtain ⟨hall, hkept, -⟩ := (writes_all_or_nothing ho d).1 now batch hb
    have hsucceeds : (f.update (fun es => (es.live f.lifetime now).putAll batch) d).1 = .ok () := by
      decide +kernel
    obtain ⟨d', hd', -, hheld⟩ := hall.done fun fault d' hs => by
      rw [update_eq_error_iff.mpr hs] at hsucceeds
      cases hsucceeds
    exact ⟨d', hd', (hheld (hkept hvalid)).trans (by decide +kernel)⟩

end FileStore
end DependencyAudit
