import DependencyAudit.Proofs.Cache.FileSession

/-! What a store makes of a file whatever stands in it. From any text it recovers: what is no document
counts as empty. From bytes that are no text it never does, as every call reads the file first. -/
namespace DependencyAudit

namespace FileStore

open Disk

variable {f : FileStore} {d d' : Disk} {content : ByteArray}

/-- Reads succeed; a commit succeeds, and the entries of its batch are found while they are live; and
clearing succeeds and leaves nothing. -/
structure Recovers (f : FileStore) (d : Disk) : Prop where
  fetch : ∀ now keys, ∃ es, f.fetch now keys d = .ok es
  commit : ∀ now batch, (∀ x ∈ batch, x.2.createdAt.IsValid) →
    ∃ d', f.commit now batch d = (.ok (), d') ∧ ∀ later key e, lastUnder key batch = some e →
      e.isExpired f.lifetime later = false → f.get later key d' = .ok (some e)
  clear : ∃ d', f.clear d = (.ok (), d') ∧ ∀ later key, f.get later key d' = .ok none

theorem hasText_iff (hc : d.at? f.route = .ok (.file content)) :
    f.HasText d ↔ content.IsValidUTF8 := by
  constructor
  · rintro ⟨text, ht⟩
    obtain rfl : content = text.toUTF8 := by simpa using hc.symm.trans ht
    exact text.isValidUTF8
  · intro h
    exact ⟨String.fromUTF8 content h, hc⟩

theorem get_of_usable (hu : f.Usable d) (ht : f.HasText d) (now : Timestamp) (key : String) :
    f.get now key d = .ok ((f.held d).getLive? f.lifetime now key) := by
  simp only [FileStore.get, fetch, entries_of_usable hu ht, Except.map, Entries.get?_takeMany,
    List.mem_singleton, if_true]

/-- An update of a text succeeds, and the changed entries are in the file. -/
theorem exists_held_of_update (hu : f.Usable d) (ht : f.HasText d) (count : ℕ)
    (change : Entries → Entries) (hc : (change (f.held d)).Kept) :
    ∃ d', f.writeResult count (f.update change d) = (.ok (), d') ∧ f.Usable d' ∧ f.HasText d' ∧
      f.held d' = change (f.held d) := by
  obtain ⟨d', hw, hu'⟩ := exists_writeResult hu ht count change
  obtain ⟨ht', ⟨-, hheld⟩ | ⟨e, he, -⟩⟩ := writeResult_update ht hc hw
  · exact ⟨d', hw, hu', ht', hheld⟩
  · cases he

theorem recovers_of_hasText (hu : f.Usable d) (ht : f.HasText d) : f.Recovers d where
  fetch now keys := ⟨_, by simp only [FileStore.fetch, entries_of_usable hu ht]; rfl⟩
  commit now batch hb := by
    by_cases hn : batch = []
    · subst hn
      exact ⟨d, rfl, by simp [lastUnder]⟩
    · have hkept := ((f.kept_held d).live f.lifetime now).putAll hb
      obtain ⟨d', hw, hu', ht', hheld⟩ := exists_held_of_update hu ht batch.length
        (fun es => (es.live f.lifetime now).putAll batch) hkept
      refine ⟨d', (f.commit_eq now hn d).trans hw, fun later key e hlast he => ?_⟩
      rw [get_of_usable hu' ht', hheld, Entries.getLive?, Entries.get?_putAll, hlast]
      simp [he]
  clear := by
    obtain ⟨d', hw, hu', ht', hheld⟩ := exists_held_of_update hu ht 0
      (fun _ => .empty) Entries.kept_empty
    refine ⟨d', hw, fun later key => ?_⟩
    rw [get_of_usable hu' ht', hheld]
    rfl

/-- The file is there, and its content is no text. -/
def IsGarbled (f : FileStore) (d : Disk) : Prop :=
  ∃ content, d.at? f.route = .ok (.file content) ∧ ¬content.IsValidUTF8

theorem IsGarbled.of_sameFile (h : f.IsGarbled d) (hs : f.SameFile d d') : f.IsGarbled d' := by
  obtain ⟨content, hc, hn⟩ := h
  exact ⟨content, (hs content).mpr hc, hn⟩

theorem IsGarbled.entries_ne_ok (h : f.IsGarbled d) (es : Entries) : f.entries d ≠ .ok es := by
  obtain ⟨content, hc, hn⟩ := h
  obtain ⟨hs, p, hp, hnode⟩ := at?_eq_file_iff.mp hc
  have hnone : String.fromUTF8? content = none := by simp only [String.fromUTF8?, dif_neg hn]
  rw [entries_eq hs hp, hnode]
  simp only [hnone]
  split <;> simp

theorem IsGarbled.fetch (h : f.IsGarbled d) (now : Timestamp) (keys : List String) :
    ∃ e, f.fetch now keys d = .error e := by
  cases hes : f.entries d with
  | error fault => exact ⟨_, by simp only [FileStore.fetch, hes]; rfl⟩
  | ok es => exact absurd hes (h.entries_ne_ok es)

/-- No update gets past reading the file, which it leaves as it was. -/
theorem IsGarbled.update (h : f.IsGarbled d) (count : ℕ) (change : Entries → Entries) :
    ∃ e d', f.writeResult count (f.update change d) = (.error e, d') ∧ f.SameFile d d' := by
  cases hu : f.update change d with
  | mk outcome d' =>
    cases outcome with
    | error fault => exact ⟨_, d', rfl, sameFile_of_update_error hu⟩
    | ok _ =>
      -- It would have read the file while it held the lock, which does not touch the file.
      obtain ⟨d₁, es, o, hlock, hes, -⟩ := exists_of_update hu
      exact absurd hes ((h.of_sameFile (sameFile_of_lock hlock)).entries_ne_ok es)

/-- Only a commit of nothing succeeds, and the file is left as it was. -/
theorem IsGarbled.perform (h : f.IsGarbled d) (c : TimedCall) :
    ((fileStore f).perform c d).1.isOk = decide (c.call = .commit []) ∧
      f.SameFile d ((fileStore f).perform c d).2 := by
  obtain ⟨now, call⟩ := c
  cases call with
  | get key =>
    obtain ⟨e, he⟩ := h.fetch now [key]
    simp only [Store.perform, fileStore, FileStore.get, he]
    exact ⟨rfl, SameFile.refl f d⟩
  | getMany keys =>
    obtain ⟨e, he⟩ := h.fetch now keys
    simp only [Store.perform, fileStore, he]
    exact ⟨rfl, SameFile.refl f d⟩
  | commit batch =>
    by_cases hn : batch = []
    · subst hn
      exact ⟨rfl, SameFile.refl f d⟩
    · obtain ⟨e, d', hw, hs⟩ := h.update batch.length
        fun es => (es.live f.lifetime now).putAll batch
      simp only [Store.perform, fileStore, f.commit_eq now hn d, hw, StoreCall.commit.injEq, hn,
        decide_false]
      exact ⟨rfl, hs⟩
  | clear =>
    obtain ⟨e, d', hw, hs⟩ := h.update 0 fun _ => .empty
    simp only [Store.perform, fileStore, FileStore.clear, hw]
    exact ⟨rfl, hs⟩

/-- However often it is tried, nothing is read, written or cleared. -/
theorem IsGarbled.replies (h : f.IsGarbled d) (calls : List TimedCall) :
    ((fileStore f).replies calls d).map (·.isOk) =
        calls.map (fun c => decide (c.call = .commit [])) ∧
      f.SameFile d ((fileStore f).stateAfter calls d) := by
  induction calls generalizing d with
  | nil => exact ⟨rfl, SameFile.refl f d⟩
  | cons c calls ih =>
    obtain ⟨hok, hs⟩ := h.perform c
    obtain ⟨hreplies, hafter⟩ := ih (h.of_sameFile hs)
    refine ⟨?_, hs.trans hafter⟩
    rw [Store.replies, List.map_cons, List.map_cons, hok, hreplies]

/-- Where nothing stands in the way a store recovers from what is in its file exactly if that is text.
Otherwise every call fails but a commit of nothing, clearing too, and the file stays as it is. -/
theorem recovers_iff_text (hu : f.Usable d) (hc : d.at? f.route = .ok (.file content)) :
    (f.Recovers d ↔ content.IsValidUTF8) ∧
    (¬content.IsValidUTF8 → ∀ calls,
      ((fileStore f).replies calls d).map (·.isOk) =
        calls.map (fun c => decide (c.call = .commit [])) ∧
      ((fileStore f).stateAfter calls d).at? f.route = .ok (.file content)) := by
  refine ⟨⟨fun h => ?_, fun h => recovers_of_hasText hu ((hasText_iff hc).mpr h)⟩, fun hn calls => ?_⟩
  · by_contra hn
    obtain ⟨es, hes⟩ := h.fetch Entry.blank.createdAt []
    obtain ⟨e, he⟩ := IsGarbled.fetch ⟨content, hc, hn⟩ Entry.blank.createdAt []
    rw [he] at hes
    cases hes
  · obtain ⟨hreplies, hs⟩ := IsGarbled.replies ⟨content, hc, hn⟩ calls
    exact ⟨hreplies, (hs content).mpr hc⟩

/-- A document that was cut off behind a key, and one that was cut off within a letter. -/
theorem recovers_iff_text_cut_off :
    let f : FileStore := ⟨"/c", .ofHours 12⟩
    let text : String := "\x7b\"entries\":\x7b\"k\""
    let half : ByteArray := ⟨#[123, 34, 195]⟩
    let d (content : ByteArray) : Disk := { Disk.empty with nodes := [(["c"], .file content)] }
    let now : Timestamp := ⟨⟨2020, 1, 1⟩, 0, 0⟩
    let calls : List TimedCall := [⟨now, .getMany ["k"]⟩, ⟨now, .commit []⟩,
      ⟨now, .commit [("k", ⟨"v", now⟩)]⟩, ⟨now, .clear⟩, ⟨now, .get "k"⟩]
    (f.Usable (d text.toUTF8) ∧ (d text.toUTF8).at? f.route = .ok (.file text.toUTF8) ∧
      f.Recovers (d text.toUTF8)) ∧
    f.Usable (d half) ∧ (d half).at? f.route = .ok (.file half) ∧ ¬half.IsValidUTF8 ∧
      ((fileStore f).replies calls (d half)).map (·.isOk) = [false, true, false, false, false] := by
  intro f text half d now calls
  have hu : f.Usable (d text.toUTF8) := by decide +kernel
  have hc : (d text.toUTF8).at? f.route = .ok (.file text.toUTF8) := by decide +kernel
  have hu' : f.Usable (d half) := by decide +kernel
  have hc' : (d half).at? f.route = .ok (.file half) := by decide +kernel
  have hn : ¬half.IsValidUTF8 := by decide +kernel
  refine ⟨⟨hu, hc, (recovers_iff_text hu hc).1.mpr text.isValidUTF8⟩, hu', hc', hn, ?_⟩
  rw [((recovers_iff_text hu' hc').2 hn calls).1]
  rfl

/-- A document that was cut off within a letter of two bytes: it cannot be read, written or cleared,
though nothing else stands in the way. -/
theorem not_recovers_from_half_letter :
    let f : FileStore := ⟨"/c", .ofHours 12⟩
    let content : ByteArray := ⟨#[123, 34, 195]⟩
    let d : Disk := { Disk.empty with nodes := [(["c"], .file content)] }
    let now : Timestamp := ⟨⟨2020, 1, 1⟩, 0, 0⟩
    f.Usable d ∧ d.at? f.route = .ok (.file content) ∧ ¬f.Recovers d ∧
      f.fetch now ["k"] d = .error (.read "/c" DiskFault.notText.message) ∧
      (f.commit now [("k", ⟨"v", now⟩)] d).1 = .error (.write "/c" 1 DiskFault.notText.message) ∧
      (f.clear d).1 = .error (.write "/c" 0 DiskFault.notText.message) := by
  intro f content d now
  have hfetch : f.fetch now ["k"] d = .error (.read "/c" DiskFault.notText.message) := by
    decide +kernel
  refine ⟨by decide +kernel, by decide +kernel, fun h => ?_, hfetch, by decide +kernel,
    by decide +kernel⟩
  obtain ⟨es, hes⟩ := h.fetch now ["k"]
  rw [hfetch] at hes
  cases hes

end FileStore
end DependencyAudit
