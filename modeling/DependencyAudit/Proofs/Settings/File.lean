import DependencyAudit.Proofs.Cache.FileView
import DependencyAudit.Proofs.Settings.Text
import DependencyAudit.Settings.File

/-! Settings are loaded from the file in which they were saved. -/
namespace DependencyAudit

namespace Disk

variable {d d' : Disk} {r : Route} {text : String}

/-- A text that was written is there and is read. -/
theorem readText_of_writeText (h : d.writeText r text = .ok d') (hp : d'.Permits [.read] r) :
    d'.holds r = true ∧ d'.readText r = .ok text := by
  obtain ⟨p, hplace, hnode, rfl⟩ := exists_of_write h
  have hat : (d.put p (.file text.toUTF8)).at? r = .ok (.file text.toUTF8) :=
    at?_eq_file_iff.mpr ⟨hp.slash, p, (SameSetting.put_file hnode _).place_iff.mpr hplace,
      node?_put _ _ (ne_nil_of_node? hnode)⟩
  refine ⟨?_, readText_of_at? hat hp⟩
  rw [holds, hat]
  rfl

end Disk

theorem Directories.cacheFile_ne (dirs : Directories) : dirs.cacheFile ≠ "" := by
  have hjoin (directory : String) : join directory "audit-cache.json" ≠ "" := by
    unfold join
    split <;> simp
  exact hjoin _

namespace Settings

/-- The settings that are loaded after some were saved. -/
def reloaded (dirs : Directories) (s : Settings) : Settings :=
  { s with cacheFile := s.cacheFile <|> some dirs.cacheFile }

theorem ofText_default {s : Settings} (h : s.Writable) (dirs : Directories) :
    ∃ text, s.text? = some text ∧ (Settings.default dirs).ofText text = some (s.reloaded dirs) := by
  obtain ⟨text, htext, hread⟩ := ofText_text h (Settings.default dirs)
  refine ⟨text, htext, hread.trans ?_⟩
  have hcredentials : (s.credentials <|> (Settings.default dirs).credentials) = s.credentials := by
    cases s.credentials <;> rfl
  rw [hcredentials]
  rfl

variable {dirs : Directories} {s : Settings} {d d' : Disk}

theorem load_of_writeText {text : String} (h : (Settings.default dirs).ofText text = some s)
    (hwrite : d.writeText (.ofText dirs.settingsFile) text = .ok d')
    (hp : d'.Permits [.read] (.ofText dirs.settingsFile)) : load dirs d' = .ok s := by
  obtain ⟨hholds, hread⟩ := Disk.readText_of_writeText hwrite hp
  simp only [load, loadOrDefault, hholds, if_true, loadFrom, hread, h]

/-- A save makes the directory, if need be, and then writes the text. -/
theorem exists_of_save {text : String} (htext : s.text? = some text)
    (h : s.save dirs d = (.ok (), d')) :
    ∃ made, makeDirectory (.ofText dirs.settingsFile) d = (.ok (), made) ∧
      made.writeText (.ofText dirs.settingsFile) text = .ok d' := by
  unfold save at h
  generalize Route.ofText dirs.settingsFile = r at h ⊢
  simp only [htext] at h
  split at h
  · cases h
  · rename_i made hmake
    split at h
    · cases h
    · rename_i hwrite
      cases h
      exact ⟨made, hmake, hwrite⟩

/-- What was saved is loaded, but for a cache file that is not there. -/
theorem load_of_save (hs : s.Writable) (h : s.save dirs d = (.ok (), d'))
    (hp : d'.Permits [.read] (.ofText dirs.settingsFile)) : load dirs d' = .ok (s.reloaded dirs) := by
  obtain ⟨text, htext, hread⟩ := ofText_default hs dirs
  obtain ⟨made, -, hwrite⟩ := exists_of_save htext h
  exact load_of_writeText hread hwrite hp

/-- Settings are saved where their directory can be made and their file be written. -/
theorem exists_save (hs : s.Writable) {made : Disk}
    (hmake : makeDirectory (.ofText dirs.settingsFile) d = (.ok (), made))
    (hp : made.Permits [.write] (.ofText dirs.settingsFile)) :
    ∃ d', s.save dirs d = (.ok (), d') ∧ Disk.SameSetting made d' := by
  obtain ⟨text, htext, -⟩ := ofText_default hs dirs
  unfold save
  generalize Route.ofText dirs.settingsFile = r at hmake hp ⊢
  obtain ⟨d', hwrite⟩ := Disk.exists_write hp text.toUTF8
  obtain ⟨p, -, hnode, rfl⟩ := Disk.exists_of_write hwrite
  refine ⟨_, ?_, Disk.SameSetting.put_file hnode text.toUTF8⟩
  simp only [hmake, htext, Disk.writeText, hwrite]

theorem reloaded_eq_iff (dirs : Directories) (s : Settings) :
    s.reloaded dirs = s ↔ s.cacheFile ≠ none := by
  cases s with
  | mk cacheFile =>
    cases cacheFile <;> simp [reloaded]

theorem cacheLocation_reloaded_eq_iff (dirs : Directories) (s : Settings) :
    (s.reloaded dirs).cacheLocation = s.cacheLocation ↔ s.cacheFile ≠ none := by
  have hne := dirs.cacheFile_ne
  cases hfile : s.cacheFile with
  | none => simp [cacheLocation, reloaded, hfile, hne]
  | some path => simp [cacheLocation, reloaded, hfile]

/-- Settings that are saved and loaded again are the same in every field, except that a cache which is
switched off by naming no file is in use again, in the default file. -/
theorem load_save (hs : s.Writable) (dirs : Directories) (d : Disk) :
    let file := Route.ofText dirs.settingsFile
    (∀ d', s.save dirs d = (.ok (), d') → d'.Permits [.read] file →
      load dirs d' = .ok (s.reloaded dirs)) ∧
    (∀ made, makeDirectory file d = (.ok (), made) → made.Permits [.read, .write] file →
      ∃ d', s.save dirs d = (.ok (), d') ∧ load dirs d' = .ok (s.reloaded dirs)) ∧
    (s.reloaded dirs = s ↔ s.cacheFile ≠ none) ∧
    ((s.reloaded dirs).cacheLocation = s.cacheLocation ↔ s.cacheFile ≠ none) := by
  intro file
  refine ⟨fun d' h hp => load_of_save hs h hp, fun made hmake hp => ?_, reloaded_eq_iff dirs s,
    cacheLocation_reloaded_eq_iff dirs s⟩
  obtain ⟨d', hsave, hsame⟩ := exists_save hs hmake (hp.mono (by simp))
  exact ⟨d', hsave, load_of_save hs hsave ((hp.mono (by simp)).of_sameSetting hsame)⟩

/-- A cache that is switched off by an empty path stays so. -/
theorem load_save_empty_path :
    let dirs : Directories := ⟨"/s", "/c"⟩
    let s : Settings := ⟨some "", 9223372036854775807, 0, "http://\"audit\"\n", false, ["org:*"],
      some ⟨"me", "t"⟩, [⟨none, ["org:app", "org:lib:2"]⟩, ⟨some "X-1", []⟩]⟩
    s.Writable ∧ s.cacheLocation = none ∧
      ∃ d', s.save dirs .empty = (.ok (), d') ∧ load dirs d' = .ok s := by
  intro dirs s
  have hs : s.Writable := ⟨by decide, by decide⟩
  have hmake : makeDirectory (.ofText dirs.settingsFile) .empty =
      (.ok (), ⟨[(["s", "ossaudit"], .directory), (["s"], .directory)], [], [], []⟩) := by
    decide +kernel
  obtain ⟨-, hsave, hsame, -⟩ := load_save hs dirs .empty
  obtain ⟨d', hd', hload⟩ := hsave _ hmake (by decide +kernel)
  rw [hsame.mpr (by decide)] at hload
  exact ⟨hs, by decide, d', hd', hload⟩

/-- A cache that is switched off by naming no file is in use again. -/
theorem load_save_switches_cache_on :
    let dirs : Directories := ⟨"/s", "/c"⟩
    let s : Settings := { Settings.default dirs with cacheFile := none }
    s.Writable ∧ s.cacheLocation = none ∧ ∃ d' s', s.save dirs .empty = (.ok (), d') ∧
      load dirs d' = .ok s' ∧ s' ≠ s ∧ s'.cacheLocation = some "/c/ossaudit/audit-cache.json" := by
  intro dirs s
  have hs : s.Writable := ⟨by decide, by decide⟩
  have hmake : makeDirectory (.ofText dirs.settingsFile) .empty =
      (.ok (), ⟨[(["s", "ossaudit"], .directory), (["s"], .directory)], [], [], []⟩) := by
    decide +kernel
  obtain ⟨d', hsave, hmade⟩ := exists_save hs hmake (by decide +kernel)
  have hp : Disk.Permits ⟨[(["s", "ossaudit"], .directory), (["s"], .directory)], [], [], []⟩ [.read]
      (.ofText dirs.settingsFile) := by
    decide +kernel
  exact ⟨hs, rfl, d', s.reloaded dirs, hsave, load_of_save hs hsave (hp.of_sameSetting hmade),
    by decide, by decide +kernel⟩

end Settings
end DependencyAudit
