import DependencyAudit.Proofs.Version.Printing

/-! However a version is spelled, it has one normal text, and reading that gives the version again: the
numbers that are read fit, the identifiers are well formed, and nothing else is asked of a version. -/
namespace DependencyAudit

namespace Version

open Text

variable {v : Version} {cs : List Char}

/-- No number is found that is too large. -/
theorem lt_of_scan {segments : List (List Char)} {numbers : List ℕ} {ending : Ending}
    (h : scan segments = .ok (numbers, ending)) : ∀ n ∈ numbers, n < numberLimit := by
  induction segments generalizing numbers with
  | nil =>
    cases h
    exact nofun
  | cons segment rest ih =>
    rcases scan_cases segment rest with ⟨-, hscan⟩ | ⟨-, hscan⟩ | ⟨-, hscan⟩ | ⟨hw, hscan⟩ |
      ⟨w, c, tail, -, hw, hscan⟩
    all_goals rw [hscan] at h
    · cases h
      exact nofun
    · cases h
      exact nofun
    · cases h
    · cases hrest : scan rest <;> rw [hrest] at h <;> cases h
      exact List.forall_mem_cons.mpr ⟨hw.lt, ih hrest⟩
    · cases h
      exact List.forall_mem_singleton.mpr hw.lt

/-- Whatever ends the numbers, the first three are the version's own. -/
theorem within_of_loose {w : WrittenVersion} (h : loose cs = .ok w) :
    w.version.Within (numberLimit - 1) := by
  obtain ⟨numbers, ending, hscan, hn, -⟩ := exists_of_loose h
  have hwithin := within_ofNumbers fun n hn => Nat.le_sub_one_of_lt (lt_of_scan hscan n hn)
  rw [loose_of_scan hscan hn] at h
  rcases ending with _ | _ | ⟨_ | _, q⟩
  · cases h
    exact hwithin _ _
  · cases h
    exact hwithin _ _
  · cases h
    exact hwithin _ _
  · simp only at h
    split at h <;> cases h
    exact hwithin _ _

theorem lt_of_strictNumber? {n : ℕ} (h : strictNumber? cs = some n) : n < numberLimit := by
  simp only [strictNumber?] at h
  split at h
  · cases h
  · exact (number?_eq_some_iff.mp h).2

theorem within_of_strict? (h : strict? cs = some v) : v.Within (numberLimit - 1) := by
  simp only [strict?, Option.bind_eq_bind, Option.bind_eq_some_iff] at h
  obtain ⟨⟨major, minor, patch⟩, hnumbers, pre, -, build, -, h⟩ := h
  simp only [strictNumbers?] at hnumbers
  split at hnumbers
  · simp only [Option.bind_eq_bind, Option.bind_eq_some_iff, Option.pure_def, Option.some.injEq,
      Prod.mk.injEq] at hnumbers
    obtain ⟨_, hmajor, _, hminor, _, hpatch, rfl, rfl, rfl⟩ := hnumbers
    split at h <;> cases h
    exact ⟨Nat.le_sub_one_of_lt (lt_of_strictNumber? hmajor),
      Nat.le_sub_one_of_lt (lt_of_strictNumber? hminor),
      Nat.le_sub_one_of_lt (lt_of_strictNumber? hpatch)⟩
  · cases hnumbers

end Version

/-- The numbers of every version that is read have 64 bits. -/
theorem WrittenVersion.within_of_ofChars {raw : List Char} {w : WrittenVersion}
    (h : ofChars raw = .ok w) : w.version.Within (Text.numberLimit - 1) := by
  rcases cases_of_ofChars h with ⟨-, rfl⟩ | ⟨v, hv, rfl⟩ | h
  · exact ⟨Nat.zero_le _, Nat.zero_le _, Nat.zero_le _⟩
  · exact Version.within_of_strict? hv
  · exact Version.within_of_loose h

namespace Version

open Text

variable {v : Version}

theorem exists_of_ofText {raw : String} (h : ofText raw = .ok v) :
    ∃ w, WrittenVersion.ofChars raw.toList = .ok w ∧ w.version = v := by
  simp only [ofText] at h
  split at h
  · cases h
  · rename_i w hw
    split at h <;> cases h
    exact ⟨w, hw, rfl⟩

theorem ofText_text (hv : v.IsSemver) (hw : v.Within (numberLimit - 1)) :
    ofText v.text = .ok v := by
  simp [ofText, text, ofChars_chars hv hw]

/-- Which versions can be read: those with numbers of 64 bits and identifiers that are well formed. -/
theorem exists_ofText_iff :
    (∃ raw, ofText raw = .ok v) ↔ v.IsSemver ∧ v.Within (numberLimit - 1) := by
  constructor
  · rintro ⟨raw, h⟩
    obtain ⟨w, hw, rfl⟩ := exists_of_ofText h
    exact ⟨WrittenVersion.isSemver_of_ofChars hw, WrittenVersion.within_of_ofChars hw⟩
  · rintro ⟨hv, hw⟩
    exact ⟨v.text, ofText_text hv hw⟩

/-- A version that is read from any text is read from its own text as well, and two spellings mean one
version exactly if that text is the same. -/
theorem normal_text_means_same {raw : String} (h : ofText raw = .ok v) :
    ofText v.text = .ok v ∧ ∀ raw' w, ofText raw' = .ok w → (w.text = v.text ↔ w = v) := by
  have hown (u : Version) (hu : ∃ raw, ofText raw = .ok u) : ofText u.text = .ok u := by
    obtain ⟨hsemver, hwithin⟩ := exists_ofText_iff.mp hu
    exact ofText_text hsemver hwithin
  refine ⟨hown v ⟨raw, h⟩, fun raw' w h' => ⟨fun htext => ?_, congrArg text⟩⟩
  have hread := hown w ⟨raw', h'⟩
  rw [htext, hown v ⟨raw, h⟩, Except.ok.injEq] at hread
  exact hread.symm

/-- Blanks and marks in front, a needless zero, a fourth number and foreign characters. -/
theorem normal_text_means_same_qualified :
    let v : Version := ⟨1, 2, 3, [⟨"rc-1".toList⟩, ⟨"--x".toList⟩], [⟨['4']⟩]⟩
    ofText " vV1.02.3.04-rc_1..β+x " = .ok v ∧ v.text = "1.2.3-rc-1.--x+4" ∧
      ofText "1.2.3-rc-1.--x+4" = .ok v := by
  intro v
  have hread : ofText " vV1.02.3.04-rc_1..β+x " = .ok v := by decide +kernel
  have htext : v.text = "1.2.3-rc-1.--x+4" := by decide +kernel
  exact ⟨hread, htext, htext ▸ (normal_text_means_same hread).1⟩

end Version
end DependencyAudit
