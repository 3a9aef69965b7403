import DependencyAudit.Proofs.Version.Scanning

/-! A free-form qualifier becomes identifiers that build metadata always accepts. A pre-release accepts them
too, but for a number with a needless zero in front, and no version is refused for another one of its parts. -/
namespace DependencyAudit

namespace Version

open Text

variable {cs : List Char} {fault : IdentifierFault} {text : String}

/-- No number is refused but for its size. -/
theorem tooLarge_of_scan {segments : List (List Char)} {fault : VersionFault}
    (h : scan segments = .error fault) : ∃ segment, fault = .tooLarge segment := by
  induction segments with
  | nil => cases h
  | cons segment rest ih =>
    rcases scan_cases segment rest with ⟨-, hscan⟩ | ⟨-, hscan⟩ | ⟨-, hscan⟩ | ⟨-, hscan⟩ |
      ⟨_, _, _, -, -, hscan⟩
    all_goals rw [hscan] at h
    · cases h
    · cases h
    · cases h
      exact ⟨_, rfl⟩
    · cases hrest : scan rest <;> rw [hrest] at h <;> cases h
      exact ih hrest
    · cases h

theorem identifiers_sanitize (q : List Char) :
    dotted (sanitize q) = [] ∨ identifiers (dotted (sanitize q)) = sanitize q := by
  by_cases hq : sanitize q = []
  · rw [hq]
    exact Or.inl rfl
  · exact Or.inr (identifiers_dotted (fun i => isValid_of_sanitize) hq)

/-- What a pre-release finds wrong with a qualifier. -/
theorem leadingZero_of_preRelease {q : List Char}
    (h : VersionPart.preRelease.ofChars (dotted (sanitize q)) = .error fault) :
    fault = .leadingZero ∧ ∃ i ∈ identifiers (dotted (sanitize q)), i.hasLeadingZero = true := by
  rw [VersionPart.ofChars_dotted fun i => isValid_of_sanitize] at h
  split at h
  · rename_i hzero
    cases h
    obtain ⟨i, hi, hzero⟩ := List.any_eq_true.mp hzero.2
    have hne : sanitize q ≠ [] := List.ne_nil_of_mem hi
    rw [identifiers_dotted (fun i => isValid_of_sanitize) hne]
    exact ⟨rfl, i, hi, hzero⟩
  · cases h

/-- The parts of a version are the only texts that are refused for their identifiers, and of these only a
pre-release is. -/
theorem exists_of_loose_error {part : VersionPart}
    (h : loose cs = .error (.identifiers part text fault)) :
    ∃ q, part = .preRelease ∧ text = String.ofList (dotted (sanitize q)) ∧
      VersionPart.preRelease.ofChars (dotted (sanitize q)) = .error fault := by
  rcases exists_scan_or_error cs with ⟨numbers, ending, hscan, hn⟩ | herror | ⟨_, hscan, herror⟩
  · rw [loose_of_scan hscan hn] at h
    rcases ending with _ | _ | ⟨_ | _, q⟩
    · cases h
    · cases h
    · cases h
    · simp only at h
      split at h
      · rename_i hzero
        cases h
        refine ⟨q, rfl, rfl, ?_⟩
        rw [VersionPart.ofChars_dotted fun i => isValid_of_sanitize, if_pos ⟨rfl, hzero⟩]
      · cases h
  · rw [h] at herror
    cases herror
  · obtain ⟨segment, rfl⟩ := tooLarge_of_scan hscan
    rw [h] at herror
    cases herror

end Version

namespace WrittenVersion

/-- What is wrong with a text is that it is empty, or what is wrong with it when it is read loosely. -/
theorem cases_of_ofChars_error {raw : List Char} {fault : VersionFault}
    (h : ofChars raw = .error fault) :
    fault = .empty ∨ Version.loose ((Text.trim raw).dropWhile isVersionMark) = .error fault := by
  simp only [ofChars] at h
  split at h
  · cases h
    exact Or.inl rfl
  · split at h
    · cases h
    · split at h
      · cases h
      · exact Or.inr h

theorem exists_of_ofChars_error {raw : List Char} {part : VersionPart} {text : String}
    {fault : IdentifierFault} (h : ofChars raw = .error (.identifiers part text fault)) :
    ∃ q, part = .preRelease ∧ text = String.ofList (Version.dotted (Version.sanitize q)) ∧
      VersionPart.preRelease.ofChars (Version.dotted (Version.sanitize q)) = .error fault := by
  rcases cases_of_ofChars_error h with h | h
  · cases h
  · exact Version.exists_of_loose_error h

end WrittenVersion

namespace Version

/-- A qualifier becomes nothing, or identifiers with dots between them. Behind any numbers these are build
metadata, and they are a pre-release unless one of them is a number with a needless zero in front. So whatever
text is read, it is not refused for its build metadata, and for its pre-release only if that has such a
number. -/
theorem qualifiers_are_build (raw : List Char) :
    (∀ part cs ids, VersionPart.ofChars part cs = .ok ids ↔
      cs = dotted ids ∧ ∀ i ∈ ids, part.Admits i) ∧
    (∀ q, (dotted (sanitize q) = [] ∨
        ∀ i ∈ identifiers (dotted (sanitize q)), i.isValid = true) ∧
      (∀ numbers, ∃ ids, readPart .build (buildChars numbers (dotted (sanitize q))) = .ok ids) ∧
      ∀ fault, VersionPart.preRelease.ofChars (dotted (sanitize q)) = .error fault →
        fault = .leadingZero ∧
          ∃ i ∈ identifiers (dotted (sanitize q)), i.hasLeadingZero = true) ∧
    (∀ text fault, WrittenVersion.ofChars raw ≠ .error (.identifiers .build text fault)) ∧
    ∀ text fault, WrittenVersion.ofChars raw = .error (.identifiers .preRelease text fault) →
      fault = .leadingZero ∧ ∃ i ∈ identifiers text.toList, i.hasLeadingZero = true := by
  refine ⟨fun _ _ _ => VersionPart.ofChars_eq_ok_iff, fun q => ⟨?_, fun numbers => ?_, fun fault h => ?_⟩,
    fun text fault h => ?_, fun text fault h => ?_⟩
  · refine (identifiers_sanitize q).imp_right fun hq i hi => ?_
    rw [hq] at hi
    exact isValid_of_sanitize hi
  · exact ⟨_, readPart_build numbers fun i => isValid_of_sanitize⟩
  · exact leadingZero_of_preRelease h
  · obtain ⟨q, hpart, -⟩ := WrittenVersion.exists_of_ofChars_error h
    cases hpart
  · obtain ⟨q, -, rfl, hread⟩ := WrittenVersion.exists_of_ofChars_error h
    rw [String.toList_ofList]
    exact leadingZero_of_preRelease hread

/-- Foreign characters and empty parts are build metadata; behind a hyphen a padded number is refused. -/
theorem qualifiers_are_build_odd :
    let raw := "1.2-β.01".toList
    dotted (sanitize "..β_x..+01".toList) = "--x.-01".toList ∧
      readPart .build (buildChars [1, 2, 3, 4] (dotted (sanitize "..β_x..+01".toList))) =
        .ok [⟨"4".toList⟩, ⟨"--x".toList⟩, ⟨"-01".toList⟩] ∧
      WrittenVersion.ofChars raw = .error (.identifiers .preRelease "-.01" .leadingZero) ∧
      ∃ i ∈ identifiers "-.01".toList, i.hasLeadingZero = true := by
  intro raw
  obtain ⟨-, -, -, hpre⟩ := qualifiers_are_build raw
  have hraw : WrittenVersion.ofChars raw = .error (.identifiers .preRelease "-.01" .leadingZero) := by
    decide
  exact ⟨by decide, by decide, hraw, (hpre _ _ hraw).2⟩

end Version
end DependencyAudit
