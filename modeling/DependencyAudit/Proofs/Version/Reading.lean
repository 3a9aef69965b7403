import DependencyAudit.Proofs.Version.Identifiers
import DependencyAudit.Proofs.Version.Neighbours

/-! What reading a version gives: a version whose identifiers are well formed, from a text that
starts with a digit or a wildcard. -/
namespace DependencyAudit

namespace Version

theorem isValid_of_marked? {cs : Option (List Char)} {is : List Identifier}
    (h : marked? cs = some is) : ∀ i ∈ is, i.isValid = true := by
  cases cs with
  | none =>
    cases h
    simp
  | some cs =>
    simp only [marked?] at h
    split at h
    · rename_i hv
      cases h
      exact List.all_eq_true.mp hv
    · cases h

theorem isSemver_of_strict? {cs : List Char} {v : Version} (h : strict? cs = some v) :
    v.IsSemver := by
  simp only [strict?, Option.bind_eq_bind, Option.bind_eq_some_iff] at h
  obtain ⟨⟨major, minor, patch⟩, -, pre, hpre, build, hbuild, h⟩ := h
  split at h
  · cases h
  · rename_i hz
    cases h
    simp only [List.any_eq_true, not_exists, not_and, Bool.not_eq_true] at hz
    exact ⟨fun i hi => ⟨isValid_of_marked? hpre i hi, hz i hi⟩, isValid_of_marked? hbuild⟩

theorem isSemver_release (major minor patch : ℕ) : (release major minor patch).IsSemver where
  pre i hi := by cases hi
  build i hi := by cases hi

theorem isSemver_ofNumbers {numbers : List ℕ} {pre build : List Identifier}
    (hpre : ∀ i ∈ pre, i.isValid = true ∧ i.hasLeadingZero = false)
    (hbuild : ∀ i ∈ build, i.isValid = true) : (ofNumbers numbers pre build).IsSemver :=
  ⟨hpre, hbuild⟩

/-- Numbers are found, or else that is what is wrong with the text. -/
theorem within_ofNumbers {largest : ℕ} {numbers : List ℕ} (h : ∀ n ∈ numbers, n ≤ largest)
    (pre build : List Identifier) : (ofNumbers numbers pre build).Within largest := by
  have hle (i : ℕ) : numbers.getD i 0 ≤ largest := by
    rw [List.getD_eq_getElem?_getD]
    cases hn : numbers[i]? with
    | none => exact Nat.zero_le _
    | some n => exact h n (List.mem_of_getElem? hn)
  exact ⟨hle 0, hle 1, hle 2⟩

theorem exists_scan_or_error (cs : List Char) :
    (∃ numbers ending, scan (Text.pieces (· == '.') cs) = .ok (numbers, ending) ∧ numbers ≠ []) ∨
      loose cs = .error .noNumber ∨
      ∃ fault, scan (Text.pieces (· == '.') cs) = .error fault ∧ loose cs = .error fault := by
  cases hscan : scan (Text.pieces (· == '.') cs) with
  | error fault =>
    refine Or.inr (Or.inr ⟨fault, rfl, ?_⟩)
    simp only [loose, hscan, bind, Except.bind]
  | ok found =>
    obtain ⟨numbers, ending⟩ := found
    by_cases hn : numbers = []
    · refine Or.inr (Or.inl ?_)
      simp only [loose, hscan, bind, Except.bind, hn, List.isEmpty_nil, if_true, throw, throwThe,
        MonadExceptOf.throw]
    · exact Or.inl ⟨numbers, ending, rfl, hn⟩

/-- A loosely written version has numbers, of which three count, and then identifiers. -/
theorem exists_of_loose {cs : List Char} {w : WrittenVersion} (h : loose cs = .ok w) :
    ∃ numbers ending, scan (Text.pieces (· == '.') cs) = .ok (numbers, ending) ∧ numbers ≠ [] ∧
      w.given = min numbers.length 3 ∧ w.version.IsSemver := by
  rcases exists_scan_or_error cs with ⟨numbers, ending, hscan, hn⟩ | herror | ⟨fault, -, herror⟩
  rotate_left
  · rw [h] at herror
    cases herror
  · rw [h] at herror
    cases herror
  have hextra : ∀ i ∈ extraNumbers numbers, i.isValid = true := fun i => isValid_of_extraNumbers
  refine ⟨numbers, ending, hscan, hn, ?_⟩
  rw [loose_of_scan hscan hn] at h
  rcases ending with _ | _ | ⟨_ | _, q⟩
  · cases h
    exact ⟨rfl, isSemver_ofNumbers nofun hextra⟩
  · cases h
    exact ⟨rfl, isSemver_ofNumbers nofun nofun⟩
  · cases h
    refine ⟨rfl, isSemver_ofNumbers nofun fun i hi => ?_⟩
    exact (List.mem_append.mp hi).elim (hextra i) isValid_of_sanitize
  · simp only at h
    split at h
    · cases h
    · rename_i hz
      cases h
      refine ⟨rfl, isSemver_ofNumbers (fun i hi => ⟨isValid_of_sanitize hi, ?_⟩) hextra⟩
      simpa using fun hl => hz (List.any_eq_true.mpr ⟨i, hi, hl⟩)

def StartsWithDigit (cs : List Char) : Prop := ∃ c rest, cs = c :: rest ∧ c.isDigit = true

theorem StartsWithDigit.append {cs : List Char} (h : StartsWithDigit cs) (more : List Char) :
    StartsWithDigit (cs ++ more) := by
  obtain ⟨c, rest, rfl, hc⟩ := h
  exact ⟨c, rest ++ more, rfl, hc⟩

theorem StartsWithDigit.joinWith {w : List Char} (h : StartsWithDigit w) (ws : List (List Char)) :
    StartsWithDigit (Text.joinWith '.' (w :: ws)) := by
  cases ws with
  | nil => exact h
  | cons v vs => exact h.append _

theorem startsWithDigit_of_takeWhile {cs : List Char} (h : cs.takeWhile Char.isDigit ≠ []) :
    StartsWithDigit cs := by
  cases cs with
  | nil => exact absurd rfl h
  | cons c cs =>
    refine ⟨c, cs, rfl, ?_⟩
    by_contra hc
    exact h (List.takeWhile_cons_of_neg hc)

/-- Where numbers are found, the text starts with the first of them. -/
theorem startsWithDigit_of_scan {segment : List Char} {rest : List (List Char)} {numbers : List ℕ}
    {ending : Ending} (h : scan (segment :: rest) = .ok (numbers, ending)) (hn : numbers ≠ []) :
    StartsWithDigit segment := by
  simp only [scan] at h
  split at h
  · cases h
    exact absurd rfl hn
  · split at h
    · cases h
      exact absurd rfl hn
    · rename_i hd
      exact startsWithDigit_of_takeWhile (by simpa using hd)

theorem exists_upTo_append (mark : Char) (cs : List Char) :
    ∃ rest, cs = (upTo mark cs).1 ++ rest := by
  simp only [upTo]
  split
  · rename_i a b h
    exact ⟨mark :: b, (Text.eq_of_splitOnce? h).1⟩
  · exact ⟨[], (List.append_nil cs).symm⟩

theorem startsWithDigit_of_strictNumber? {cs : List Char} {n : ℕ}
    (h : strictNumber? cs = some n) : StartsWithDigit cs := by
  cases cs with
  | nil => cases h
  | cons c cs =>
    refine ⟨c, cs, rfl, ?_⟩
    by_contra hc
    simp [strictNumber?, hc] at h

theorem startsWithDigit_of_strictNumbers? {cs : List Char} {ns : ℕ × ℕ × ℕ}
    (h : strictNumbers? cs = some ns) : StartsWithDigit cs := by
  simp only [strictNumbers?] at h
  split at h
  · rename_i a b c hp
    simp only [Option.bind_eq_bind, Option.bind_eq_some_iff] at h
    obtain ⟨n, ha, -⟩ := h
    have hd := (startsWithDigit_of_strictNumber? ha).joinWith [b, c]
    rwa [← hp, Text.joinWith_pieces] at hd
  · cases h

theorem startsWithDigit_of_strict? {cs : List Char} {v : Version} (h : strict? cs = some v) :
    StartsWithDigit cs := by
  simp only [strict?, Option.bind_eq_bind, Option.bind_eq_some_iff] at h
  obtain ⟨ns, hns, -⟩ := h
  obtain ⟨build, hbuild⟩ := exists_upTo_append '+' cs
  obtain ⟨pre, hpre⟩ := exists_upTo_append '-' (upTo '+' cs).1
  have hd := (startsWithDigit_of_strictNumbers? hns).append pre
  rw [← hpre] at hd
  rw [hbuild]
  exact hd.append build

theorem startsWithDigit_of_loose {cs : List Char} {w : WrittenVersion} (h : loose cs = .ok w) :
    StartsWithDigit cs := by
  obtain ⟨numbers, ending, hscan, hn, -⟩ := exists_of_loose h
  obtain ⟨segment, rest, hp⟩ := List.exists_cons_of_ne_nil (Text.pieces_ne_nil (· == '.') cs)
  rw [hp] at hscan
  have hd := (startsWithDigit_of_scan hscan hn).joinWith rest
  rwa [← hp, Text.joinWith_pieces] at hd

end Version

namespace WrittenVersion

/-- The three ways to write a version: a wildcard alone, strictly, and loosely. -/
theorem cases_of_ofChars {raw : List Char} {w : WrittenVersion} (h : ofChars raw = .ok w) :
    let cs := (Text.trim raw).dropWhile isVersionMark
    (Version.isWildcard cs = true ∧ w = ⟨.release 0 0 0, 0, true⟩) ∨
      (∃ v, Version.strict? cs = some v ∧ w = ⟨v, 3, false⟩) ∨ Version.loose cs = .ok w := by
  intro cs
  simp only [ofChars] at h
  split at h
  · cases h
  · split at h
    · rename_i hw
      cases h
      exact Or.inl ⟨hw, rfl⟩
    · split at h
      · rename_i v hv
        cases h
        exact Or.inr (Or.inl ⟨v, hv, rfl⟩)
      · exact Or.inr (Or.inr h)

theorem isSemver_of_ofChars {raw : List Char} {w : WrittenVersion} (h : ofChars raw = .ok w) :
    w.version.IsSemver := by
  rcases cases_of_ofChars h with ⟨-, rfl⟩ | ⟨v, hv, rfl⟩ | h
  · exact Version.isSemver_release 0 0 0
  · exact Version.isSemver_of_strict? hv
  · obtain ⟨-, -, -, -, -, hs⟩ := Version.exists_of_loose h
    exact hs

/-- Whether a version can start with the character. -/
def isInitial (c : Char) : Bool := isVersionMark c || c.isDigit || Version.isWildcard [c]

/-- A text that is a version starts, blanks aside, as a version can. -/
theorem exists_initial_of_trim {raw : List Char} {w : WrittenVersion} (h : ofChars raw = .ok w) :
    ∃ c rest, Text.trim raw = c :: rest ∧ isInitial c = true := by
  have hcases := cases_of_ofChars h
  cases hraw : Text.trim raw with
  | nil => simp [ofChars, hraw] at h
  | cons c rest =>
    refine ⟨c, rest, rfl, ?_⟩
    rw [hraw] at hcases
    by_cases hc : isVersionMark c = true
    · simp [isInitial, hc]
    · rw [List.dropWhile_cons_of_neg hc] at hcases
      have hdigit (hd : Version.StartsWithDigit (c :: rest)) : isInitial c = true := by
        obtain ⟨d, t, he, hd⟩ := hd
        cases he
        simp [isInitial, hd]
      rcases hcases with ⟨hw, -⟩ | ⟨v, hv, -⟩ | hl
      · obtain rfl : rest = [] := by
          simp only [Version.isWildcard, Bool.or_eq_true, beq_iff_eq, List.cons.injEq] at hw
          grind
        simp [isInitial, hw]
      · exact hdigit (Version.startsWithDigit_of_strict? hv)
      · exact hdigit (Version.startsWithDigit_of_loose hl)

theorem ofChars_trim (raw : List Char) : ofChars (Text.trim raw) = ofChars raw := by
  rw [ofChars, Text.trim_trim, ofChars]

theorem exists_initial_of_ofChars {raw : List Char} {w : WrittenVersion}
    (hb : ∀ c ∈ raw, Text.isBlank c = false) (h : ofChars raw = .ok w) :
    ∃ c rest, raw = c :: rest ∧ isInitial c = true := by
  have hinitial := exists_initial_of_trim h
  rwa [Text.trim_of_not_blank hb] at hinitial

/-- Only a wildcard that stands alone has no number. -/
theorem eq_or_given_pos {raw : List Char} {w : WrittenVersion} (h : ofChars raw = .ok w) :
    w = ⟨.release 0 0 0, 0, true⟩ ∨ 1 ≤ w.given := by
  rcases cases_of_ofChars h with ⟨-, rfl⟩ | ⟨v, -, rfl⟩ | hl
  · exact Or.inl rfl
  · exact Or.inr (by decide : 1 ≤ 3)
  · obtain ⟨numbers, -, -, hn, hgiven, -⟩ := Version.exists_of_loose hl
    have hlength := List.length_pos_iff.mpr hn
    exact Or.inr (by omega)

end WrittenVersion
end DependencyAudit
