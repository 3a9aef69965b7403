import DependencyAudit.Proofs.Version.Scanning
import DependencyAudit.Range.Fault

/-! Which texts that start with a number can be read as a version: all of them, but for those with a
pre-release in which a number has a needless zero in front. -/
namespace DependencyAudit.Version

open Text

/-- The character of an identifier that is written for a character of a qualifier. -/
def cleaned (c : Char) : Char := if c.isAlphanum || c == '-' || c == '.' then c else '-'

theorem cleaned_eq_or (c : Char) :
    cleaned c = c ∨ cleaned c = '-' ∧ c.isDigit = false ∧ c ≠ '.' ∧ c ≠ '0' := by
  by_cases h : (c.isAlphanum || c == '-' || c == '.') = true
  · exact Or.inl (if_pos h)
  · refine Or.inr ⟨if_neg h, ?_⟩
    simp only [Char.isAlphanum, Bool.or_eq_true, beq_iff_eq, not_or, Bool.not_eq_true] at h
    refine ⟨h.1.1.2, h.2, ?_⟩
    rintro rfl
    exact absurd h.1.1.2 (by decide)

theorem sanitize_eq (q : List Char) : sanitize q =
    (words (· == '.') ((q.dropWhile isQualifierMark).map cleaned)).map .mk := rfl

theorem hasLeadingZero_map_cleaned (w : List Char) :
    (Identifier.mk (w.map cleaned)).hasLeadingZero = (Identifier.mk w).hasLeadingZero := by
  have hdigit : Char.isDigit ∘ cleaned = Char.isDigit := by
    funext c
    rcases cleaned_eq_or c with h | ⟨h, hc, -⟩
    · exact congrArg Char.isDigit h
    · simp [h, hc]
  have hzero : ((w.map cleaned).head? == some '0') = (w.head? == some '0') := by
    cases w with
    | nil => rfl
    | cons c w =>
      rcases cleaned_eq_or c with h | ⟨h, -, -, hc⟩
      · simp [h]
      · simp [h, hc]
  rw [Identifier.hasLeadingZero, Identifier.hasLeadingZero, Identifier.isNumeric,
    Identifier.isNumeric, List.all_map, hdigit, List.length_map, hzero]

/-- A qualifier has an identifier that is a number with a needless zero in front. -/
def IsPadded (q : List Char) : Prop :=
  ∃ w ∈ pieces (· == '.') (q.dropWhile isQualifierMark), (Identifier.mk w).hasLeadingZero = true

/-- Such a number is neither made nor unmade when foreign characters become hyphens. -/
theorem any_hasLeadingZero_sanitize (q : List Char) :
    (sanitize q).any (·.hasLeadingZero) = true ↔ IsPadded q := by
  have hsep : ∀ c, (cleaned c == '.') = (c == '.') := by
    intro c
    rcases cleaned_eq_or c with h | ⟨h, -, hc, -⟩
    · rw [h]
    · simp [h, hc]
  have hne : ∀ w : List Char, (Identifier.mk w).hasLeadingZero = true → w ≠ [] := by
    rintro w h rfl
    cases h
  rw [sanitize_eq, words, pieces_map hsep, IsPadded]
  simp only [List.any_map, List.any_eq_true, List.mem_filter, List.mem_map, Function.comp_apply]
  constructor
  · rintro ⟨_, ⟨⟨w, hw, rfl⟩, -⟩, hz⟩
    exact ⟨w, hw, by rwa [hasLeadingZero_map_cleaned] at hz⟩
  · rintro ⟨w, hw, hz⟩
    refine ⟨w.map cleaned, ⟨⟨w, hw, rfl⟩, by simpa using hne w hz⟩, ?_⟩
    rwa [hasLeadingZero_map_cleaned]

theorem loose_cases {cs : List Char} {numbers : List ℕ} {ending : Ending}
    (hscan : scan (pieces (· == '.') cs) = .ok (numbers, ending)) (hn : numbers ≠ [])
    (hending : ending ≠ .wildcard) :
    (∃ q, ending = .qualifier true q ∧ IsPadded q ∧
      loose cs = .error (.leadingZero (String.ofList (dotted (sanitize q))))) ∨
    ((∀ q, ending = .qualifier true q → ¬IsPadded q) ∧
      ∃ v, loose cs = .ok ⟨v, min numbers.length 3, false⟩) := by
  have hloose := loose_of_scan hscan hn
  rcases ending with _ | _ | ⟨_ | _, q⟩
  · exact Or.inr ⟨nofun, _, hloose⟩
  · exact absurd rfl hending
  · exact Or.inr ⟨nofun, _, hloose⟩
  · have hpadded := any_hasLeadingZero_sanitize q
    by_cases hz : (sanitize q).any (·.hasLeadingZero) = true
    · exact Or.inl ⟨q, rfl, hpadded.mp hz, hloose.trans (if_pos hz)⟩
    · refine Or.inr ⟨?_, _, hloose.trans (if_neg hz)⟩
      rintro _ ⟨⟩
      exact mt hpadded.mpr hz

/-- The text starts with a digit, none of its segments is a wildcard, and no digits in it make a
number that is too large. -/
structure IsNumeric (cs : List Char) : Prop where
  startsWithDigit : StartsWithDigit cs
  isWildcard : ∀ v ∈ pieces (· == '.') cs, isWildcard v = false
  lt : ∀ run, run <:+: cs → (∀ c ∈ run, c.isDigit = true) → value run < numberLimit

/-- A pre-release that no version has: its text is none of the strict grammar, and behind the numbers
and a hyphen there is a number with a needless zero in front. -/
def HasPaddedPreRelease (cs : List Char) : Prop :=
  strict? cs = none ∧ ∃ q, IsHyphenated cs q ∧ IsPadded q

/-- Nineteen digits never make a number that is too large. -/
theorem IsNumeric.of_length {cs : List Char} (hd : StartsWithDigit cs)
    (hwild : ∀ v ∈ pieces (· == '.') cs, Version.isWildcard v = false) (hlen : cs.length ≤ 19) :
    IsNumeric cs where
  startsWithDigit := hd
  isWildcard := hwild
  lt run hrun hdigits :=
    calc value run < 10 ^ run.length := value_lt hdigits
      _ ≤ 10 ^ 19 := Nat.pow_le_pow_right (by decide) (hrun.length_le.trans hlen)
      _ < numberLimit := by decide

theorem StartsWithDigit.of_pieces {cs segment : List Char} {rest : List (List Char)}
    (h : StartsWithDigit cs) (hp : pieces (· == '.') cs = segment :: rest) :
    StartsWithDigit segment := by
  obtain ⟨c, cs, rfl, hc⟩ := h
  have hdot : (c == '.') = false := by
    rw [beq_eq_false_iff_ne]
    rintro rfl
    cases hc
  obtain ⟨w, ws, hw⟩ := List.exists_cons_of_ne_nil (pieces_ne_nil (· == '.') cs)
  rw [pieces, hdot, hw] at hp
  cases hp
  exact ⟨c, w, rfl, hc⟩

theorem IsNumeric.exists_scan {cs : List Char} (h : IsNumeric cs) :
    ∃ numbers ending, scan (pieces (· == '.') cs) = .ok (numbers, ending) ∧ numbers ≠ [] ∧
      ending ≠ .wildcard := by
  have hlt : ∀ v ∈ pieces (· == '.') cs, value (v.takeWhile Char.isDigit) < numberLimit := by
    intro v hv
    have hrun : v.takeWhile Char.isDigit <:+: cs :=
      (List.takeWhile_prefix _).isInfix.trans (infix_of_mem_pieces hv)
    exact h.lt _ hrun fun c hc => List.mem_takeWhile_imp hc
  obtain ⟨numbers, ending, hscan, hending⟩ := Version.exists_scan h.isWildcard hlt
  refine ⟨numbers, ending, hscan, ?_, hending⟩
  obtain ⟨segment, rest, hp⟩ := List.exists_cons_of_ne_nil (pieces_ne_nil (· == '.') cs)
  rw [hp] at hscan
  exact numbers_ne_nil (h.startsWithDigit.of_pieces hp) hscan

theorem IsHyphenated.scan_eq {cs q : List Char} (h : IsHyphenated cs q) :
    ∃ numbers, scan (pieces (· == '.') cs) = .ok (numbers, .qualifier true ('-' :: q)) := by
  obtain ⟨ws, w, hws, hw, rfl⟩ := h
  exact ⟨_, scan_hyphenated hws hw q⟩

/-- Read loosely, such a text is a version or has a pre-release that is padded. -/
theorem IsNumeric.loose_cases {cs : List Char} (h : IsNumeric cs) :
    (∃ q, IsHyphenated cs q ∧ IsPadded q ∧
      loose cs = .error (.leadingZero (String.ofList (dotted (sanitize q))))) ∨
    ((∀ q, IsHyphenated cs q → ¬IsPadded q) ∧ ∃ v given, loose cs = .ok ⟨v, given, false⟩) := by
  obtain ⟨numbers, ending, hscan, hn, hending⟩ := h.exists_scan
  rcases Version.loose_cases hscan hn hending with ⟨q, rfl, hpadded, hloose⟩ | ⟨hnot, v, hloose⟩
  · obtain ⟨p, rfl, hp⟩ := isHyphenated_of_scan hscan
    rw [joinWith_pieces] at hp
    exact Or.inl ⟨p, hp, hpadded, hloose⟩
  · refine Or.inr ⟨fun q hq hpadded => ?_, v, _, hloose⟩
    obtain ⟨numbers', hscan'⟩ := hq.scan_eq
    rw [hscan] at hscan'
    cases hscan'
    exact hnot _ rfl hpadded

/-- A text that starts with a number is a version, unless its pre-release has a number with a needless
zero in front, and that is then what is wrong with it. -/
theorem numeric_reads_iff {raw : String}
    (h : IsNumeric ((trim raw.toList).dropWhile WrittenVersion.isVersionMark)) :
    let cs := (trim raw.toList).dropWhile WrittenVersion.isVersionMark
    ((∃ v, ofText raw = .ok v) ↔ ¬HasPaddedPreRelease cs) ∧
      (HasPaddedPreRelease cs → ∃ q, IsHyphenated cs q ∧
        ofText raw = .error ⟨raw, .version (.leadingZero (String.ofList (dotted (sanitize q))))⟩) := by
  intro cs
  have hread := ofChars_of_dropWhile h.startsWithDigit
  rw [ofText, hread]
  cases hstrict : strict? cs with
  | some v =>
    -- The strict grammar has no padded pre-release, so there is nothing to refuse.
    have hnot : ¬HasPaddedPreRelease cs := by
      rintro ⟨hnone, -⟩
      rw [hstrict] at hnone
      cases hnone
    exact ⟨iff_of_true ⟨v, rfl⟩ hnot, fun hp => absurd hp hnot⟩
  | none =>
    rcases h.loose_cases with ⟨q, hq, hpadded, hloose⟩ | ⟨hnot, v, given, hloose⟩
    · simp only [hloose]
      exact ⟨iff_of_false nofun fun hp => hp ⟨hstrict, q, hq, hpadded⟩, fun _ => ⟨q, hq, rfl⟩⟩
    · simp only [hloose]
      have hunpadded : ¬HasPaddedPreRelease cs := fun hp =>
        let ⟨q, hq, hpadded⟩ := hp.2
        hnot q hq hpadded
      exact ⟨iff_of_true ⟨v, rfl⟩ hunpadded, fun hp => absurd hp hunpadded⟩

/-- Past the third number and with foreign characters in its pre-release a text is a version still. -/
theorem numeric_reads_iff_candidate :
    let cs := "1.02.3.4-rc.1_01".toList
    (trim " v1.02.3.4-rc.1_01 ".toList).dropWhile WrittenVersion.isVersionMark = cs ∧
      IsNumeric cs ∧ ¬HasPaddedPreRelease cs ∧ ∃ v, ofText " v1.02.3.4-rc.1_01 " = .ok v := by
  intro cs
  have hcs : (trim " v1.02.3.4-rc.1_01 ".toList).dropWhile WrittenVersion.isVersionMark = cs := by
    decide
  have hnumeric : IsNumeric cs := .of_length ⟨'1', _, rfl, by decide⟩ (by decide) (by decide)
  have hunpadded : ¬HasPaddedPreRelease cs := by
    rintro ⟨-, q, hq, hpadded⟩
    have hends : scan (pieces (· == '.') cs) =
        .ok ([1, 2, 3, 4], .qualifier true ('-' :: "rc.1_01".toList)) := by decide
    obtain ⟨numbers, hscan⟩ := hq.scan_eq
    simp only [hends, Except.ok.injEq, Prod.mk.injEq, Ending.qualifier.injEq, List.cons.injEq]
      at hscan
    rw [← hscan.2.2.2, ← any_hasLeadingZero_sanitize] at hpadded
    exact absurd hpadded (by decide)
  have hreads := @numeric_reads_iff " v1.02.3.4-rc.1_01 " (hcs.symm ▸ hnumeric)
  exact ⟨hcs, hnumeric, hunpadded, hreads.1.mpr (hcs.symm ▸ hunpadded)⟩

/-- Two numbers and a pre-release that is a number with a zero in front are no version. -/
theorem not_reads_padded :
    IsNumeric ((trim "1.0-01".toList).dropWhile WrittenVersion.isVersionMark) ∧
      ofText "1.0-01" = .error ⟨"1.0-01", .version (.leadingZero "01")⟩ :=
  ⟨.of_length ⟨'1', _, rfl, by decide⟩ (by decide) (by decide), by decide⟩

end DependencyAudit.Version
