import DependencyAudit.Proofs.Text.Digits
import DependencyAudit.Proofs.Text.Pieces
import DependencyAudit.Version.Reading

/-! Texts of identifiers: what is accepted as a part of a version, and that the parts which are made of the
numbers and the qualifier of a loosely written version are accepted. -/
namespace DependencyAudit

theorem Identifier.isIdentifierChar_of_mem {i : Identifier} (h : i.isValid = true) {c : Char}
    (hc : c ∈ i.chars) : isIdentifierChar c = true := by
  rw [isValid, Bool.and_eq_true, List.all_eq_true] at h
  exact h.2 c hc

theorem Identifier.chars_ne_nil {i : Identifier} (h : i.isValid = true) : i.chars ≠ [] := by
  rintro he
  simp [isValid, he] at h

namespace Version

open Text

variable {ids : List Identifier} {c : Char}

/-- An identifier of a qualifier holds nothing foreign, and all but the separator was made so. -/
theorem isValid_of_sanitize {q : List Char} {i : Identifier} (h : i ∈ sanitize q) :
    i.isValid = true := by
  have hne := isValid_of_mem_sanitize h
  simp only [sanitize, List.mem_map] at h
  obtain ⟨w, hw, rfl⟩ := h
  have hchars : ∀ c ∈ w, Identifier.isIdentifierChar c = true := by
    intro c hc
    obtain ⟨hm, hdot⟩ := Text.of_mem_pieces (List.mem_filter.mp hw).1 c hc
    obtain ⟨d, -, rfl⟩ := List.mem_map.mp hm
    by_cases hd : (d.isAlphanum || d == '-' || d == '.') = true
    · rw [if_pos hd] at hdot ⊢
      rw [hdot, Bool.or_false] at hd
      exact hd
    · rw [if_neg hd]
      decide
  rw [Identifier.isValid, Bool.and_eq_true, List.all_eq_true]
  exact ⟨by simpa using hne, hchars⟩

theorem isValid_of_extraNumbers {numbers : List ℕ} {i : Identifier}
    (h : i ∈ extraNumbers numbers) : i.isValid = true := by
  obtain ⟨n, -, rfl⟩ := List.mem_map.mp h
  have hd : ∀ c ∈ Text.decimal n, Identifier.isIdentifierChar c = true := by
    intro c hc
    simp [Identifier.isIdentifierChar, Char.isAlphanum, Text.isDigit_of_mem_decimal hc]
  simpa [Identifier.isValid, Text.decimal_ne_nil] using hd

section Dotted

variable (h : ∀ i ∈ ids, i.isValid = true)
include h

theorem of_mem_dotted (hc : c ∈ dotted ids) : Identifier.isIdentifierChar c = true ∨ c = '.' := by
  rcases of_mem_joinWith hc with rfl | ⟨w, hw, hc⟩
  · exact Or.inr rfl
  · obtain ⟨i, hi, rfl⟩ := List.mem_map.mp hw
    exact Or.inl (Identifier.isIdentifierChar_of_mem (h i hi) hc)

/-- No identifier holds a dot. -/
theorem pieces_dotted (hne : ids ≠ []) :
    pieces (· == '.') (dotted ids) = ids.map (·.chars) := by
  have hdot : ∀ w ∈ ids.map (·.chars), '.' ∉ w := by
    intro w hw hmem
    obtain ⟨i, hi, rfl⟩ := List.mem_map.mp hw
    exact absurd (Identifier.isIdentifierChar_of_mem (h i hi) hmem) (by decide)
  exact pieces_joinWith (by simpa using hne) hdot

theorem identifiers_dotted (hne : ids ≠ []) : identifiers (dotted ids) = ids := by
  rw [identifiers, pieces_dotted h hne, List.map_map]
  exact List.map_id ids

theorem dotted_ne_nil (hne : ids ≠ []) : dotted ids ≠ [] := by
  intro he
  have hpieces := pieces_dotted h hne
  obtain ⟨i, is, rfl⟩ := List.exists_cons_of_ne_nil hne
  rw [he, pieces, List.map_cons, List.cons.injEq] at hpieces
  exact Identifier.chars_ne_nil (h i List.mem_cons_self) hpieces.1.symm

end Dotted

end Version

namespace VersionPart

open Text Version

variable {part : VersionPart} {ids : List Identifier}

/-- The part may hold the identifier: in a pre-release no number has a needless zero in front. -/
def Admits (part : VersionPart) (i : Identifier) : Prop :=
  i.isValid = true ∧ (part = .preRelease → i.hasLeadingZero = false)

/-- Well-formed identifiers are refused for nothing but a needless zero. -/
theorem ofSegments_of_isValid (h : ∀ i ∈ ids, i.isValid = true) :
    part.ofSegments (ids.map (·.chars)) =
      if part = .preRelease ∧ ids.any (·.hasLeadingZero) then .error .leadingZero else .ok ids := by
  induction ids with
  | nil => simp [ofSegments]
  | cons i ids ih =>
    obtain ⟨hi, hids⟩ := List.forall_mem_cons.mp h
    have hrun : i.chars.takeWhile Identifier.isIdentifierChar = i.chars :=
      List.takeWhile_eq_self_iff.mpr fun c => Identifier.isIdentifierChar_of_mem hi
    have hne : i.chars.isEmpty = false := List.isEmpty_eq_false_iff.mpr (Identifier.chars_ne_nil hi)
    simp only [List.map_cons, ofSegments, hrun, hne, ih hids, Nat.lt_irrefl, if_false,
      Bool.false_eq_true, List.any_cons, Bool.or_eq_true]
    by_cases hzero : part = .preRelease ∧ i.hasLeadingZero = true
    · rw [if_pos hzero, if_pos ⟨hzero.1, Or.inl hzero.2⟩]
    · have hrest : (part = .preRelease ∧
          (i.hasLeadingZero = true ∨ ids.any (·.hasLeadingZero) = true)) ↔
          part = .preRelease ∧ ids.any (·.hasLeadingZero) = true :=
        and_congr_right fun hpart => or_iff_right fun hi => hzero ⟨hpart, hi⟩
      simp only [if_neg hzero, hrest]
      split
      · rfl
      · rfl

theorem ofChars_dotted (h : ∀ i ∈ ids, i.isValid = true) :
    part.ofChars (dotted ids) =
      if part = .preRelease ∧ ids.any (·.hasLeadingZero) then .error .leadingZero else .ok ids := by
  by_cases hne : ids = []
  · simp [hne, dotted, joinWith, ofChars]
  · obtain ⟨c, cs, hc⟩ := List.exists_cons_of_ne_nil (dotted_ne_nil h hne)
    have hfirst : (Identifier.isIdentifierChar c || c == '.') = true := by
      simpa using of_mem_dotted h (hc ▸ List.mem_cons_self : c ∈ dotted ids)
    rw [← ofSegments_of_isValid h, ← pieces_dotted h hne, hc, ofChars, if_pos hfirst]

theorem of_ofSegments {segments : List (List Char)} (h : part.ofSegments segments = .ok ids) :
    ids.map (·.chars) = segments ∧ ∀ i ∈ ids, part.Admits i := by
  induction segments generalizing ids with
  | nil =>
    cases h
    exact ⟨rfl, nofun⟩
  | cons segment rest ih =>
    simp only [ofSegments] at h
    split at h
    · cases h
    rename_i hne
    split at h
    · cases h
    rename_i hzero
    split at h
    · cases h
    rename_i hlength
    cases hrest : part.ofSegments rest with
    | error fault =>
      rw [hrest] at h
      cases h
    | ok is =>
      rw [hrest] at h
      cases h
      obtain ⟨hchars, hadmits⟩ := ih hrest
      have hrun : segment.takeWhile Identifier.isIdentifierChar = segment :=
        (List.takeWhile_prefix _).eq_of_length_le (Nat.le_of_not_lt hlength)
      have hvalid : (Identifier.mk segment).isValid = true := by
        rw [hrun] at hne
        simpa [Identifier.isValid, hne] using List.takeWhile_eq_self_iff.mp hrun
      rw [hrun] at hzero
      simp only [hrun, List.map_cons, hchars, List.forall_mem_cons, true_and]
      exact ⟨⟨hvalid, fun hp => by simpa [hp] using hzero⟩, hadmits⟩

/-- A text is accepted exactly if it is made of identifiers that the part may hold. -/
theorem ofChars_eq_ok_iff {cs : List Char} :
    part.ofChars cs = .ok ids ↔ cs = dotted ids ∧ ∀ i ∈ ids, part.Admits i := by
  constructor
  · intro h
    cases cs with
    | nil =>
      cases h
      exact ⟨rfl, nofun⟩
    | cons c cs =>
      simp only [ofChars] at h
      split at h
      · obtain ⟨hchars, hadmits⟩ := of_ofSegments h
        rw [dotted, hchars, joinWith_pieces]
        exact ⟨rfl, hadmits⟩
      · cases h
  · rintro ⟨rfl, h⟩
    rw [ofChars_dotted fun i hi => (h i hi).1, if_neg]
    rintro ⟨hpart, hzero⟩
    obtain ⟨i, hi, hzero⟩ := List.any_eq_true.mp hzero
    rw [(h i hi).2 hpart] at hzero
    cases hzero

end VersionPart

namespace Version

open Text

/-- The numbers past the third and the identifiers of the qualifier are what the text lists. -/
theorem buildChars_dotted (numbers : List ℕ) {ids : List Identifier}
    (h : ∀ i ∈ ids, i.isValid = true) :
    buildChars numbers (dotted ids) = dotted (extraNumbers numbers ++ ids) := by
  by_cases hne : ids = []
  · simp [hne, buildChars, dotted, joinWith]
  · rw [buildChars, if_neg (by simpa using dotted_ne_nil h hne), dotted,
      joinWith_append_joinWith '.' _ (by simpa using hne), dotted, List.map_append]

theorem readPart_build (numbers : List ℕ) {ids : List Identifier}
    (h : ∀ i ∈ ids, i.isValid = true) :
    readPart .build (buildChars numbers (dotted ids)) = .ok (extraNumbers numbers ++ ids) := by
  have hall : ∀ i ∈ extraNumbers numbers ++ ids, i.isValid = true := by
    intro i hi
    exact (List.mem_append.mp hi).elim isValid_of_extraNumbers (h i)
  rw [readPart, buildChars_dotted numbers h, VersionPart.ofChars_dotted hall]
  rfl

theorem readPart_preRelease {ids : List Identifier} (h : ∀ i ∈ ids, i.isValid = true) :
    readPart .preRelease (dotted ids) =
      if ids.any (·.hasLeadingZero) then .error (.leadingZero (String.ofList (dotted ids)))
      else .ok ids := by
  rw [readPart, VersionPart.ofChars_dotted h]
  by_cases hzero : ids.any (·.hasLeadingZero) = true
  · simp [hzero, Except.mapError]
  · simp [hzero, Except.mapError]

/-- What the numbers and their ending make of a loosely written version. -/
theorem loose_of_scan {cs : List Char} {numbers : List ℕ} {ending : Ending}
    (hscan : scan (pieces (· == '.') cs) = .ok (numbers, ending)) (hn : numbers ≠ []) :
    loose cs = match ending with
      | .wildcard => .ok ⟨ofNumbers numbers [] [], min numbers.length 3, true⟩
      | .done => .ok ⟨ofNumbers numbers [] (extraNumbers numbers), min numbers.length 3, false⟩
      | .qualifier false q => .ok ⟨ofNumbers numbers [] (extraNumbers numbers ++ sanitize q),
          min numbers.length 3, false⟩
      | .qualifier true q =>
        if (sanitize q).any (·.hasLeadingZero) then
          .error (.leadingZero (String.ofList (dotted (sanitize q))))
        else .ok ⟨ofNumbers numbers (sanitize q) (extraNumbers numbers), min numbers.length 3,
          false⟩ := by
  have hempty : numbers.isEmpty = false := List.isEmpty_eq_false_iff.mpr hn
  have hnone : readPart .build (buildChars numbers []) = .ok (extraNumbers numbers) := by
    have hnil : ∀ i ∈ ([] : List Identifier), i.isValid = true := nofun
    simpa [dotted, joinWith] using readPart_build numbers hnil
  have hqualifier (q : List Char) := readPart_build numbers fun i => isValid_of_sanitize (q := q)
  have hpre (q : List Char) := readPart_preRelease fun i => isValid_of_sanitize (q := q)
  simp only [loose, hscan, bind, Except.bind, hempty, Bool.false_eq_true, if_false, pure,
    Except.pure, hnone]
  rcases ending with _ | _ | ⟨_ | _, q⟩
  · rfl
  · rfl
  · simp only [hqualifier]
  · by_cases hzero : (sanitize q).any (·.hasLeadingZero) = true
    · simp only [hpre, if_pos hzero]
    · simp only [hpre, if_neg hzero]

end Version
end DependencyAudit
