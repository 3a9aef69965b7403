import DependencyAudit.Proofs.Version.Leniency
import DependencyAudit.Proofs.Version.Numbers
import DependencyAudit.Proofs.Version.Order

/-! Numbers with a qualifier of letters behind a hyphen: a pre-release, which stands below the version
of the numbers and above those whose first three numbers are smaller. -/
namespace DependencyAudit.Version

open Text

variable {xs ys : List ℕ} {w : List Char}

section Letters

variable (hw : ∀ c ∈ w, c.isAlpha = true)
include hw

theorem not_mem_of_isAlpha {c : Char} (hc : c.isAlpha = false) : c ∉ w :=
  mt (hw c) (ne_true_of_eq_false hc)

theorem not_dot_letters : ∀ c ∈ w, (c == '.') = false := by
  intro c hc
  rw [beq_eq_false_iff_ne]
  rintro rfl
  exact not_mem_of_isAlpha hw (by decide) hc

theorem identifiers_letters : identifiers w = [⟨w⟩] := by
  rw [identifiers, pieces_of_not_sep (not_dot_letters hw)]
  rfl

variable (hne : w ≠ [])
include hne

theorem isValid_letters : (Identifier.mk w).isValid = true := by
  have hchars : ∀ c ∈ w, Identifier.isIdentifierChar c = true := by
    intro c hc
    simp [Identifier.isIdentifierChar, Char.isAlphanum, hw c hc]
  simpa [Identifier.isValid, hne] using hchars

theorem hasLeadingZero_letters : (Identifier.mk w).hasLeadingZero = false := by
  obtain ⟨c, cs, rfl⟩ := List.exists_cons_of_ne_nil hne
  have hc := isDigit_of_isAlpha (hw c List.mem_cons_self)
  simp [Identifier.hasLeadingZero, Identifier.isNumeric, hc]

/-- Letters are one identifier, as they are. -/
theorem sanitize_letters : sanitize w = [⟨w⟩] := by
  have hmark : w.dropWhile isQualifierMark = w := by
    refine List.dropWhile_eq_self_iff.mpr fun hl hm => ?_
    have halpha := hw _ (List.getElem_mem hl)
    simp only [isQualifierMark, Bool.or_eq_true, beq_iff_eq] at hm
    rcases hm with ((hm | hm) | hm) | hm
    all_goals rw [hm] at halpha; cases halpha
  have hclean : w.map cleaned = w := by
    have hkept : ∀ c ∈ w, cleaned c = c := fun c hc => if_pos (by simp [Char.isAlphanum, hw c hc])
    rw [List.map_congr_left hkept, List.map_id']
  rw [sanitize_eq, hmark, hclean, words_of_not_sep hne (not_dot_letters hw)]
  rfl

end Letters

section Reading

variable (hx : xs ≠ []) (hxs : ∀ n ∈ xs, n < numberLimit) (hw : ∀ c ∈ w, c.isAlpha = true)
include hx hxs hw

theorem strict?_qualified :
    strict? (dottedNumbers xs ++ '-' :: w) =
      if xs.length = 3 ∧ w ≠ [] then some (ofNumbers xs (sanitize w) (extraNumbers xs))
      else none := by
  have hplus : '+' ∉ dottedNumbers xs ++ '-' :: w := by
    have hnumbers : '+' ∉ dottedNumbers xs := not_mem_dottedNumbers (by decide) (by decide)
    have hletters : '+' ∉ w := not_mem_of_isAlpha hw (by decide)
    simp [hnumbers, hletters]
  have hminus : '-' ∉ dottedNumbers xs := not_mem_dottedNumbers (by decide) (by decide)
  have hcut : upTo '-' (dottedNumbers xs ++ '-' :: w) = (dottedNumbers xs, some w) := by
    rw [upTo, splitOnce?_append hminus]
  rw [strict?, upTo_of_not_mem hplus]
  simp only [hcut, strictNumbers?_dottedNumbers hx hxs]
  by_cases h : xs.length = 3
  · have hextra : extraNumbers xs = [] := by simp [extraNumbers, h]
    by_cases hne : w = []
    · simp [h, hne, marked?, identifiers, pieces, Identifier.isValid]
    · simp [h, hne, marked?, identifiers_letters hw, isValid_letters hw hne,
        hasLeadingZero_letters hw hne, sanitize_letters hw hne, ofNumbers, hextra]
  · simp [h]

theorem loose_qualified :
    loose (dottedNumbers xs ++ '-' :: w) =
      .ok ⟨ofNumbers xs (sanitize w) (extraNumbers xs), min xs.length 3, false⟩ := by
  have hzero : (sanitize w).any (·.hasLeadingZero) = false := by
    by_cases hne : w = []
    · rw [hne]
      rfl
    · simp [sanitize_letters hw hne, hasLeadingZero_letters hw hne]
  have hscan := scan_dottedNumbers_hyphen hx hxs w
  exact (loose_of_scan hscan hx).trans (if_neg (ne_true_of_eq_false hzero))

/-- The strict and the loose grammar give one pre-release, or the version itself without letters. -/
theorem ofText_qualified :
    ofText (String.ofList (dottedNumbers xs ++ '-' :: w)) =
      .ok (ofNumbers xs (sanitize w) (extraNumbers xs)) := by
  have hblank : ∀ c ∈ dottedNumbers xs ++ '-' :: w, isBlank c = false := by
    intro c hc
    rcases List.mem_append.mp hc with hc | hc
    · rcases of_mem_dottedNumbers hc with h | rfl
      · exact isBlank_of_isDigit h
      · rfl
    · rcases List.mem_cons.mp hc with rfl | hc
      · rfl
      · exact isBlank_of_isAlpha (hw c hc)
  have hdigit := (startsWithDigit_dottedNumbers hx).append ('-' :: w)
  rw [ofText, String.toList_ofList, ofChars_of_startsWithDigit hdigit hblank,
    strict?_qualified hx hxs hw]
  by_cases h : xs.length = 3 ∧ w ≠ []
  · simp [h]
  · simp [h, loose_qualified hx hxs hw]

end Reading

/-- A pre-release stands below its version. -/
theorem preRelease_lt (xs : List ℕ) {pre : List Identifier} (hpre : pre ≠ [])
    (build build' : List Identifier) : ofNumbers xs pre build < ofNumbers xs [] build' := by
  obtain ⟨i, is, rfl⟩ := List.exists_cons_of_ne_nil hpre
  change order _ _ = .lt
  simp [order, ofNumbers, preOrder]

/-- Past the first three numbers nothing raises a pre-release above a version. -/
theorem lt_preRelease_iff (xs ys : List ℕ) {pre : List Identifier} (hpre : pre ≠ [])
    (build build' : List Identifier) :
    ofNumbers ys [] build' < ofNumbers xs pre build ↔
      (ys.rightpad 3 0).take 3 < (xs.rightpad 3 0).take 3 := by
  obtain ⟨i, is, rfl⟩ := List.exists_cons_of_ne_nil hpre
  change order _ _ = .lt ↔ _
  simp only [order, ofNumbers, rightpad_eq, List.take_succ_cons, List.take_zero,
    List.cons_lt_cons_iff, Ordering.then_eq_lt, Nat.compare_eq_lt, Nat.compare_eq_eq]
  simp [preOrder]

theorem preRelease_lt_iff (xs ys : List ℕ) {pre : List Identifier} (hpre : pre ≠ [])
    (build build' : List Identifier) :
    ofNumbers xs pre build < ofNumbers ys [] build' ↔
      ¬(ys.rightpad 3 0).take 3 < (xs.rightpad 3 0).take 3 := by
  have hne : ofNumbers xs pre build ≠ ofNumbers ys [] build' :=
    fun h => hpre (congrArg Version.pre h)
  rw [← lt_preRelease_iff xs ys hpre build build', not_lt, le_iff_eq_or_lt, or_iff_right hne]

/-- Letters behind a hyphen make a pre-release, which stands below the version of its numbers. It is
above the version of other numbers if these are smaller within the first three, and below it in all
other cases, for what differs past the third number is build metadata. -/
theorem letters_make_preRelease (hx : xs ≠ []) (hy : ys ≠ []) (hxs : ∀ n ∈ xs, n < numberLimit)
    (hys : ∀ n ∈ ys, n < numberLimit) (hw : ∀ c ∈ w, c.isAlpha = true) :
    ∃ v p u, ofText (String.ofList (dottedNumbers xs)) = .ok v ∧
      ofText (String.ofList (dottedNumbers xs ++ '-' :: w)) = .ok p ∧
      ofText (String.ofList (dottedNumbers ys)) = .ok u ∧
      (w = [] → p = v) ∧
      (w ≠ [] → p < v ∧
        (u < p ↔ (ys.rightpad 3 0).take 3 < (xs.rightpad 3 0).take 3) ∧
        (p < u ↔ ¬(ys.rightpad 3 0).take 3 < (xs.rightpad 3 0).take 3)) := by
  refine ⟨_, _, _, ofText_dottedNumbers hx hxs, ofText_qualified hx hxs hw,
    ofText_dottedNumbers hy hys, ?_, fun hne => ?_⟩
  · rintro rfl
    rfl
  · have hpre : sanitize w ≠ [] := by simp [sanitize_letters hw hne]
    exact ⟨preRelease_lt xs hpre _ _, lt_preRelease_iff xs ys hpre _ _,
      preRelease_lt_iff xs ys hpre _ _⟩

/-- Two numbers and letters come after four numbers of which the second is smaller. -/
theorem letters_make_preRelease_two :
    let xs := [1, 10]
    let ys := [1, 9, 18446744073709551615, 7]
    let w := "SNAPSHOT".toList
    (xs ≠ [] ∧ ys ≠ [] ∧ (∀ n ∈ xs, n < numberLimit) ∧ (∀ n ∈ ys, n < numberLimit) ∧
      ∀ c ∈ w, c.isAlpha = true) ∧
      ∃ v p u, ofText "1.10" = .ok v ∧ ofText "1.10-SNAPSHOT" = .ok p ∧
        ofText "1.9.18446744073709551615.7" = .ok u ∧ u < p ∧ p < v := by
  intro xs ys w
  have hx : xs ≠ [] := nofun
  have hy : ys ≠ [] := nofun
  have hxs : ∀ n ∈ xs, n < numberLimit := by decide
  have hys : ∀ n ∈ ys, n < numberLimit := by decide
  have hw : ∀ c ∈ w, c.isAlpha = true := List.all_eq_true.mp (by decide)
  obtain ⟨v, p, u, hv, hp, hu, -, horder⟩ := letters_make_preRelease hx hy hxs hys hw
  obtain ⟨hbelow, habove, -⟩ := horder (by decide)
  exact ⟨⟨hx, hy, hxs, hys, hw⟩, v, p, u, hv, hp, hu, habove.mpr (by decide), hbelow⟩

/-- A pre-release of four numbers stands below three numbers and a smaller fourth. -/
theorem preRelease_below_smaller_fourth :
    let xs := [1, 2, 3, 4]
    let ys := [1, 2, 3, 3]
    ys.rightpad 3 0 < xs.rightpad 3 0 ∧
      ∃ p u, ofText (String.ofList (dottedNumbers xs ++ '-' :: "SNAPSHOT".toList)) = .ok p ∧
        ofText (String.ofList (dottedNumbers ys)) = .ok u ∧ ¬u < p := by
  refine ⟨by decide, ⟨1, 2, 3, [⟨"SNAPSHOT".toList⟩], [⟨['4']⟩]⟩, ⟨1, 2, 3, [], [⟨['3']⟩]⟩, ?_⟩
  decide

end DependencyAudit.Version
