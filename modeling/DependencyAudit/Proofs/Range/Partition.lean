import DependencyAudit.Proofs.Range.Notations

/-! The relations to a written version divide the versions into those below it, those it stands for and
those above it, with a wildcard or without one. -/
namespace DependencyAudit

open Text

namespace WrittenVersion

variable {w : WrittenVersion} {next : Version}

theorem cases_of_next? (h : w.next? = some next) :
    (w.given = 1 ∧ next = .release (nextNumber w.version.major) 0 0) ∨
    (w.given = 2 ∧ next = .release w.version.major (nextNumber w.version.minor) 0) ∨
    (3 ≤ w.given ∧
      next = .release w.version.major w.version.minor (nextNumber w.version.patch)) := by
  simp only [next?] at h
  split at h
  · cases h
  · rename_i hg
    exact Or.inl ⟨hg, (Option.some.inj h).symm⟩
  · rename_i hg
    exact Or.inr (Or.inl ⟨hg, (Option.some.inj h).symm⟩)
  · rename_i h0 h1 h2
    have hg : 3 ≤ w.given := by
      have h0 : w.given ≠ 0 := h0
      have h1 : w.given ≠ 1 := h1
      have h2 : w.given ≠ 2 := h2
      omega
    exact Or.inr (Or.inr ⟨hg, (Option.some.inj h).symm⟩)

/-- Behind a number that is not the largest one there is something past it. -/
theorem lt_next? (hroom : w.version.Within (numberLimit - 2)) (h : w.next? = some next) :
    w.version < next := by
  obtain ⟨hmajor, hminor, hpatch⟩ := hroom.nextNumber_eq
  rcases cases_of_next? h with ⟨-, rfl⟩ | ⟨-, rfl⟩ | ⟨-, rfl⟩ <;>
    simp [Version.lt_release_iff, hmajor, hminor, hpatch]

end WrittenVersion

namespace Interval

open DependencyAudit.Relation

variable {p : List Char} {w : WrittenVersion}

section Sides

variable (hn : 1 ≤ w.given) (v : Version)
include hn

theorem contains_relation_atLeast :
    (ofRelation .atLeast w).contains v = !(ofRelation .below w).contains v := by
  have hnot := contains_atMost_not w.version true v
  rw [Bool.not_true] at hnot
  simp [ofRelation, Nat.one_le_iff_ne_zero.mp hn, hnot]

/-- What is above starts past the wildcard, where what is not above ends. -/
theorem contains_relation_atMost :
    (ofRelation .atMost w).contains v = !(ofRelation .above w).contains v := by
  have hgiven : w.given ≠ 0 := Nat.one_le_iff_ne_zero.mp hn
  cases hp : pastWildcard? w with
  | none => simpa [ofRelation, hgiven, hp] using contains_atMost_not w.version false v
  | some next => simpa [ofRelation, hgiven, hp] using contains_atMost_not next true v

/-- What is written stands for all that is neither below nor above it. -/
theorem contains_relation_same : (ofRelation .same w).contains v =
    ((ofRelation .atLeast w).contains v && (ofRelation .atMost w).contains v) := by
  have hgiven : w.given ≠ 0 := Nat.one_le_iff_ne_zero.mp hn
  obtain ⟨next, hnext⟩ := exists_next? hn
  rw [Bool.eq_iff_iff, Bool.and_eq_true]
  cases hw : w.wildcard with
  | true =>
    simp [ofRelation, ofWritten, pastWildcard?, hgiven, hw, hnext, halfOpen, contains_bounds]
  | false => simp [ofRelation, ofWritten, pastWildcard?, hgiven, hw, exactly, contains_bounds]

/-- With a wildcard this takes a number that has a next one. -/
theorem lt_of_contains_above (hroom : w.wildcard = true → w.version.Within (numberLimit - 2))
    (h : (ofRelation .above w).contains v = true) : w.version < v := by
  have hgiven : w.given ≠ 0 := Nat.one_le_iff_ne_zero.mp hn
  cases hp : pastWildcard? w with
  | none => simpa [ofRelation, hgiven, hp, contains_atLeast_iff] using h
  | some next =>
    have hlt : w.version < next := by
      simp only [pastWildcard?] at hp
      split at hp
      · rename_i hw
        exact WrittenVersion.lt_next? (hroom hw) hp
      · cases hp
    have hle : next ≤ v := by
      simpa [ofRelation, hgiven, hp, contains_atLeast_iff, le_iff_lt_or_eq] using h
    exact lt_of_lt_of_le hlt hle

theorem not_above_of_below (hroom : w.wildcard = true → w.version.Within (numberLimit - 2))
    (h : (ofRelation .below w).contains v = true) :
    (ofRelation .above w).contains v = false := by
  have hlt : v < w.version := by
    simpa [ofRelation, Nat.one_le_iff_ne_zero.mp hn, contains_atMost_iff] using h
  exact Bool.eq_false_iff.mpr fun ha => lt_asymm hlt (lt_of_contains_above hn v hroom ha)

end Sides

/-- The sign of equality says what no sign says. -/
theorem ofComparator_equals (hw : WrittenVersion.ofChars p = .ok w) :
    ofComparator ('=' :: p) = .ok (ofRelation .same w) := by
  obtain ⟨c, rest, rfl, hc⟩ := exists_cons_of_ofChars hw
  have hsplit : split ('=' :: c :: rest) = (.same, c :: rest) := by
    simp only [isMark, Bool.or_eq_false_iff, beq_eq_false_iff_ne, ne_eq] at hc
    simp [split, hc]
  exact ofComparator_eq_ok_iff.mpr ⟨w, by rw [hsplit, hw], by rw [hsplit]⟩

/-- Behind each of the signs what is written is a comparator. Of those with one sign exactly one holds
a given version, and those with two signs hold what the opposite one leaves out. Only where a wildcard
follows, its numbers have to leave room for the next one. -/
theorem relations_partition (hw : WrittenVersion.ofChars p = .ok w) (hn : 1 ≤ w.given)
    (hroom : w.wildcard = true → w.version.Within (numberLimit - 2)) :
    ∃ below same above atMost atLeast : Interval,
      ofComparator ('<' :: p) = .ok below ∧ ofComparator ('=' :: p) = .ok same ∧
      ofComparator ('>' :: p) = .ok above ∧ ofComparator ('<' :: '=' :: p) = .ok atMost ∧
      ofComparator ('>' :: '=' :: p) = .ok atLeast ∧
      ∀ v, [below, same, above].countP (·.contains v) = 1 ∧
        (atMost.contains v = true ↔ ¬above.contains v = true) ∧
        (atLeast.contains v = true ↔ ¬below.contains v = true) := by
  refine ⟨_, _, _, _, _, ofComparator_chars hw .below, ofComparator_equals hw,
    ofComparator_chars hw .above, ofComparator_chars hw .atMost, ofComparator_chars hw .atLeast,
    fun v => ?_⟩
  have hsame := contains_relation_same hn v
  have hatMost := contains_relation_atMost hn v
  have hatLeast := contains_relation_atLeast hn v
  refine ⟨?_, by simp [hatMost], by simp [hatLeast]⟩
  rw [hatMost, hatLeast] at hsame
  by_cases hbelow : (ofRelation .below w).contains v = true
  · simp [hsame, hbelow, not_above_of_below hn v hroom hbelow]
  · by_cases habove : (ofRelation .above w).contains v = true <;> simp [hsame, hbelow, habove]

/-- A pre-release of the version past the wildcard is not past it yet. -/
theorem relations_partition_wildcard :
    let p := "1.2.x".toList
    let w : WrittenVersion := ⟨.release 1 2 0, 2, true⟩
    let v : Version := ⟨1, 3, 0, [⟨"rc".toList⟩], []⟩
    (WrittenVersion.ofChars p = .ok w ∧ 1 ≤ w.given ∧
      (w.wildcard = true → w.version.Within (numberLimit - 2))) ∧
      ∃ below same above, ofComparator "<1.2.x".toList = .ok below ∧
        ofComparator "=1.2.x".toList = .ok same ∧ ofComparator ">1.2.x".toList = .ok above ∧
        below.contains v = false ∧ same.contains v = true ∧ above.contains v = false := by
  intro p w v
  have hw : WrittenVersion.ofChars p = .ok w := by decide +kernel
  have hn : 1 ≤ w.given := by decide
  have hroom : w.wildcard = true → w.version.Within (numberLimit - 2) := by decide
  obtain ⟨below, same, above, _, _, hbelow, hsame, habove, -, -, hcount⟩ :=
    relations_partition hw hn hroom
  have hholds : same.contains v = true := by
    have he : ofComparator ('=' :: p) = .ok (.halfOpen (.release 1 2 0) (.release 1 3 0)) := by
      decide +kernel
    rw [he, Except.ok.injEq] at hsame
    rw [← hsame]
    decide +kernel
  refine ⟨⟨hw, hn, hroom⟩, below, same, above, hbelow, hsame, habove, ?_, hholds, ?_⟩
  all_goals
    have hone := (hcount v).1
    simp only [List.countP_cons, List.countP_nil, hholds] at hone
    grind

end Interval
end DependencyAudit
