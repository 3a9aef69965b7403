import DependencyAudit.Proofs.Version.Neighbours
import DependencyAudit.Proofs.Version.Numbers

/-! The text of a version: numbers, and the identifiers of the pre-release and of the build metadata, each
behind a mark of their own. Reading the text gives the version back. -/
namespace DependencyAudit

namespace Version

open Text

variable {ids : List Identifier} {v : Version} {c mark : Char} {cs : List Char}

/-- The characters that the text of a version is made of. -/
def isTextChar (c : Char) : Bool := Identifier.isIdentifierChar c || c == '.' || c == '+'

theorem isBlank_of_isTextChar (h : isTextChar c = true) : isBlank c = false := by
  simp only [isTextChar, Identifier.isIdentifierChar, Char.isAlphanum, Bool.or_eq_true,
    beq_iff_eq] at h
  rcases h with (((h | h) | rfl) | rfl) | rfl
  · exact isBlank_of_isAlpha h
  · exact isBlank_of_isDigit h
  all_goals rfl

/-- The identifiers behind their mark, and nothing where there are none. -/
def marked (mark : Char) (ids : List Identifier) : List Char :=
  if ids.isEmpty then [] else mark :: dotted ids

theorem chars_eq (v : Version) : v.chars =
    dottedNumbers [v.major, v.minor, v.patch] ++ marked '-' v.pre ++ marked '+' v.build := by
  obtain ⟨major, minor, patch, pre, build⟩ := v
  cases pre <;> cases build <;> rfl

/-- What stands behind the mark, if it is there, is cut off and gives the identifiers again. -/
theorem marked?_upTo (hcs : mark ∉ cs) (h : ∀ i ∈ ids, i.isValid = true) :
    (upTo mark (cs ++ marked mark ids)).1 = cs ∧
      marked? (upTo mark (cs ++ marked mark ids)).2 = some ids := by
  by_cases hne : ids = []
  · simp [hne, marked, upTo_of_not_mem hcs, marked?]
  · have hall : ids.all (·.isValid) = true := List.all_eq_true.mpr h
    simp [marked, hne, upTo, splitOnce?_append hcs, marked?, identifiers_dotted h hne, hall]

theorem of_mem_marked (h : ∀ i ∈ ids, i.isValid = true) (hc : c ∈ marked mark ids) :
    c = mark ∨ Identifier.isIdentifierChar c = true ∨ c = '.' := by
  rw [marked] at hc
  split at hc
  · cases hc
  · exact (List.mem_cons.mp hc).imp_right (of_mem_dotted h)

theorem not_mem_marked (h : ∀ i ∈ ids, i.isValid = true) : '+' ∉ marked '-' ids :=
  fun hc => absurd (of_mem_marked h hc) (by decide)

theorem isTextChar_of_mem_chars (hv : v.IsSemver) (hc : c ∈ v.chars) : isTextChar c = true := by
  rw [chars_eq, List.mem_append, List.mem_append] at hc
  rcases hc with (hc | hc) | hc
  · rcases of_mem_dottedNumbers hc with h | rfl
    · simp [isTextChar, Identifier.isIdentifierChar, Char.isAlphanum, h]
    · rfl
  · rcases of_mem_marked (fun i hi => (hv.pre i hi).1) hc with rfl | h | rfl
    · rfl
    · simp [isTextChar, h]
    · rfl
  · rcases of_mem_marked hv.build hc with rfl | h | rfl
    · rfl
    · simp [isTextChar, h]
    · rfl

theorem startsWithDigit_chars (v : Version) : StartsWithDigit v.chars := by
  rw [chars_eq]
  exact ((startsWithDigit_dottedNumbers (by simp)).append _).append _

section Reading

variable (hv : v.IsSemver) (hw : v.Within (numberLimit - 1))
include hv hw

/-- The strict grammar reads the text of every version whose numbers have 64 bits. -/
theorem strict?_chars : strict? v.chars = some v := by
  have hpre : ∀ i ∈ v.pre, i.isValid = true := fun i hi => (hv.pre i hi).1
  have hzero : v.pre.any (·.hasLeadingZero) = false := by
    simpa using fun i hi => (hv.pre i hi).2
  have hnumbers : ∀ n ∈ [v.major, v.minor, v.patch], n < numberLimit := by
    have hpos : 0 < numberLimit := by decide
    obtain ⟨h₁, h₂, h₃⟩ := hw
    simp only [List.forall_mem_cons, List.not_mem_nil, false_imp_iff, implies_true, and_true]
    omega
  have hplus : '+' ∉ dottedNumbers [v.major, v.minor, v.patch] ++ marked '-' v.pre :=
    List.not_mem_append (not_mem_dottedNumbers (by decide) (by decide)) (not_mem_marked hpre)
  have hminus : '-' ∉ dottedNumbers [v.major, v.minor, v.patch] :=
    not_mem_dottedNumbers (by decide) (by decide)
  obtain ⟨hcore, hbuild⟩ := marked?_upTo hplus hv.build
  obtain ⟨hnumber, hmark⟩ := marked?_upTo hminus hpre
  rw [chars_eq]
  simp only [strict?, hcore, hbuild, hnumber, hmark,
    strictNumbers?_dottedNumbers (List.cons_ne_nil _ _) hnumbers]
  exact if_neg (ne_true_of_eq_false hzero)

theorem ofChars_chars : WrittenVersion.ofChars v.chars = .ok ⟨v, 3, false⟩ := by
  rw [ofChars_of_startsWithDigit (startsWithDigit_chars v)
    fun c hc => isBlank_of_isTextChar (isTextChar_of_mem_chars hv hc), strict?_chars hv hw]

end Reading

end Version
end DependencyAudit
