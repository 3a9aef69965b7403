import Mathlib.Data.List.Infix
import DependencyAudit.Proofs.Range.Notations

/-! An expression of one comparator holds what the comparator holds. A version that stands alone is
such an expression, in any of its spellings, and so it is a range of one version. -/
namespace DependencyAudit

open DependencyAudit.Relation DependencyAudit.Interval Text

/-- A text that is cut nowhere: there is no blank, no comma and no double bar in it. -/
structure IsUncut (cs : List Char) : Prop where
  not_sep : ∀ c ∈ cs, isSeparator c = false
  not_bars : ¬['|', '|'] <:+: cs

namespace IsUncut

variable {cs : List Char}

theorem iff_all : IsUncut cs ↔
    cs.all (fun c => !isSeparator c) = true ∧ ¬['|', '|'] <:+: cs := by
  simp only [List.all_eq_true, Bool.not_eq_true']
  exact ⟨fun h => ⟨h.not_sep, h.not_bars⟩, fun h => ⟨h.1, h.2⟩⟩

instance : Decidable (IsUncut cs) := decidable_of_iff _ iff_all.symm

theorem not_blank (h : IsUncut cs) : ∀ c ∈ cs, isBlank c = false := by
  intro c hc
  have hsep := h.not_sep c hc
  simp only [isSeparator, Bool.or_eq_false_iff] at hsep
  exact hsep.2

theorem of_not_mem (hsep : ∀ c ∈ cs, isSeparator c = false) (hbar : '|' ∉ cs) : IsUncut cs :=
  ⟨hsep, fun hi => hbar (hi.subset List.mem_cons_self)⟩

theorem cons {c : Char} (hc : isMark c = true) (h : IsUncut cs) : IsUncut (c :: cs) := by
  have hmark : isSeparator c = false ∧ c ≠ '|' := by
    rcases cases_of_isMark hc with rfl | rfl | rfl | rfl | rfl <;> decide
  refine ⟨List.forall_mem_cons.mpr ⟨hmark.1, h.not_sep⟩, fun hi => ?_⟩
  rcases List.infix_cons_iff.mp hi with hp | hi
  · exact hmark.2 (List.cons_prefix_cons.mp hp).1.symm
  · exact h.not_bars hi

theorem append {ms : List Char} (hms : ∀ c ∈ ms, isMark c = true) (h : IsUncut cs) :
    IsUncut (ms ++ cs) := by
  induction ms with
  | nil => exact h
  | cons c ms ih =>
    obtain ⟨hc, hms⟩ := List.forall_mem_cons.mp hms
    exact (ih hms).cons hc

end IsUncut

namespace Interval

variable {t : List Char} {i : Interval}

/-- A comparator that stands alone is read as it is, and a wildcard as everything. -/
theorem ofAlternative_single (h : IsUncut t) (hi : ofComparator t = .ok i) :
    ofAlternative t = .ok (any.intersect? i) := by
  obtain ⟨d, tail, hop, hd⟩ := exists_operand_of_ofComparator h.not_blank hi
  have hmark : t.all isMark = false := all_isMark_of_operand hop hd
  have hne : t ≠ [] := by
    rintro rfl
    cases hi
  have hwords : words isSeparator t = [t] := words_of_not_sep hne h.not_sep
  have hhyphen : splitHyphen? t = none := by
    refine splitHyphen?_eq_none ?_
    rw [hwords, List.mem_singleton]
    rintro rfl
    cases hi
  by_cases he : isEverything t = true
  · rcases cases_of_isEverything he with rfl | rfl | rfl | rfl | rfl
    all_goals cases hi
    all_goals rfl
  · rw [ofAlternative, if_neg he, hhyphen, hwords]
    simp only [ofTokens, hmark, Bool.false_eq_true, if_false, List.nil_append, hi]
    cases any.intersect? i <;> rfl

end Interval

namespace VersionRange

variable {t : List Char} {i : Interval} {P : Version → Prop}

theorem isBracketed_single (h : IsUncut t) (hi : ofComparator t = .ok i) : isBracketed t = false := by
  obtain ⟨d, tail, hop, hd⟩ := exists_operand_of_ofComparator h.not_blank hi
  have hhead := head_of_operand hop hd
  cases t with
  | nil => rfl
  | cons c t =>
    have hc := hhead c rfl
    have hs : c ≠ '[' := by
      rintro rfl
      exact absurd hc (by decide)
    have hr : c ≠ '(' := by
      rintro rfl
      exact absurd hc (by decide)
    simp [isBracketed, opening?, hs, hr]

theorem Denotes.of_trim (h : Denotes (trim t) P) : Denotes t P := by
  obtain ⟨is, his, hmean⟩ := h
  rw [trim_trim] at his
  exact ⟨is, his, hmean⟩

/-- One comparator that nothing cuts. -/
theorem denotes_single (h : IsUncut t) (hi : ofComparator t = .ok i) :
    Denotes t fun v => i.contains v = true := by
  refine ⟨[any.intersect? i].filterMap id, ?_, fun v => ?_⟩
  · rw [trim_of_not_blank h.not_blank, intervalsOf, isBracketed_single h hi,
      if_neg Bool.false_ne_true, alternatives_of_not_infix h.not_bars, List.mapM_cons,
      trim_of_not_blank h.not_blank, ofAlternative_single h hi]
    rfl
  · have hany : any.contains v = true := rfl
    rw [exists_mem_filterMap_cons, exists_mem_intersect?_iff]
    simp [hany]

/-- A relation in front of a version that nothing cuts. -/
theorem denotes_relation {p : List Char} {w : WrittenVersion} (h : IsUncut p)
    (hw : WrittenVersion.ofChars p = .ok w) (r : Relation) :
    Denotes (r.chars ++ p) fun v => (ofRelation r w).contains v = true := by
  have hmarks : ∀ c ∈ r.chars, isMark c = true := List.all_eq_true.mp (by cases r <;> decide)
  exact denotes_single (h.append hmarks) (ofComparator_chars hw r)

theorem exists_ofText_relation {p : List Char} {w : WrittenVersion} (h : IsUncut p)
    (hw : WrittenVersion.ofChars p = .ok w) (r : Relation) :
    ∃ range, ofText (String.ofList (r.chars ++ p)) = .ok range ∧
      ∀ v, range.contains v = true ↔ (ofRelation r w).contains v = true :=
  (denotes_relation h hw r).exists_ofText

/-- A text that is read as a version is read as a range too, and the range holds that version and no
other, if nothing cuts the text between the blanks around it. -/
theorem version_is_point {raw : String} {v : Version} (hv : Version.ofText raw = .ok v)
    (h : IsUncut (trim raw.toList)) :
    ∃ r, ofText raw = .ok r ∧ ∀ u, r.contains u = true ↔ u = v := by
  simp only [Version.ofText] at hv
  split at hv
  · cases hv
  · rename_i w hw
    split at hv
    · cases hv
    · rename_i hwild
      cases hv
      have hwild := Bool.eq_false_iff.mpr hwild
      have hn : 1 ≤ w.given := by
        refine (WrittenVersion.eq_or_given_pos hw).resolve_left ?_
        rintro rfl
        cases hwild
      rw [← WrittenVersion.ofChars_trim] at hw
      obtain ⟨r, hr, hmean⟩ := (denotes_relation h hw .same).of_trim.exists_ofText
      rw [String.ofList_toList] at hr
      refine ⟨r, hr, fun u => ?_⟩
      rw [hmean, ofRelation_same hn hwild, contains_exactly_iff]

/-- Blanks around the text, a letter in front, and a bracket, a bar and a mark in its qualifier. -/
theorem version_is_point_odd :
    let raw := " v1.02.rc[a|b>1 "
    let v : Version := ⟨1, 2, 0, [], [⟨"rc-a-b-1".toList⟩]⟩
    Version.ofText raw = .ok v ∧ IsUncut (trim raw.toList) ∧
      ∃ r, ofText raw = .ok r ∧ r.contains v = true ∧ r.contains (.release 1 2 0) = false := by
  intro raw v
  have hv : Version.ofText raw = .ok v := by decide +kernel
  have h : IsUncut (trim raw.toList) := by decide +kernel
  obtain ⟨r, hr, hmean⟩ := version_is_point hv h
  refine ⟨hv, h, r, hr, (hmean v).mpr rfl, Bool.eq_false_iff.mpr fun hc => ?_⟩
  exact absurd ((hmean _).mp hc) (by decide)

end VersionRange
end DependencyAudit
