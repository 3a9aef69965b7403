import DependencyAudit.Proofs.Text.Pieces
import DependencyAudit.Range.Basic

/-! How an expression without brackets is cut: into alternatives at the double bars, and into words at
commas and blanks. Where no word is a lone hyphen, only the words of the alternatives count. -/
namespace DependencyAudit

theorem Interval.isSeparator_of_isBlank {c : Char} (h : Text.isBlank c = true) :
    isSeparator c = true := by
  simp [isSeparator, h]

theorem Interval.cases_of_isEverything {cs : List Char} (h : isEverything cs = true) :
    cs = [] ∨ cs = ['x'] ∨ cs = ['X'] ∨ cs = ['*'] ∨ cs = ['l', 'a', 't', 'e', 's', 't'] := by
  simpa [isEverything, Version.isWildcard, or_assoc] using h

theorem Relation.cases_of_isMark {c : Char} (h : isMark c = true) :
    c = '<' ∨ c = '>' ∨ c = '=' ∨ c = '^' ∨ c = '~' := by
  simpa [isMark, or_assoc] using h

namespace VersionRange

open Text

theorem alternatives_ne_nil (cs : List Char) : alternatives cs ≠ [] := by
  fun_cases alternatives cs <;> simp_all

theorem alternatives_cons {c : Char} (hc : c ≠ '|') (cs : List Char) :
    alternatives (c :: cs) = (alternatives cs).modifyHead (c :: ·) := by
  cases cs with
  | nil => rfl
  | cons d cs =>
    obtain ⟨w, ws, hw⟩ := List.exists_cons_of_ne_nil (alternatives_ne_nil (d :: cs))
    rw [alternatives, if_neg fun h => hc h.1, hw, List.modifyHead_cons]

/-- A text without bars in front belongs to the first alternative. -/
theorem alternatives_append {w : List Char} (hw : '|' ∉ w) (cs : List Char) :
    alternatives (w ++ cs) = (alternatives cs).modifyHead (w ++ ·) := by
  induction w with
  | nil =>
    rw [List.nil_append]
    cases alternatives cs <;> rfl
  | cons c w ih =>
    rw [List.mem_cons, not_or] at hw
    rw [List.cons_append, alternatives_cons (Ne.symm hw.1), ih hw.2, List.modifyHead_modifyHead]
    rfl

theorem alternatives_of_not_mem {w : List Char} (hw : '|' ∉ w) : alternatives w = [w] := by
  have h := alternatives_append hw []
  rwa [List.append_nil, alternatives, List.modifyHead_cons, List.append_nil] at h

theorem alternatives_append_bars {w : List Char} (hw : '|' ∉ w) (cs : List Char) :
    alternatives (w ++ '|' :: '|' :: cs) = w :: alternatives cs := by
  rw [alternatives_append hw, alternatives, if_pos ⟨rfl, rfl⟩, List.modifyHead_cons,
    List.append_nil]

theorem alternatives_cons_of_not_mem (c : Char) {w : List Char} (hw : '|' ∉ w) :
    alternatives (c :: w) = [c :: w] := by
  cases w with
  | nil => rfl
  | cons d w =>
    have hd : d ≠ '|' := fun h => hw (h ▸ List.mem_cons_self)
    rw [alternatives, if_neg fun h => hd h.2, alternatives_of_not_mem hw]

/-- Single bars cut nothing. -/
theorem alternatives_of_not_infix {cs : List Char} (h : ¬['|', '|'] <:+: cs) :
    alternatives cs = [cs] := by
  fun_induction alternatives cs with
  | case1 => rfl
  | case2 c => rfl
  | case3 c d cs hbars ih =>
    obtain ⟨rfl, rfl⟩ := hbars
    exact absurd (List.prefix_append ['|', '|'] cs).isInfix h
  | case4 c d cs _ hn ih => exact absurd hn (alternatives_ne_nil _)
  | case5 c d cs _ w ws he ih =>
    have halone := ih fun hi => h (List.infix_cons hi)
    rw [he, List.cons.injEq] at halone
    rw [halone.1, halone.2]

/-- A text without bars at the end belongs to the last alternative. -/
theorem exists_alternatives_append {w : List Char} (hw : '|' ∉ w) (cs : List Char) :
    ∃ before last, alternatives cs = before ++ [last] ∧
      alternatives (cs ++ w) = before ++ [last ++ w] := by
  fun_induction alternatives cs with
  | case1 => exact ⟨[], [], rfl, alternatives_of_not_mem hw⟩
  | case2 c => exact ⟨[], [c], rfl, alternatives_cons_of_not_mem c hw⟩
  | case3 c d cs h ih =>
    obtain ⟨before, last, he, hmore⟩ := ih
    refine ⟨[] :: before, last, by rw [he, List.cons_append], ?_⟩
    rw [List.cons_append, List.cons_append, alternatives, if_pos h, hmore, List.cons_append]
  | case4 c d cs h hn ih => exact absurd hn (alternatives_ne_nil _)
  | case5 c d cs h v vs he ih =>
    obtain ⟨before, last, hlast, hmore⟩ := ih
    rw [List.cons_append] at hmore
    rw [List.cons_append, List.cons_append, alternatives, if_neg h, hmore]
    cases before with
    | nil =>
      rw [he, List.nil_append, List.cons.injEq] at hlast
      obtain ⟨rfl, rfl⟩ := hlast
      exact ⟨[], c :: v, rfl, rfl⟩
    | cons u before =>
      rw [he, List.cons_append, List.cons.injEq] at hlast
      obtain ⟨rfl, rfl⟩ := hlast
      exact ⟨(c :: v) :: before, last, rfl, rfl⟩

theorem not_mem_of_isBlank {w : List Char} (hw : ∀ c ∈ w, isBlank c = true) : '|' ∉ w :=
  fun h => absurd (hw '|' h) (by decide)

/-- Trimming an expression leaves the words of each alternative as they are. -/
theorem map_words_alternatives_trim (cs : List Char) :
    (alternatives (trim cs)).map (words Interval.isSeparator) =
      (alternatives cs).map (words Interval.isSeparator) := by
  obtain ⟨left, right, he, hl, hr⟩ := exists_trim cs
  have hleft := fun c hc => Interval.isSeparator_of_isBlank (hl c hc)
  have hright := fun c hc => Interval.isSeparator_of_isBlank (hr c hc)
  obtain ⟨before, last, hb, hmore⟩ :=
    exists_alternatives_append (not_mem_of_isBlank hr) (trim cs)
  calc (alternatives (trim cs)).map (words Interval.isSeparator)
      = (alternatives (left ++ (trim cs ++ right))).map (words Interval.isSeparator) := by
        rw [alternatives_append (not_mem_of_isBlank hl), hmore, hb]
        cases before <;> simp [words_append_of_sep hleft, words_append_sep hright]
    _ = (alternatives cs).map (words Interval.isSeparator) := by rw [← he]

theorem words_trim (cs : List Char) :
    words Interval.isSeparator (trim cs) = words Interval.isSeparator cs := by
  obtain ⟨left, right, he, hl, hr⟩ := exists_trim cs
  calc words Interval.isSeparator (trim cs)
      = words Interval.isSeparator (left ++ (trim cs ++ right)) := by
        rw [words_append_of_sep fun c hc => Interval.isSeparator_of_isBlank (hl c hc),
          words_append_sep fun c hc => Interval.isSeparator_of_isBlank (hr c hc)]
    _ = words Interval.isSeparator cs := by rw [← he]

end VersionRange

namespace Interval

open Text

theorem eq_of_splitHyphen? {cs a b : List Char} (h : splitHyphen? cs = some (a, b)) :
    cs = a ++ ' ' :: '-' :: ' ' :: b := by
  induction cs generalizing a with
  | nil => cases h
  | cons c cs ih =>
    unfold splitHyphen? at h
    split at h
    · cases h
      rfl
    · obtain ⟨⟨a', b'⟩, hm, he⟩ := Option.map_eq_some_iff.mp h
      cases he
      rw [ih hm, List.cons_append]

theorem splitHyphen?_append {a : List Char} (ha : ' ' ∉ a) (b : List Char) :
    splitHyphen? (a ++ ' ' :: '-' :: ' ' :: b) = some (a, b) := by
  induction a with
  | nil => rfl
  | cons c a ih =>
    rw [List.mem_cons, not_or] at ha
    rw [List.cons_append]
    unfold splitHyphen?
    split
    · exact absurd rfl ha.1
    · rw [ih ha.2, Option.map_some]

/-- The hyphen of a hyphen range is a word of its own. -/
theorem splitHyphen?_eq_none {cs : List Char} (h : ['-'] ∉ words isSeparator cs) :
    splitHyphen? cs = none := by
  rw [Option.eq_none_iff_forall_ne_some]
  rintro ⟨a, b⟩ hs
  refine h ?_
  have hwords : words isSeparator cs = words isSeparator a ++ ([['-']] ++ words isSeparator b) := by
    rw [eq_of_splitHyphen? hs, words_append (by decide)]
    exact congrArg _ (words_append (by decide : isSeparator ' ' = true) ['-'] b)
  rw [hwords]
  simp

/-- The words decide what an alternative means, where none of them is a hyphen or a name. -/
theorem ofAlternative_trim {cs : List Char} (hh : ['-'] ∉ words isSeparator cs)
    (hl : ['l', 'a', 't', 'e', 's', 't'] ∉ words isSeparator cs) :
    ofAlternative (trim cs) = ofTokens any [] (words isSeparator cs) := by
  rw [← VersionRange.words_trim cs] at hh hl ⊢
  generalize trim cs = cs at hh hl ⊢
  rw [ofAlternative, splitHyphen?_eq_none hh]
  by_cases he : isEverything cs = true
  · rw [if_pos he]
    rcases cases_of_isEverything he with rfl | rfl | rfl | rfl | rfl
    · rfl
    · rfl
    · rfl
    · rfl
    · exact absurd List.mem_cons_self hl
  · rw [if_neg he]

end Interval

namespace VersionRange

open Text

theorem isBracketed_of_not_mem {cs : List Char} (h : '[' ∉ cs ∧ '(' ∉ cs) :
    isBracketed cs = false := by
  obtain ⟨hsquare, hround⟩ := h
  cases cs with
  | nil => rfl
  | cons c cs =>
    have hs : c ≠ '[' := fun e => hsquare (e ▸ List.mem_cons_self)
    have hr : c ≠ '(' := fun e => hround (e ▸ List.mem_cons_self)
    simp [isBracketed, Interval.opening?, hs, hr]

theorem mapM_congr {ε α β : Type} {f g : α → Except ε β} {xs : List α}
    (h : ∀ x ∈ xs, f x = g x) : xs.mapM f = xs.mapM g := by
  induction xs with
  | nil => rfl
  | cons x xs ih =>
    rw [List.mapM_cons, List.mapM_cons, h x List.mem_cons_self,
      ih fun y hy => h y (List.mem_cons_of_mem _ hy)]

/-- Only the words of its alternatives count in an expression without brackets, where none of them is
a hyphen or a name. -/
theorem intervalsOf_trim {cs : List Char} (hb : '[' ∉ cs ∧ '(' ∉ cs)
    (hw : ∀ ws ∈ (alternatives cs).map (words Interval.isSeparator),
      ['-'] ∉ ws ∧ ['l', 'a', 't', 'e', 's', 't'] ∉ ws) :
    intervalsOf (trim cs) =
      (((alternatives cs).map (words Interval.isSeparator)).mapM (Interval.ofTokens .any [])).map
        (·.filterMap id) := by
  have hbracket : isBracketed (trim cs) = false :=
    isBracketed_of_not_mem ⟨fun h => hb.1 (mem_of_mem_trim h), fun h => hb.2 (mem_of_mem_trim h)⟩
  rw [← map_words_alternatives_trim] at hw ⊢
  have hread : (alternatives (trim cs)).mapM (fun a => Interval.ofAlternative (trim a)) =
      (alternatives (trim cs)).mapM (Interval.ofTokens .any [] ∘ words Interval.isSeparator) := by
    refine mapM_congr fun a ha => ?_
    have ha := hw _ (List.mem_map_of_mem ha)
    exact Interval.ofAlternative_trim ha.1 ha.2
  rw [intervalsOf, hbracket, if_neg Bool.false_ne_true, List.mapM_map, hread]
  cases (alternatives (trim cs)).mapM (Interval.ofTokens .any [] ∘ words Interval.isSeparator) <;>
    rfl

end VersionRange
end DependencyAudit
