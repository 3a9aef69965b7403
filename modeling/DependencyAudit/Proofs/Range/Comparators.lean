import DependencyAudit.Proofs.Range.Alternatives
import DependencyAudit.Proofs.Range.Bounds

/-! An expression of comparators, however it is spaced: an alternative holds the versions that every
one of its comparators holds, and the expression those of any alternative. -/
namespace DependencyAudit

namespace Relation

/-- The marks in front of a comparator. -/
def marks (t : List Char) : List Char := t.takeWhile isMark

/-- The version after the marks of a comparator. -/
def operand (t : List Char) : List Char := t.dropWhile isMark

@[simp]
theorem marks_append_operand (t : List Char) : marks t ++ operand t = t :=
  List.takeWhile_append_dropWhile

theorem exists_split_eq (t : List Char) :
    ∃ ms, (∀ c ∈ ms, isMark c = true) ∧ t = ms ++ (split t).2 := by
  fun_cases split t with
  | case1 cs => exact ⟨['>', '='], by simp [isMark], rfl⟩
  | case2 cs => exact ⟨['<', '='], by simp [isMark], rfl⟩
  | case3 cs => exact ⟨['=', '='], by simp [isMark], rfl⟩
  | case4 cs _ => exact ⟨['>'], by simp [isMark], rfl⟩
  | case5 cs _ => exact ⟨['<'], by simp [isMark], rfl⟩
  | case6 cs _ => exact ⟨['='], by simp [isMark], rfl⟩
  | case7 cs => exact ⟨['^'], by simp [isMark], rfl⟩
  | case8 cs => exact ⟨['~'], by simp [isMark], rfl⟩
  | case9 => exact ⟨[], by simp, rfl⟩

theorem isMark_eq_false_of_isInitial {c : Char} (h : WrittenVersion.isInitial c = true) :
    isMark c = false := by
  rw [← Bool.not_eq_true]
  intro hm
  rcases cases_of_isMark hm with rfl | rfl | rfl | rfl | rfl <;> exact absurd h (by decide)

end Relation

namespace Interval

open DependencyAudit.Relation Text

/-- A character that neither cuts an expression nor opens a bracket. -/
def isPlain (c : Char) : Bool := !(isSeparator c || c == '|' || c == '[' || c == '(')

/-- A comparator that can be read, with nothing in it that would cut it. -/
structure IsComparator (t : List Char) : Prop where
  plain : ∀ c ∈ t, isPlain c = true
  reads : ∃ i, ofComparator t = .ok i

theorem isComparator_iff {t : List Char} :
    IsComparator t ↔ t.all isPlain = true ∧ (ofComparator t).isOk = true := by
  rw [List.all_eq_true]
  constructor
  · rintro ⟨hp, i, hi⟩
    exact ⟨hp, by rw [hi]; rfl⟩
  · rintro ⟨hp, hi⟩
    cases h : ofComparator t with
    | error fault =>
      rw [h] at hi
      cases hi
    | ok i => exact ⟨hp, i, h⟩

instance (t : List Char) : Decidable (IsComparator t) := decidable_of_iff _ isComparator_iff.symm

theorem isSeparator_of_isPlain {c : Char} (h : isPlain c = true) : isSeparator c = false := by
  simp only [isPlain, Bool.not_eq_true', Bool.or_eq_false_iff] at h
  exact h.1.1.1

theorem isBlank_of_isPlain {c : Char} (h : isPlain c = true) : isBlank c = false := by
  have hs := isSeparator_of_isPlain h
  simp only [isSeparator, Bool.or_eq_false_iff] at hs
  exact hs.2

variable {t cs : List Char}

/-- The marks of a comparator that can be read are its relation, and a version follows. -/
theorem exists_operand_of_ofComparator {i : Interval} (hblank : ∀ c ∈ t, isBlank c = false)
    (hi : ofComparator t = .ok i) :
    ∃ c rest, operand t = c :: rest ∧ WrittenVersion.isInitial c = true := by
  obtain ⟨w, hw, -⟩ := ofComparator_eq_ok_iff.mp hi
  obtain ⟨ms, hms, he⟩ := exists_split_eq t
  have hrest : ∀ c ∈ (Relation.split t).2, isBlank c = false := fun c hc =>
    hblank c (he ▸ List.mem_append_right ms hc)
  obtain ⟨c, rest, hr, hc⟩ := WrittenVersion.exists_initial_of_ofChars hrest hw
  refine ⟨c, rest, ?_, hc⟩
  rw [operand, he, List.dropWhile_append_of_pos hms, hr, List.dropWhile_cons_of_neg]
  rw [isMark_eq_false_of_isInitial hc]
  exact Bool.false_ne_true

theorem IsComparator.exists_operand (h : IsComparator t) :
    ∃ c rest, operand t = c :: rest ∧ WrittenVersion.isInitial c = true := by
  obtain ⟨i, hi⟩ := h.reads
  exact exists_operand_of_ofComparator (fun c hc => isBlank_of_isPlain (h.plain c hc)) hi

section Operand

variable {d : Char} {tail : List Char} (hop : operand t = d :: tail)
  (hd : WrittenVersion.isInitial d = true)
include hop hd

theorem all_isMark_of_operand : t.all isMark = false := by
  rw [← marks_append_operand t, List.all_append, hop, List.all_cons,
    isMark_eq_false_of_isInitial hd, Bool.false_and, Bool.and_false]

/-- A comparator starts as its relation or its version does. -/
theorem head_of_operand :
    ∀ c ∈ t.head?, isMark c = true ∨ WrittenVersion.isInitial c = true := by
  intro c hc
  rw [← marks_append_operand t, List.head?_append, hop] at hc
  rcases Option.or_eq_some_iff.mp hc with hc | ⟨-, hc⟩
  · exact Or.inl (List.mem_takeWhile_imp (List.mem_of_mem_head? hc))
  · cases hc
    exact Or.inr hd

end Operand

theorem IsComparator.not_sep (h : IsComparator t) : ∀ c ∈ t, isSeparator c = false :=
  fun c hc => isSeparator_of_isPlain (h.plain c hc)

theorem IsComparator.words_eq (h : IsComparator t) : words isSeparator t = [t] := by
  obtain ⟨c, rest, hop, -⟩ := h.exists_operand
  refine words_of_not_sep (fun hnil => ?_) h.not_sep
  rw [hnil] at hop
  cases hop

theorem IsComparator.words_operand (h : IsComparator t) :
    words isSeparator (operand t) = [operand t] := by
  obtain ⟨c, rest, hop, -⟩ := h.exists_operand
  refine words_of_not_sep (hop ▸ List.cons_ne_nil c rest) fun c hc => h.not_sep c ?_
  exact (List.dropWhile_suffix isMark).mem hc

theorem IsComparator.words_marks (h : IsComparator t) (hm : marks t ≠ []) :
    words isSeparator (marks t) = [marks t] :=
  words_of_not_sep hm fun c hc => h.not_sep c ((List.takeWhile_prefix isMark).mem hc)

/-- A comparator in a text: blanks may stand between its relation and its version. -/
def SpellsComparator (t cs : List Char) : Prop :=
  ∃ gap, (∀ c ∈ gap, isBlank c = true) ∧ cs = marks t ++ (gap ++ operand t)

theorem spellsComparator_self (t : List Char) : SpellsComparator t t := ⟨[], by simp, by simp⟩

/-- Blanks after the marks make two words of a comparator, and none otherwise. -/
theorem words_of_spellsComparator (ht : IsComparator t) (h : SpellsComparator t cs) :
    words isSeparator cs = [t] ∨ words isSeparator cs = [marks t, operand t] := by
  obtain ⟨gap, hgap, rfl⟩ := h
  by_cases hg : gap = []
  · rw [hg, List.nil_append, marks_append_operand]
    exact Or.inl ht.words_eq
  · have hgap := fun c hc => isSeparator_of_isBlank (hgap c hc)
    by_cases hm : marks t = []
    · have hwhole : operand t = t := by rw [← List.nil_append (operand t), ← hm, marks_append_operand]
      rw [hm, List.nil_append, words_append_of_sep hgap, hwhole]
      exact Or.inl ht.words_eq
    · rw [words_append_run hg hgap, ht.words_marks hm, ht.words_operand]
      exact Or.inr rfl

theorem all_isMark_operand (ht : IsComparator t) : (operand t).all isMark = false := by
  obtain ⟨c, tail, hop, hc⟩ := ht.exists_operand
  rw [hop, List.all_cons, isMark_eq_false_of_isInitial hc, Bool.false_and]

theorem all_isMark_of_isComparator (ht : IsComparator t) : t.all isMark = false := by
  obtain ⟨c, tail, hop, hc⟩ := ht.exists_operand
  exact all_isMark_of_operand hop hc

/-- A comparator that is spaced is read as the comparator. -/
theorem ofTokens_of_spellsComparator (ht : IsComparator t) (h : SpellsComparator t cs)
    (acc : Interval) (rest : List (List Char)) :
    ofTokens acc [] (words isSeparator cs ++ rest) = ofTokens acc [] (t :: rest) := by
  rcases words_of_spellsComparator ht h with hw | hw
  · rw [hw, List.singleton_append]
  · have hmarks : (marks t).all isMark = true := List.all_takeWhile
    simp only [hw, List.cons_append, List.nil_append, ofTokens, hmarks, if_true,
      all_isMark_operand ht, all_isMark_of_isComparator ht, Bool.false_eq_true, if_false,
      marks_append_operand]

/-- Whether a version is in the interval of a comparator. -/
def Satisfies (t : List Char) (v : Version) : Prop :=
  ∃ i, ofComparator t = .ok i ∧ i.contains v = true

theorem satisfies_iff {i : Interval} (hi : ofComparator t = .ok i) (v : Version) :
    Satisfies t v ↔ i.contains v = true := by
  simp [Satisfies, hi]

/-- Comparators in a text, with commas and blanks between them; behind the last there may be none. -/
inductive SpellsSet : List (List Char) → List Char → Prop
  | nil : SpellsSet [] []
  | cons {t : List Char} {ts : List (List Char)} {cs seps rest : List Char}
      (first : SpellsComparator t cs) (sep : ∀ c ∈ seps, isSeparator c = true)
      (cut : ts ≠ [] → seps ≠ []) (more : SpellsSet ts rest) :
      SpellsSet (t :: ts) (cs ++ (seps ++ rest))

theorem spellsSet_singleton (t : List Char) : SpellsSet [t] t := by
  have h : SpellsSet [t] (t ++ ([] ++ [])) :=
    .cons (spellsComparator_self t) (by simp) (by simp) .nil
  rwa [List.append_nil, List.append_nil] at h

variable {ts : List (List Char)}

theorem words_of_cut {seps rest : List Char} (hsep : ∀ c ∈ seps, isSeparator c = true)
    (hcut : ts ≠ [] → seps ≠ []) (h : SpellsSet ts rest) (cs : List Char) :
    words isSeparator (cs ++ (seps ++ rest)) = words isSeparator cs ++ words isSeparator rest := by
  cases h with
  | nil => rw [List.append_nil, words_append_sep hsep]; exact (List.append_nil _).symm
  | cons => exact words_append_run (hcut (List.cons_ne_nil _ _)) hsep cs _

/-- The set is read to the end, and each comparator cuts down what it holds. -/
theorem ofTokens_of_spellsSet (hts : ∀ t ∈ ts, IsComparator t) (h : SpellsSet ts cs)
    (acc : Interval) : ∃ o, ofTokens acc [] (words isSeparator cs) = .ok o ∧
      ∀ v, (∃ i ∈ o, i.contains v = true) ↔
        acc.contains v = true ∧ ∀ t ∈ ts, Satisfies t v := by
  induction h generalizing acc with
  | nil => exact ⟨some acc, rfl, by simp⟩
  | @cons t ts cs seps rest first sep cut more ih =>
    obtain ⟨ht, hts⟩ := List.forall_mem_cons.mp hts
    obtain ⟨i, hi⟩ := ht.reads
    rw [words_of_cut sep cut more, ofTokens_of_spellsComparator ht first]
    simp only [ofTokens, all_isMark_of_isComparator ht, Bool.false_eq_true, if_false,
      List.nil_append, hi, List.forall_mem_cons, satisfies_iff hi]
    cases hn : acc.intersect? i with
    | none =>
      -- Reading stops here: whatever the other comparators say, no version satisfies this one too.
      refine ⟨none, rfl, fun v => ?_⟩
      have hv := contains_of_intersect?_eq_none hn v
      grind
    | some next =>
      obtain ⟨o, ho, hmean⟩ := ih hts next
      refine ⟨o, ho, fun v => ?_⟩
      rw [hmean v, contains_of_intersect? hn v, Bool.and_eq_true, and_assoc]

/-- Every word starts as a relation or a version does. -/
theorem head_of_spellsComparator (ht : IsComparator t) (h : SpellsComparator t cs) :
    ∀ w ∈ words isSeparator cs, ∀ c ∈ w.head?,
      isMark c = true ∨ WrittenVersion.isInitial c = true := by
  obtain ⟨d, tail, hop, hd⟩ := ht.exists_operand
  have hmarks : ∀ c ∈ (marks t).head?, isMark c = true := fun c hc =>
    List.mem_takeWhile_imp (List.mem_of_mem_head? hc)
  have hoperand : ∀ c ∈ (operand t).head?, WrittenVersion.isInitial c = true := by
    rw [hop]
    simpa using hd
  intro w hw c hc
  rcases words_of_spellsComparator ht h with he | he
  · obtain rfl := List.mem_singleton.mp (he ▸ hw)
    exact head_of_operand hop hd c hc
  · rcases List.mem_pair.mp (he ▸ hw) with rfl | rfl
    · exact Or.inl (hmarks c hc)
    · exact Or.inr (hoperand c hc)

theorem head_of_spellsSet (hts : ∀ t ∈ ts, IsComparator t) (h : SpellsSet ts cs) :
    ∀ w ∈ words isSeparator cs, ∀ c ∈ w.head?,
      isMark c = true ∨ WrittenVersion.isInitial c = true := by
  induction h with
  | nil => intro w hw; cases hw
  | @cons t ts cs seps rest first sep cut more ih =>
    obtain ⟨ht, hts⟩ := List.forall_mem_cons.mp hts
    rw [words_of_cut sep cut more, List.forall_mem_append]
    exact ⟨head_of_spellsComparator ht first, ih hts⟩

theorem isPlain_of_spellsSet (hts : ∀ t ∈ ts, IsComparator t) (h : SpellsSet ts cs) :
    ∀ c ∈ cs, isSeparator c = true ∨ isPlain c = true := by
  induction h with
  | nil => simp
  | @cons t ts cs seps rest first sep cut more ih =>
    obtain ⟨ht, hts⟩ := List.forall_mem_cons.mp hts
    obtain ⟨gap, hgap, rfl⟩ := first
    simp only [List.forall_mem_append]
    refine ⟨⟨fun c hc => Or.inr (ht.plain c ?_), fun c hc => Or.inl ?_,
      fun c hc => Or.inr (ht.plain c ?_)⟩, fun c hc => Or.inl (sep c hc), ih hts⟩
    · exact (List.takeWhile_prefix isMark).mem hc
    · exact isSeparator_of_isBlank (hgap c hc)
    · exact (List.dropWhile_suffix isMark).mem hc

/-- A set in a text, where commas and blanks may stand around it. -/
def SpellsAlternative (ts : List (List Char)) (cs : List Char) : Prop :=
  ∃ seps core, (∀ c ∈ seps, isSeparator c = true) ∧ SpellsSet ts core ∧ cs = seps ++ core

theorem SpellsSet.spellsAlternative (h : SpellsSet ts cs) : SpellsAlternative ts cs :=
  ⟨[], cs, by simp, h, rfl⟩

theorem SpellsAlternative.isPlain (hts : ∀ t ∈ ts, IsComparator t) (h : SpellsAlternative ts cs) :
    ∀ c ∈ cs, isSeparator c = true ∨ isPlain c = true := by
  obtain ⟨seps, core, hsep, hcore, rfl⟩ := h
  exact List.forall_mem_append.mpr
    ⟨fun c hc => Or.inl (hsep c hc), isPlain_of_spellsSet hts hcore⟩

theorem SpellsAlternative.words_ne (hts : ∀ t ∈ ts, IsComparator t) (h : SpellsAlternative ts cs) :
    ['-'] ∉ words isSeparator cs ∧ ['l', 'a', 't', 'e', 's', 't'] ∉ words isSeparator cs := by
  obtain ⟨seps, core, hsep, hcore, rfl⟩ := h
  rw [words_append_of_sep hsep]
  have hhead := head_of_spellsSet hts hcore
  exact ⟨fun hw => absurd (hhead _ hw '-' rfl) (by decide),
    fun hw => absurd (hhead _ hw 'l' rfl) (by decide)⟩

theorem SpellsAlternative.exists_ofTokens (hts : ∀ t ∈ ts, IsComparator t)
    (h : SpellsAlternative ts cs) : ∃ o, ofTokens any [] (words isSeparator cs) = .ok o ∧
      ∀ v, (∃ i ∈ o, i.contains v = true) ↔ ∀ t ∈ ts, Satisfies t v := by
  obtain ⟨seps, core, hsep, hcore, rfl⟩ := h
  obtain ⟨o, ho, hmean⟩ := ofTokens_of_spellsSet hts hcore any
  refine ⟨o, by rw [words_append_of_sep hsep, ho], fun v => ?_⟩
  rw [hmean v]
  exact and_iff_right rfl

end Interval

namespace VersionRange

open DependencyAudit.Interval Text

/-- Alternatives in a text, with double bars between them. -/
inductive SpellsAlternatives : List (List (List Char)) → List Char → Prop
  | single {ts : List (List Char)} {cs : List Char} (last : SpellsAlternative ts cs) :
      SpellsAlternatives [ts] cs
  | cons {ts : List (List Char)} {sets : List (List (List Char))} {cs rest : List Char}
      (first : SpellsAlternative ts cs) (more : SpellsAlternatives sets rest) :
      SpellsAlternatives (ts :: sets) (cs ++ '|' :: '|' :: rest)

variable {sets : List (List (List Char))} {text : List Char}

/-- The bars cut a text into its alternatives, and nowhere else. -/
theorem SpellsAlternatives.forall₂ (hs : ∀ ts ∈ sets, ∀ t ∈ ts, IsComparator t)
    (h : SpellsAlternatives sets text) :
    List.Forall₂ SpellsAlternative sets (alternatives text) := by
  have hbar : ¬(isSeparator '|' = true ∨ isPlain '|' = true) := by decide
  induction h with
  | @single ts cs last =>
    have hts := hs ts List.mem_cons_self
    rw [alternatives_of_not_mem fun hm => hbar (last.isPlain hts _ hm)]
    exact .cons last .nil
  | @cons ts sets cs rest first more ih =>
    obtain ⟨hts, hs⟩ := List.forall_mem_cons.mp hs
    rw [alternatives_append_bars fun hm => hbar (first.isPlain hts _ hm)]
    exact .cons first (ih hs)

theorem SpellsAlternatives.isPlain_or_bar (hs : ∀ ts ∈ sets, ∀ t ∈ ts, IsComparator t)
    (h : SpellsAlternatives sets text) :
    ∀ c ∈ text, (isSeparator c = true ∨ isPlain c = true) ∨ c = '|' := by
  induction h with
  | @single ts cs last =>
    exact fun c hc => Or.inl (last.isPlain (hs ts List.mem_cons_self) c hc)
  | @cons ts sets cs rest first more ih =>
    obtain ⟨hts, hs⟩ := List.forall_mem_cons.mp hs
    rw [List.forall_mem_append, List.forall_mem_cons, List.forall_mem_cons]
    exact ⟨fun c hc => Or.inl (first.isPlain hts c hc), Or.inr rfl, Or.inr rfl, ih hs⟩

theorem SpellsAlternatives.not_mem (hs : ∀ ts ∈ sets, ∀ t ∈ ts, IsComparator t)
    (h : SpellsAlternatives sets text) : '[' ∉ text ∧ '(' ∉ text :=
  ⟨fun hm => absurd (h.isPlain_or_bar hs _ hm) (by decide),
    fun hm => absurd (h.isPlain_or_bar hs _ hm) (by decide)⟩

theorem exists_mem_filterMap_cons {P : Interval → Prop} (o : Option Interval)
    (os : List (Option Interval)) : (∃ i ∈ (o :: os).filterMap id, P i) ↔
      (∃ i ∈ o, P i) ∨ ∃ i ∈ os.filterMap id, P i := by
  cases o <;> simp

/-- What the alternatives hold is what the expression holds; a contradictory one adds nothing. -/
theorem exists_mapM_of_forall₂ {alts : List (List Char)}
    (hs : ∀ ts ∈ sets, ∀ t ∈ ts, IsComparator t) (h : List.Forall₂ SpellsAlternative sets alts) :
    ∃ os, (alts.map (words isSeparator)).mapM (ofTokens .any []) = .ok os ∧
      ∀ v, (∃ i ∈ os.filterMap id, i.contains v = true) ↔
        ∃ ts ∈ sets, ∀ t ∈ ts, Satisfies t v := by
  induction h with
  | nil => exact ⟨[], rfl, by simp⟩
  | @cons ts cs sets alts first more ih =>
    obtain ⟨hts, hs⟩ := List.forall_mem_cons.mp hs
    obtain ⟨o, ho, hmean⟩ := first.exists_ofTokens hts
    obtain ⟨os, hos, hmore⟩ := ih hs
    refine ⟨o :: os, mapM_eq_ok_iff.mpr (.cons ho (mapM_eq_ok_iff.mp hos)), fun v => ?_⟩
    rw [List.exists_mem_cons_iff, ← hmean v, ← hmore v, exists_mem_filterMap_cons]

/-- The text can be read, and holds the versions that satisfy `P`. -/
def Denotes (text : List Char) (P : Version → Prop) : Prop :=
  ∃ is, intervalsOf (trim text) = .ok is ∧ ∀ v, (∃ i ∈ is, i.contains v = true) ↔ P v

theorem Denotes.exists_ofText {P : Version → Prop} (h : Denotes text P) :
    ∃ r, ofText (String.ofList text) = .ok r ∧ ∀ v, r.contains v = true ↔ P v := by
  obtain ⟨is, his, hmean⟩ := h
  refine ⟨⟨is⟩, by rw [ofText, String.toList_ofList, his], fun v => ?_⟩
  rw [contains_iff, hmean v]

theorem SpellsAlternatives.denotes (hs : ∀ ts ∈ sets, ∀ t ∈ ts, IsComparator t)
    (h : SpellsAlternatives sets text) :
    Denotes text fun v => ∃ ts ∈ sets, ∀ t ∈ ts, Satisfies t v := by
  have halts := h.forall₂ hs
  have hwords : ∀ ws ∈ (alternatives text).map (words isSeparator),
      ['-'] ∉ ws ∧ ['l', 'a', 't', 'e', 's', 't'] ∉ ws := by
    intro ws hws
    obtain ⟨cs, hcs, rfl⟩ := List.mem_map.mp hws
    obtain ⟨ts, hts, hspell⟩ := exists_of_mem_forall₂ halts hcs
    exact hspell.words_ne (hs ts hts)
  obtain ⟨os, hos, hmean⟩ := exists_mapM_of_forall₂ hs halts
  refine ⟨os.filterMap id, ?_, hmean⟩
  rw [intervalsOf_trim (h.not_mem hs) hwords, hos]
  rfl

/-- Comparators that can be read, with commas and blanks between them, are a conjunction, and
alternatives with double bars between them a disjunction: the expression can be read, and holds the
versions that satisfy every comparator of some alternative. -/
theorem comparators_and_alternatives (hs : ∀ ts ∈ sets, ∀ t ∈ ts, IsComparator t)
    (h : SpellsAlternatives sets text) : ∃ r, ofText (String.ofList text) = .ok r ∧
      ∀ v, r.contains v = true ↔ ∃ ts ∈ sets, ∀ t ∈ ts, Satisfies t v :=
  (h.denotes hs).exists_ofText

/-- A contradictory alternative beside one whose relation is spaced. -/
theorem comparators_and_alternatives_spaced :
    let sets := [[">=1.2".toList, "<2".toList], ["=1".toList, "=3".toList]]
    let text := ">= 1.2 , <2||=1 =3".toList
    (∀ ts ∈ sets, ∀ t ∈ ts, IsComparator t) ∧ SpellsAlternatives sets text ∧
      ∃ r, ofText (String.ofList text) = .ok r ∧
        ∀ v, r.contains v = true ↔ ∃ ts ∈ sets, ∀ t ∈ ts, Satisfies t v := by
  intro sets text
  have hs : ∀ ts ∈ sets, ∀ t ∈ ts, IsComparator t := by decide +kernel
  have hspaced : SpellsComparator ">=1.2".toList ">= 1.2".toList :=
    ⟨[' '], by simp [isBlank], by decide +kernel⟩
  have hcomma : ∀ c ∈ " , ".toList, isSeparator c = true :=
    List.all_eq_true.mp (by decide +kernel)
  have hblank : ∀ c ∈ [' '], isSeparator c = true := by simp [isSeparator, isBlank]
  have hfirst : SpellsSet [">=1.2".toList, "<2".toList] ">= 1.2 , <2".toList :=
    .cons hspaced hcomma (by decide +kernel) (spellsSet_singleton "<2".toList)
  have hsecond : SpellsSet ["=1".toList, "=3".toList] "=1 =3".toList :=
    .cons (spellsComparator_self "=1".toList) hblank (by simp) (spellsSet_singleton "=3".toList)
  have h : SpellsAlternatives sets text :=
    .cons hfirst.spellsAlternative (.single hsecond.spellsAlternative)
  exact ⟨hs, h, comparators_and_alternatives hs h⟩

end VersionRange
end DependencyAudit
