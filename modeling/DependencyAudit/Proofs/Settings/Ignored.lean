import DependencyAudit.Proofs.Text.Pieces
import DependencyAudit.Settings.Ignored

/-! A pattern accepts the texts of its language and no others, although each of its parts is looked for
only once: what follows the first place where a part stands leaves the most room for the others. -/
namespace DependencyAudit

namespace Text

theorem eq_of_afterFirst? {part cs rest : List Char} (h : afterFirst? part cs = some rest) :
    ∃ gap, cs = gap ++ (part ++ rest) := by
  induction cs with
  | nil =>
    rw [afterFirst?] at h
    split at h
    · rename_i hpart
      cases h
      exact ⟨[], by rw [List.isEmpty_iff.mp hpart]; rfl⟩
    · cases h
  | cons c cs ih =>
    rw [afterFirst?] at h
    split at h
    · rename_i hpart
      obtain ⟨left, hleft⟩ := List.isPrefixOf_iff_prefix.mp hpart
      rw [← hleft, List.drop_left, Option.some_inj] at h
      exact ⟨[], by rw [← hleft, h]; rfl⟩
    · obtain ⟨gap, rfl⟩ := ih h
      exact ⟨c :: gap, rfl⟩

theorem afterFirst?_append_self (part rest : List Char) :
    afterFirst? part (part ++ rest) = some rest := by
  cases hcs : part ++ rest with
  | nil =>
    obtain ⟨rfl, rfl⟩ := List.append_eq_nil_iff.mp hcs
    rfl
  | cons c cs =>
    have hpart : part.isPrefixOf (c :: cs) = true := List.isPrefixOf_iff_prefix.mpr ⟨rest, hcs⟩
    rw [afterFirst?, if_pos hpart, ← hcs, List.drop_left]

/-- The first place leaves all that any other place leaves, and what stands between the two besides. -/
theorem exists_afterFirst? (gap part rest : List Char) :
    ∃ more, afterFirst? part (gap ++ (part ++ rest)) = some (more ++ rest) := by
  induction gap with
  | nil => exact ⟨[], afterFirst?_append_self part rest⟩
  | cons c gap ih =>
    rw [List.cons_append, afterFirst?]
    split
    · refine ⟨(c :: (gap ++ part)).drop part.length, ?_⟩
      have hlength : part.length ≤ (c :: (gap ++ part)).length := by
        simp only [List.length_cons, List.length_append]
        omega
      rw [← List.drop_append_of_le_length hlength, List.cons_append, List.append_assoc]
    · exact ih

end Text

namespace Glob

/-- The language of a pattern: a star stands for any text, also the empty one, and every other character
for itself. -/
inductive Matches : List Char → List Char → Prop
  | nil : Matches [] []
  | star (gap : List Char) {pattern cs : List Char} (h : Matches pattern cs) :
      Matches ('*' :: pattern) (gap ++ cs)
  | letter {c : Char} (hc : c ≠ '*') {pattern cs : List Char} (h : Matches pattern cs) :
      Matches (c :: pattern) (c :: cs)

/-- The parts stand one after another, with any text between each two. -/
inductive Joined : List (List Char) → List Char → Prop
  | last (part : List Char) : Joined [part] part
  | cons (part gap : List Char) {parts : List (List Char)} {cs : List Char} (h : Joined parts cs) :
      Joined (part :: parts) (part ++ (gap ++ cs))

/-- The parts stand one after another, with any text before, between and behind them. -/
inductive Spread : List (List Char) → List Char → Prop
  | nil (rest : List Char) : Spread [] rest
  | cons (gap part : List Char) {parts : List (List Char)} {cs : List Char} (h : Spread parts cs) :
      Spread (part :: parts) (gap ++ (part ++ cs))

variable {parts : List (List Char)} {first last cs : List Char}

theorem Spread.append_left (h : Spread parts cs) (more : List Char) : Spread parts (more ++ cs) := by
  cases h with
  | nil => exact .nil _
  | cons gap part h =>
    rw [← List.append_assoc]
    exact .cons (more ++ gap) part h

theorem inOrder_iff : inOrder parts cs = true ↔ Spread parts cs := by
  induction parts generalizing cs with
  | nil => exact iff_of_true rfl (.nil cs)
  | cons part parts ih =>
    rw [inOrder]
    constructor
    · intro h
      split at h
      · cases h
      · rename_i rest hrest
        obtain ⟨gap, rfl⟩ := Text.eq_of_afterFirst? hrest
        exact .cons gap part (ih.mp h)
    · rintro ⟨⟩
      rename_i gap cs h
      obtain ⟨more, hmore⟩ := Text.exists_afterFirst? gap part cs
      rw [hmore]
      exact ih.mpr (h.append_left more)

theorem joined_cons_iff (hne : parts ≠ []) : Joined (first :: parts) cs ↔
    ∃ gap rest, cs = first ++ (gap ++ rest) ∧ Joined parts rest := by
  constructor
  · rintro ⟨⟩
    · contradiction
    · rename_i gap rest h
      exact ⟨gap, rest, rfl, h⟩
  · rintro ⟨gap, rest, rfl, h⟩
    exact .cons first gap h

/-- The first part and the last one stand at the ends, and the others in between. -/
theorem joined_iff_spread : Joined (first :: (parts ++ [last])) cs ↔
    ∃ middle, cs = first ++ (middle ++ last) ∧ Spread parts middle := by
  rw [joined_cons_iff (by simp)]
  induction parts generalizing first cs with
  | nil =>
    constructor
    · rintro ⟨gap, _, rfl, ⟨⟩⟩
      · exact ⟨gap, rfl, .nil gap⟩
      · rename_i h
        cases h
    · rintro ⟨middle, rfl, -⟩
      exact ⟨middle, last, rfl, .last last⟩
  | cons part parts ih =>
    have hrest (rest : List Char) : Joined (part :: (parts ++ [last])) rest ↔
        ∃ middle, rest = part ++ (middle ++ last) ∧ Spread parts middle :=
      (joined_cons_iff (by simp)).trans ih
    simp only [List.cons_append, hrest]
    constructor
    · rintro ⟨gap, _, rfl, middle, rfl, h⟩
      exact ⟨gap ++ (part ++ middle), by simp, .cons gap part h⟩
    · rintro ⟨_, rfl, ⟨⟩⟩
      rename_i gap middle h
      exact ⟨gap, part ++ (middle ++ last), by simp, middle, rfl, h⟩

theorem joined_letter_iff {c : Char} : Joined ((c :: first) :: parts) cs ↔
    ∃ rest, cs = c :: rest ∧ Joined (first :: parts) rest := by
  constructor
  · rintro ⟨⟩
    · exact ⟨first, rfl, .last first⟩
    · rename_i gap cs h
      exact ⟨first ++ (gap ++ cs), rfl, .cons first gap h⟩
  · rintro ⟨_, rfl, ⟨⟩⟩
    · exact .last (c :: first)
    · rename_i gap cs h
      exact .cons (c :: first) gap h

variable {pattern : List Char}

theorem matches_star_iff : Matches ('*' :: pattern) cs ↔
    ∃ gap rest, cs = gap ++ rest ∧ Matches pattern rest := by
  constructor
  · rintro ⟨⟩
    · rename_i gap rest h
      exact ⟨gap, rest, rfl, h⟩
    · contradiction
  · rintro ⟨gap, rest, rfl, h⟩
    exact .star gap h

theorem matches_letter_iff {c : Char} (hc : c ≠ '*') : Matches (c :: pattern) cs ↔
    ∃ rest, cs = c :: rest ∧ Matches pattern rest := by
  constructor
  · rintro ⟨⟩
    · contradiction
    · rename_i rest _ h
      exact ⟨rest, rfl, h⟩
  · rintro ⟨rest, rfl, h⟩
    exact .letter hc h

/-- A text of the language is one in which the parts between the stars stand one after another. -/
theorem matches_iff_joined : Matches pattern cs ↔ Joined (Text.pieces (· == '*') pattern) cs := by
  induction pattern generalizing cs with
  | nil =>
    constructor
    · rintro ⟨⟩
      exact .last []
    · rintro ⟨⟩
      · exact .nil
      · rename_i h
        cases h
  | cons c pattern ih =>
    by_cases hc : c = '*'
    · subst hc
      rw [matches_star_iff, Text.pieces, if_pos (beq_self_eq_true '*'),
        joined_cons_iff (Text.pieces_ne_nil _ _)]
      simp only [ih, List.nil_append]
    · obtain ⟨w, ws, hw⟩ := List.exists_cons_of_ne_nil (Text.pieces_ne_nil (· == '*') pattern)
      rw [matches_letter_iff hc, Text.pieces, if_neg (by simpa using hc), hw, joined_letter_iff]
      simp only [ih, hw]

theorem ends_iff : (first.length + last.length ≤ cs.length ∧ first <+: cs ∧ last <:+ cs) ↔
    ∃ middle, cs = first ++ (middle ++ last) := by
  constructor
  · rintro ⟨hlength, ⟨behind, rfl⟩, hlast⟩
    -- Behind the first part there is room for the last one.
    have hroom : last.length ≤ behind.length := by
      rw [List.length_append] at hlength
      omega
    obtain ⟨middle, rfl⟩ := List.suffix_of_suffix_length_le hlast (List.suffix_append first behind) hroom
    exact ⟨middle, rfl⟩
  · rintro ⟨middle, rfl⟩
    refine ⟨?_, List.prefix_append _ _, first ++ middle, List.append_assoc _ _ _⟩
    simp only [List.length_append]
    omega

theorem slice_middle (first middle last : List Char) :
    ((first ++ (middle ++ last)).take ((first ++ (middle ++ last)).length - last.length)).drop
      first.length = middle := by
  have htake : (first ++ (middle ++ last)).length - last.length = (first ++ middle).length := by
    simp only [List.length_append]
    omega
  rw [htake, ← List.append_assoc, List.take_left, List.drop_left]

/-- The slice between the ends is searched for the parts between them. -/
theorem joined_ends_iff : Joined (first :: (parts ++ [last])) cs ↔
    (first.length + last.length ≤ cs.length ∧ first <+: cs ∧ last <:+ cs) ∧
      inOrder parts ((cs.take (cs.length - last.length)).drop first.length) = true := by
  rw [joined_iff_spread, ends_iff, inOrder_iff]
  constructor
  · rintro ⟨middle, rfl, h⟩
    rw [slice_middle]
    exact ⟨⟨middle, rfl⟩, h⟩
  · rintro ⟨⟨middle, rfl⟩, h⟩
    rw [slice_middle] at h
    exact ⟨middle, rfl, h⟩

theorem accepts_iff : accepts pattern cs = true ↔ Matches pattern cs := by
  rw [matches_iff_joined, accepts]
  split
  · rename_i hpieces
    exact absurd hpieces (Text.pieces_ne_nil _ _)
  · rename_i only hpieces
    rw [hpieces, beq_iff_eq]
    constructor
    · rintro rfl
      exact .last only
    · rintro ⟨⟩
      · rfl
      · rename_i h
        cases h
  · rename_i first rest hsingle hpieces
    obtain rfl | ⟨parts, last, rfl⟩ := List.eq_nil_or_concat rest
    · exact absurd rfl hsingle
    · rw [List.concat_eq_append] at hpieces ⊢
      rw [hpieces, joined_ends_iff]
      simp only [Bool.and_eq_true, decide_eq_true_eq, List.isPrefixOf_iff_prefix,
        List.isSuffixOf_iff_suffix, List.getLastD_concat, List.dropLast_concat, and_assoc]

/-- The ends of a text share no character. -/
example : accepts "ab*ba".toList "aba".toList = false := by decide +kernel

end Glob

/-- A pattern accepts a text exactly if the text is in its language, and an artifact is passed over
exactly if one of the patterns has its group and name in its language, or these with its version. -/
theorem Settings.ignored_by_language :
    (∀ pattern text : String, Glob.accepts pattern.toList text.toList = true ↔
      Glob.Matches pattern.toList text.toList) ∧
    ∀ (s : Settings) (group name version : String), s.isIgnored group name version = true ↔
      ∃ pattern ∈ s.ignored, Glob.Matches pattern.toList (group ++ ":" ++ name).toList ∨
        Glob.Matches pattern.toList (group ++ ":" ++ name ++ ":" ++ version).toList := by
  refine ⟨fun pattern text => Glob.accepts_iff, fun s group name version => ?_⟩
  simp [isIgnored, Glob.accepts_iff]

end DependencyAudit
