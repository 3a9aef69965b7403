import Mathlib.Data.List.TakeWhile
import DependencyAudit.Text.Blank
import DependencyAudit.Text.Split

/-! Cutting a text that is put together from pieces with separators between them. -/
namespace DependencyAudit.Text

variable {p : Char → Bool} {c : Char} {cs : List Char}

theorem pieces_eq_splitOnP (p : Char → Bool) (cs : List Char) : pieces p cs = cs.splitOnP p := by
  induction cs with
  | nil => rfl
  | cons c cs ih =>
    rw [List.splitOnP_cons_eq_if_modifyHead, pieces, ih]
    by_cases hc : p c = true
    · rw [if_pos hc, if_pos hc]
    · rw [if_neg hc, if_neg hc]
      obtain ⟨w, ws, hw⟩ := List.exists_cons_of_ne_nil (List.splitOnP_ne_nil p cs)
      rw [hw, List.modifyHead_cons]

/-- A separator cuts whatever stands before it and after it. -/
theorem pieces_append (hc : p c = true) (xs ys : List Char) :
    pieces p (xs ++ c :: ys) = pieces p xs ++ pieces p ys := by
  simp only [pieces_eq_splitOnP, List.splitOnP_append_cons xs ys hc]

theorem pieces_of_not_sep (h : ∀ c ∈ cs, p c = false) : pieces p cs = [cs] := by
  rw [pieces_eq_splitOnP, List.splitOnP_eq_singleton h]

/-- The pieces are made of the characters of the text that are no separators. -/
theorem of_mem_pieces {w : List Char} (hw : w ∈ pieces p cs) : ∀ c ∈ w, c ∈ cs ∧ p c = false := by
  induction cs generalizing w with
  | nil =>
    rw [pieces, List.mem_singleton] at hw
    simp [hw]
  | cons d cs ih =>
    intro c hc
    by_cases hd : p d = true
    · rw [← List.nil_append (d :: cs), pieces_append hd, List.mem_append] at hw
      rcases hw with hw | hw
      · rw [pieces, List.mem_singleton] at hw
        simp [hw] at hc
      · exact ⟨List.mem_cons_of_mem _ (ih hw c hc).1, (ih hw c hc).2⟩
    · obtain ⟨v, vs, hv⟩ := List.exists_cons_of_ne_nil (pieces_ne_nil p cs)
      have hpieces : pieces p (d :: cs) = (d :: v) :: vs := by
        rw [pieces, if_neg hd, hv]
      have hold : ∀ u ∈ v :: vs, c ∈ u → c ∈ d :: cs ∧ p c = false := by
        intro u hu hcu
        have hm := ih (hv ▸ hu) c hcu
        exact ⟨List.mem_cons_of_mem _ hm.1, hm.2⟩
      rw [hpieces] at hw
      rcases List.mem_cons.mp hw with rfl | hw
      · rcases List.mem_cons.mp hc with rfl | hc
        · exact ⟨List.mem_cons_self, Bool.eq_false_iff.mpr hd⟩
        · exact hold v List.mem_cons_self hc
      · exact hold w (List.mem_cons_of_mem _ hw) hc

theorem joinWith_cons_cons (sep : Char) (w v : List Char) (vs : List (List Char)) :
    joinWith sep (w :: v :: vs) = w ++ sep :: joinWith sep (v :: vs) := rfl

/-- What is put together holds the characters of the pieces and the separator. -/
theorem of_mem_joinWith {sep c : Char} {ws : List (List Char)} (h : c ∈ joinWith sep ws) :
    c = sep ∨ ∃ w ∈ ws, c ∈ w := by
  induction ws with
  | nil => cases h
  | cons w ws ih =>
    cases ws with
    | nil => exact Or.inr ⟨w, List.mem_singleton_self w, h⟩
    | cons v vs =>
      rw [joinWith_cons_cons, List.mem_append, List.mem_cons] at h
      rcases h with h | rfl | h
      · exact Or.inr ⟨w, List.mem_cons_self, h⟩
      · exact Or.inl rfl
      · exact (ih h).imp_right fun ⟨u, hu, hc⟩ => ⟨u, List.mem_cons_of_mem _ hu, hc⟩

/-- Pieces without the separator are cut out again. -/
theorem pieces_joinWith {sep : Char} {ws : List (List Char)} (hne : ws ≠ [])
    (h : ∀ w ∈ ws, sep ∉ w) : pieces (· == sep) (joinWith sep ws) = ws := by
  induction ws with
  | nil => exact absurd rfl hne
  | cons w ws ih =>
    have hw : pieces (· == sep) w = [w] := by
      refine pieces_of_not_sep fun c hc => ?_
      rw [beq_eq_false_iff_ne]
      rintro rfl
      exact h w List.mem_cons_self hc
    cases ws with
    | nil => exact hw
    | cons v vs =>
      have htail := ih nofun fun u hu => h u (List.mem_cons_of_mem _ hu)
      rw [joinWith_cons_cons, pieces_append (p := (· == sep)) (beq_self_eq_true sep), hw, htail]
      rfl

theorem joinWith_cons {sep : Char} (w : List Char) {ws : List (List Char)} (hne : ws ≠ []) :
    joinWith sep (w :: ws) = w ++ sep :: joinWith sep ws := by
  obtain ⟨v, vs, rfl⟩ := List.exists_cons_of_ne_nil hne
  exact joinWith_cons_cons sep w v vs

/-- A piece may be cut where the separator does not stand. -/
theorem joinWith_append (sep : Char) (ws : List (List Char)) (w x : List Char)
    (rest : List (List Char)) : joinWith sep (ws ++ (w ++ x) :: rest) =
      joinWith sep (ws ++ [w]) ++ joinWith sep (x :: rest) := by
  induction ws with
  | nil => cases rest <;> simp [joinWith]
  | cons v ws ih =>
    rw [List.cons_append, List.cons_append, joinWith_cons v (by simp), joinWith_cons v (by simp), ih,
      List.append_assoc, List.cons_append]

/-- Pieces may be joined in two steps. -/
theorem joinWith_append_joinWith (sep : Char) (ws : List (List Char)) {vs : List (List Char)}
    (hne : vs ≠ []) : joinWith sep (ws ++ [joinWith sep vs]) = joinWith sep (ws ++ vs) := by
  induction ws with
  | nil => rfl
  | cons w ws ih =>
    rw [List.cons_append, List.cons_append, joinWith_cons w (by simp), joinWith_cons w (by simp [hne]),
      ih]

theorem infix_joinWith {sep : Char} {w : List Char} {ws : List (List Char)} (h : w ∈ ws) :
    w <:+: joinWith sep ws := by
  induction ws with
  | nil => cases h
  | cons v ws ih =>
    cases ws with
    | nil =>
      obtain rfl := List.mem_singleton.mp h
      exact List.infix_rfl
    | cons u us =>
      rw [joinWith_cons_cons]
      rcases List.mem_cons.mp h with rfl | h
      · exact (List.prefix_append w _).isInfix
      · have hsuffix : joinWith sep (u :: us) <:+ v ++ sep :: joinWith sep (u :: us) :=
          (List.suffix_cons sep _).trans (List.suffix_append v _)
        exact (ih h).trans hsuffix.isInfix

theorem infix_of_mem_pieces {sep : Char} {cs w : List Char} (h : w ∈ pieces (· == sep) cs) :
    w <:+: cs := by
  have hw := @infix_joinWith sep _ _ h
  rwa [joinWith_pieces] at hw

/-- A change that neither makes nor unmakes separators does not change where a text is cut. -/
theorem pieces_map {p : Char → Bool} {f : Char → Char} (h : ∀ c, p (f c) = p c) (cs : List Char) :
    pieces p (cs.map f) = (pieces p cs).map (List.map f) := by
  induction cs with
  | nil => rfl
  | cons c cs ih =>
    obtain ⟨w, ws, hw⟩ := List.exists_cons_of_ne_nil (pieces_ne_nil p cs)
    rw [List.map_cons, pieces, pieces, h, ih, hw]
    by_cases hc : p c = true <;> simp [hc]

theorem words_append (hc : p c = true) (xs ys : List Char) :
    words p (xs ++ c :: ys) = words p xs ++ words p ys := by
  simp only [words, pieces_append hc, List.filter_append]

theorem words_of_not_sep (hne : cs ≠ []) (h : ∀ c ∈ cs, p c = false) : words p cs = [cs] := by
  simp [words, pieces_of_not_sep h, hne]

/-- Separators in front of a text give no words. -/
theorem words_append_of_sep {seps : List Char} (hs : ∀ c ∈ seps, p c = true) (cs : List Char) :
    words p (seps ++ cs) = words p cs := by
  induction seps with
  | nil => rfl
  | cons s seps ih =>
    calc words p (s :: seps ++ cs) = words p [] ++ words p (seps ++ cs) :=
          words_append (hs s List.mem_cons_self) [] (seps ++ cs)
      _ = words p (seps ++ cs) := List.nil_append _
      _ = words p cs := ih fun c hc => hs c (List.mem_cons_of_mem _ hc)

/-- A run of separators cuts as one does. -/
theorem words_append_run {seps : List Char} (hne : seps ≠ []) (hs : ∀ c ∈ seps, p c = true)
    (xs ys : List Char) : words p (xs ++ (seps ++ ys)) = words p xs ++ words p ys := by
  obtain ⟨s, seps, rfl⟩ := List.exists_cons_of_ne_nil hne
  rw [List.cons_append, words_append (hs s List.mem_cons_self),
    words_append_of_sep fun c hc => hs c (List.mem_cons_of_mem _ hc)]

/-- Separators behind a text give no words. -/
theorem words_append_sep {seps : List Char} (hs : ∀ c ∈ seps, p c = true) (cs : List Char) :
    words p (cs ++ seps) = words p cs := by
  cases seps with
  | nil => rw [List.append_nil]
  | cons s seps =>
    have h := words_append_run (List.cons_ne_nil s seps) hs cs []
    rwa [List.append_nil, show words p [] = [] from rfl, List.append_nil] at h

/-- Words with a separator between them are cut out again. -/
theorem words_joinWith {sep : Char} (hsep : p sep = true) {ws : List (List Char)}
    (h : ∀ w ∈ ws, w ≠ [] ∧ ∀ c ∈ w, p c = false) : words p (joinWith sep ws) = ws := by
  induction ws with
  | nil => rfl
  | cons w ws ih =>
    obtain ⟨⟨hne, hw⟩, hws⟩ := List.forall_mem_cons.mp h
    cases ws with
    | nil => exact words_of_not_sep hne hw
    | cons v vs =>
      rw [joinWith_cons_cons, words_append hsep, words_of_not_sep hne hw, ih hws]
      rfl

theorem splitOnce?_append {sep : Char} {a : List Char} (ha : sep ∉ a) (b : List Char) :
    splitOnce? sep (a ++ sep :: b) = some (a, b) := by
  induction a with
  | nil => rw [List.nil_append, splitOnce?, if_pos rfl]
  | cons c a ih =>
    rw [List.mem_cons, not_or] at ha
    rw [List.cons_append, splitOnce?, if_neg (Ne.symm ha.1), ih ha.2, Option.map_some]

theorem splitOnce?_eq_none {sep : Char} {a : List Char} (ha : sep ∉ a) :
    splitOnce? sep a = none := by
  rw [Option.eq_none_iff_forall_ne_some]
  rintro ⟨b, c⟩ h
  rw [(eq_of_splitOnce? h).1] at ha
  simp at ha

theorem splitLast?_append {sep : Char} {b : List Char} (hb : sep ∉ b) (a : List Char) :
    splitLast? sep (a ++ sep :: b) = some (a, b) := by
  have hrev : (a ++ sep :: b).reverse = b.reverse ++ sep :: a.reverse := by simp
  rw [splitLast?, hrev, splitOnce?_append (by simpa using hb)]
  simp

theorem splitLast?_eq_none {sep : Char} (h : sep ∉ cs) : splitLast? sep cs = none := by
  rw [splitLast?, splitOnce?_eq_none (by simpa using h), Option.map_none]

theorem eq_of_splitLast? {sep : Char} {a b : List Char} (h : splitLast? sep cs = some (a, b)) :
    cs = a ++ sep :: b ∧ sep ∉ b := by
  obtain ⟨⟨x, y⟩, hx, he⟩ := Option.map_eq_some_iff.mp h
  obtain ⟨rfl, rfl⟩ : y.reverse = a ∧ x.reverse = b := by simpa using he
  obtain ⟨hcs, hsep⟩ := eq_of_splitOnce? hx
  exact ⟨by simpa using congrArg List.reverse hcs, by simpa using hsep⟩

theorem not_mem_of_splitOnce?_eq_none {sep : Char} (h : splitOnce? sep cs = none) : sep ∉ cs := by
  intro hm
  obtain ⟨a, b, rfl, ha⟩ := List.eq_append_cons_of_mem hm
  rw [splitOnce?_append ha] at h
  cases h

theorem not_mem_of_splitLast?_eq_none {sep : Char} (h : splitLast? sep cs = none) : sep ∉ cs := by
  rw [splitLast?, Option.map_eq_none_iff] at h
  simpa using not_mem_of_splitOnce?_eq_none h

theorem dropWhile_of_head (h : ∀ c ∈ cs.head?, p c = false) : cs.dropWhile p = cs := by
  cases cs with
  | nil => rfl
  | cons c cs => rw [List.dropWhile_cons_of_neg (by simp [h c rfl])]

/-- Nothing is trimmed from a text that neither starts nor ends with a blank. -/
theorem trim_of_ends (hstart : ∀ c ∈ cs.head?, isBlank c = false)
    (hend : ∀ c ∈ cs.getLast?, isBlank c = false) : trim cs = cs := by
  have hend : ∀ c ∈ cs.reverse.head?, isBlank c = false := by rwa [List.head?_reverse]
  rw [trim, trimStart, dropWhile_of_head hstart, trimEnd, dropWhile_of_head hend, List.reverse_reverse]

theorem trim_of_not_blank (h : ∀ c ∈ cs, isBlank c = false) : trim cs = cs :=
  trim_of_ends (fun c hc => h c (List.mem_of_mem_head? hc))
    fun c hc => h c (List.mem_of_mem_getLast? hc)

/-- Blanks around a text make no difference where it is trimmed. -/
theorem trim_append_blanks {left right : List Char} (hl : ∀ c ∈ left, isBlank c = true)
    (hr : ∀ c ∈ right, isBlank c = true) : trim (left ++ (cs ++ right)) = trim cs := by
  have hend (xs : List Char) : trimEnd (xs ++ right) = trimEnd xs := by
    rw [trimEnd, List.reverse_append, List.dropWhile_append_of_pos (by simpa using hr), trimEnd]
  rw [trim, trimStart, List.dropWhile_append_of_pos hl, List.dropWhile_append]
  split
  · rename_i hempty
    rw [trim, trimStart, List.isEmpty_iff.mp hempty, List.dropWhile_eq_nil_iff.mpr hr]
  · rw [hend, trim, trimStart]

/-- Trimming leaves out blanks before and after a text, and nothing else. -/
theorem exists_trim (cs : List Char) : ∃ left right, cs = left ++ (trim cs ++ right) ∧
    (∀ c ∈ left, isBlank c = true) ∧ ∀ c ∈ right, isBlank c = true := by
  refine ⟨cs.takeWhile isBlank, ((trimStart cs).reverse.takeWhile isBlank).reverse, ?_, ?_, ?_⟩
  · rw [trim, trimEnd, ← List.reverse_append, List.takeWhile_append_dropWhile, List.reverse_reverse,
      trimStart, List.takeWhile_append_dropWhile]
  · intro c hc
    exact List.mem_takeWhile_imp hc
  · intro c hc
    exact List.mem_takeWhile_imp (List.mem_reverse.mp hc)

theorem mem_of_mem_trim (h : c ∈ trim cs) : c ∈ cs := by
  obtain ⟨left, right, he, -, -⟩ := exists_trim cs
  rw [he]
  exact List.mem_append_right _ (List.mem_append_left _ h)

theorem length_trim_le (cs : List Char) : (trim cs).length ≤ cs.length := by
  obtain ⟨left, right, h, -⟩ := exists_trim cs
  have := congrArg List.length h
  simp only [List.length_append] at this
  omega

theorem isBlank_of_head?_dropWhile (h : (cs.dropWhile isBlank).head? = some c) :
    isBlank c = false := by
  have hnot := List.head?_dropWhile_not isBlank cs
  rw [h] at hnot
  simpa using hnot

/-- A trimmed text neither starts nor ends with a blank. -/
theorem ends_trim (cs : List Char) : (∀ c ∈ (trim cs).head?, isBlank c = false) ∧
    ∀ c ∈ (trim cs).getLast?, isBlank c = false := by
  constructor
  · intro c hc
    obtain ⟨left, hleft⟩ : trim cs <+: trimStart cs := by
      rw [← List.reverse_reverse (trimStart cs)]
      exact List.reverse_prefix.mpr (List.dropWhile_suffix isBlank)
    have hstart : (trimStart cs).head? = some c := by
      rw [← hleft, List.head?_append, hc, Option.some_or]
    exact isBlank_of_head?_dropWhile hstart
  · intro c hc
    rw [trim, trimEnd, List.getLast?_reverse] at hc
    exact isBlank_of_head?_dropWhile hc

theorem trim_trim (cs : List Char) : trim (trim cs) = trim cs :=
  trim_of_ends (ends_trim cs).1 (ends_trim cs).2

theorem trim_eq_nil_iff : trim cs = [] ↔ ∀ c ∈ cs, isBlank c = true := by
  obtain ⟨left, right, he, hleft, hright⟩ := exists_trim cs
  constructor
  · intro h c hc
    rw [he, h, List.nil_append, List.mem_append] at hc
    exact hc.elim (hleft c) (hright c)
  · intro h
    by_contra hne
    obtain ⟨c, rest, hc⟩ := List.exists_cons_of_ne_nil hne
    have hmem : c ∈ trim cs := hc ▸ List.mem_cons_self
    have hhead := (ends_trim cs).1 c (by rw [hc, List.head?_cons]; rfl)
    rw [h c (mem_of_mem_trim hmem)] at hhead
    cases hhead

theorem present?_eq_none_iff {s : String} :
    present? s = none ↔ ∀ c ∈ s.toList, isBlank c = true := by
  rw [← trim_eq_nil_iff, present?]
  split <;> simp_all

theorem present?_of_not_blank {s : String} (hc : c ∈ s.toList)
    (hb : isBlank c = false) : present? s = some (String.ofList (trim s.toList)) := by
  have hne : trim s.toList ≠ [] := by
    rw [Ne, trim_eq_nil_iff]
    intro hall
    rw [hall c hc] at hb
    cases hb
  unfold present?
  split
  · contradiction
  · rfl

end DependencyAudit.Text
