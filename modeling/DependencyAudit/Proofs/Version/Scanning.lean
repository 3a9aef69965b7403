import DependencyAudit.Proofs.Version.Reading

/-! How a text that starts with a digit is read as a version: the numbers at its start, and what ends
them. -/
namespace DependencyAudit.Version

open Text

theorem isWildcard_of_startsWithDigit {cs : List Char} (h : StartsWithDigit cs) :
    isWildcard cs = false := by
  obtain ⟨c, rest, rfl, hc⟩ := h
  rw [← Bool.not_eq_true]
  intro hw
  simp only [isWildcard, Bool.or_eq_true, beq_iff_eq, List.cons.injEq] at hw
  rcases hw with (⟨rfl, -⟩ | ⟨rfl, -⟩) | ⟨rfl, -⟩ <;> cases hc

theorem isVersionMark_of_isDigit {c : Char} (h : c.isDigit = true) :
    WrittenVersion.isVersionMark c = false := by
  rw [← Bool.not_eq_true]
  intro hm
  simp only [WrittenVersion.isVersionMark, Bool.or_eq_true, beq_iff_eq] at hm
  rcases hm with rfl | rfl <;> cases h

/-- A text that starts with a digit is read strictly, or else loosely. -/
theorem ofChars_of_dropWhile {raw : List Char}
    (h : StartsWithDigit ((trim raw).dropWhile WrittenVersion.isVersionMark)) :
    WrittenVersion.ofChars raw =
      match strict? ((trim raw).dropWhile WrittenVersion.isVersionMark) with
      | some v => .ok ⟨v, 3, false⟩
      | none => loose ((trim raw).dropWhile WrittenVersion.isVersionMark) := by
  have hwild := isWildcard_of_startsWithDigit h
  obtain ⟨c, rest, hcs, -⟩ := h
  rw [WrittenVersion.ofChars, hwild, hcs]
  rfl

theorem ofChars_of_startsWithDigit {cs : List Char} (h : StartsWithDigit cs)
    (hblank : ∀ c ∈ cs, isBlank c = false) :
    WrittenVersion.ofChars cs = match strict? cs with
      | some v => .ok ⟨v, 3, false⟩
      | none => loose cs := by
  have hdrop : (trim cs).dropWhile WrittenVersion.isVersionMark = cs := by
    rw [trim_of_not_blank hblank]
    obtain ⟨c, rest, rfl, hc⟩ := h
    rw [List.dropWhile_cons_of_neg (by simp [isVersionMark_of_isDigit hc])]
  have hread := @ofChars_of_dropWhile cs (hdrop.symm ▸ h)
  rwa [hdrop] at hread

/-- Digits that are read as a number. -/
structure IsNumber (w : List Char) : Prop where
  ne_nil : w ≠ []
  isDigit : ∀ c ∈ w, c.isDigit = true
  lt : value w < numberLimit

theorem isNumber_decimal {n : ℕ} (h : n < numberLimit) : IsNumber (decimal n) where
  ne_nil := decimal_ne_nil n
  isDigit _ := isDigit_of_mem_decimal
  lt := by rwa [value_decimal]

theorem IsNumber.not_mem {w : List Char} (h : IsNumber w) {c : Char} (hc : c.isDigit = false) :
    c ∉ w :=
  mt (h.isDigit c) (ne_true_of_eq_false hc)

theorem IsNumber.startsWithDigit {w : List Char} (h : IsNumber w) : StartsWithDigit w := by
  obtain ⟨c, cs, hc⟩ := List.exists_cons_of_ne_nil h.ne_nil
  exact ⟨c, cs, hc, h.isDigit c (hc ▸ List.mem_cons_self)⟩

/-- A number, and what follows it up to the next dot. -/
theorem scan_cons {w tail : List Char} (hw : IsNumber w)
    (ht : ∀ c ∈ tail.head?, c.isDigit = false) (rest : List (List Char)) :
    scan ((w ++ tail) :: rest) =
      if tail = [] then (scan rest).map fun r => (value w :: r.1, r.2)
      else .ok ([value w], .qualifier (tail.head? == some '-') (joinWith '.' (tail :: rest))) := by
  have hwild := isWildcard_of_startsWithDigit (hw.startsWithDigit.append tail)
  have htake : (w ++ tail).takeWhile Char.isDigit = w := by
    rw [List.takeWhile_append_of_pos hw.isDigit]
    cases tail with
    | nil => simp
    | cons c tail => simp [ht c rfl]
  have hdrop : (w ++ tail).dropWhile Char.isDigit = tail := by
    rw [List.dropWhile_append_of_pos hw.isDigit, dropWhile_of_head ht]
  have hnumber : number? w = some (value w) := number?_eq_some_iff.mpr ⟨rfl, hw.lt⟩
  simp only [scan, hwild, htake, hdrop, hnumber, List.isEmpty_iff, hw.ne_nil, if_false,
    Bool.false_eq_true]

theorem scan_number {w : List Char} (hw : IsNumber w) (rest : List (List Char)) :
    scan (w :: rest) = (scan rest).map fun r => (value w :: r.1, r.2) := by
  simpa using @scan_cons w [] hw nofun rest

theorem scan_qualified {w : List Char} (hw : IsNumber w) {c : Char} (hc : c.isDigit = false)
    (tail : List Char) (rest : List (List Char)) : scan ((w ++ c :: tail) :: rest) =
      .ok ([value w], .qualifier (c == '-') (joinWith '.' ((c :: tail) :: rest))) := by
  rw [scan_cons hw (by simpa using hc), if_neg (List.cons_ne_nil c tail)]
  rfl

theorem scan_append {ws : List (List Char)} (hws : ∀ w ∈ ws, IsNumber w)
    (segments : List (List Char)) : scan (ws ++ segments) =
      (scan segments).map fun r => (ws.map value ++ r.1, r.2) := by
  induction ws with
  | nil => cases h : scan segments <;> simp [Except.map, h]
  | cons w ws ih =>
    rw [List.cons_append, scan_number (hws w List.mem_cons_self),
      ih fun v hv => hws v (List.mem_cons_of_mem _ hv)]
    cases scan segments <;> simp [Except.map]

/-- What the first segment can be: a wildcard, the start of a qualifier, a number too large, a number,
or a number and then the start of a qualifier. -/
theorem scan_cases (segment : List Char) (rest : List (List Char)) :
    (isWildcard segment = true ∧ scan (segment :: rest) = .ok ([], .wildcard)) ∨
    (¬StartsWithDigit segment ∧
      scan (segment :: rest) = .ok ([], .qualifier false (joinWith '.' (segment :: rest)))) ∨
    (numberLimit ≤ value (segment.takeWhile Char.isDigit) ∧
      scan (segment :: rest) = .error (.tooLarge (String.ofList segment))) ∨
    (IsNumber segment ∧ scan (segment :: rest) =
      (scan rest).map fun r => (value segment :: r.1, r.2)) ∨
    ∃ w c tail, segment = w ++ c :: tail ∧ IsNumber w ∧ scan (segment :: rest) =
      .ok ([value w], .qualifier (c == '-') (joinWith '.' ((c :: tail) :: rest))) := by
  by_cases hwild : isWildcard segment = true
  · exact Or.inl ⟨hwild, by simp [scan, hwild]⟩
  by_cases hempty : segment.takeWhile Char.isDigit = []
  · refine Or.inr (Or.inl ⟨?_, by simp [scan, hwild, hempty]⟩)
    rintro ⟨c, cs, rfl, hc⟩
    rw [List.takeWhile_cons_of_pos hc] at hempty
    cases hempty
  by_cases hlt : value (segment.takeWhile Char.isDigit) < numberLimit
  · have hw : IsNumber (segment.takeWhile Char.isDigit) :=
      ⟨hempty, fun c hc => List.mem_takeWhile_imp hc, hlt⟩
    have hsplit := List.takeWhile_append_dropWhile (p := Char.isDigit) (l := segment)
    have hc := List.head?_dropWhile_not Char.isDigit segment
    refine Or.inr (Or.inr (Or.inr ?_))
    cases htail : segment.dropWhile Char.isDigit with
    | nil =>
      rw [htail, List.append_nil] at hsplit
      rw [hsplit] at hw
      exact Or.inl ⟨hw, scan_number hw rest⟩
    | cons c tail =>
      rw [htail] at hsplit hc
      refine Or.inr ⟨_, c, tail, hsplit.symm, hw, ?_⟩
      have hscan := scan_qualified hw (by simpa using hc) tail rest
      rwa [hsplit] at hscan
  · have hnumber : number? (segment.takeWhile Char.isDigit) = none := by
      simp [number?, hlt]
    exact Or.inr (Or.inr (Or.inl ⟨Nat.le_of_not_lt hlt, by simp [scan, hwild, hempty, hnumber]⟩))

/-- Where no segment is a wildcard or starts with a number too large, the numbers are found. -/
theorem exists_scan {segments : List (List Char)}
    (hwild : ∀ v ∈ segments, isWildcard v = false)
    (hlt : ∀ v ∈ segments, value (v.takeWhile Char.isDigit) < numberLimit) :
    ∃ numbers ending, scan segments = .ok (numbers, ending) ∧ ending ≠ .wildcard := by
  induction segments with
  | nil => exact ⟨[], .done, rfl, nofun⟩
  | cons segment rest ih =>
    rcases scan_cases segment rest with ⟨h, -⟩ | ⟨-, h⟩ | ⟨h, -⟩ | ⟨-, h⟩ | ⟨_, _, _, -, -, h⟩
    · rw [hwild segment List.mem_cons_self] at h
      cases h
    · exact ⟨_, _, h, nofun⟩
    · exact absurd (hlt segment List.mem_cons_self) (Nat.not_lt.mpr h)
    · obtain ⟨numbers, ending, hscan, hending⟩ := ih
        (fun u hu => hwild u (List.mem_cons_of_mem _ hu))
        (fun u hu => hlt u (List.mem_cons_of_mem _ hu))
      rw [h, hscan]
      exact ⟨_, ending, rfl, hending⟩
    · exact ⟨_, _, h, nofun⟩

theorem numbers_ne_nil {segment : List Char} (hd : StartsWithDigit segment)
    {rest : List (List Char)} {numbers : List ℕ} {ending : Ending}
    (h : scan (segment :: rest) = .ok (numbers, ending)) : numbers ≠ [] := by
  rcases scan_cases segment rest with ⟨hwild, -⟩ | ⟨hnot, -⟩ | ⟨-, hscan⟩ | ⟨-, hscan⟩ |
    ⟨_, _, _, -, -, hscan⟩
  · rw [isWildcard_of_startsWithDigit hd] at hwild
    cases hwild
  · exact absurd hd hnot
  all_goals rw [hscan] at h
  · cases h
  · cases hrest : scan rest <;> rw [hrest] at h <;> cases h
    exact List.cons_ne_nil _ _
  · cases h
    exact List.cons_ne_nil _ _

/-- Numbers with dots between them, and behind the last one a hyphen and then the text `q`. -/
def IsHyphenated (cs q : List Char) : Prop :=
  ∃ ws w, (∀ v ∈ ws, IsNumber v) ∧ IsNumber w ∧ cs = joinWith '.' (ws ++ [w]) ++ '-' :: q

/-- Only what stands behind numbers is set off by a hyphen. -/
theorem isHyphenated_of_scan {segments : List (List Char)} {numbers : List ℕ} {q : List Char}
    (h : scan segments = .ok (numbers, .qualifier true q)) :
    ∃ p, q = '-' :: p ∧ IsHyphenated (joinWith '.' segments) p := by
  induction segments generalizing numbers with
  | nil => cases h
  | cons segment rest ih =>
    rcases scan_cases segment rest with ⟨-, hscan⟩ | ⟨-, hscan⟩ | ⟨-, hscan⟩ | ⟨hw, hscan⟩ |
      ⟨w, c, tail, rfl, hw, hscan⟩
    all_goals rw [hscan] at h
    · cases h
    · cases h
    · cases h
    · cases hrest : scan rest with
      | error fault =>
        rw [hrest] at h
        cases h
      | ok found =>
        obtain ⟨numbers', ending⟩ := found
        rw [hrest] at h
        cases h
        obtain ⟨p, rfl, ws, w, hws, hw', he⟩ := ih hrest
        have hne : rest ≠ [] := by
          rintro rfl
          cases hrest
        refine ⟨p, rfl, segment :: ws, w, List.forall_mem_cons.mpr ⟨hw, hws⟩, hw', ?_⟩
        rw [joinWith_cons segment hne, he, List.cons_append, joinWith_cons segment (by simp),
          List.append_assoc, List.cons_append]
    · simp only [Except.ok.injEq, Prod.mk.injEq, Ending.qualifier.injEq, beq_iff_eq] at h
      obtain ⟨-, rfl, rfl⟩ := h
      have hcut := joinWith_append '.' [] ['-'] tail rest
      refine ⟨joinWith '.' (tail :: rest), hcut, [], w, nofun, hw, ?_⟩
      exact (joinWith_append '.' [] w ('-' :: tail) rest).trans (congrArg (w ++ ·) hcut)

theorem scan_hyphenated {ws : List (List Char)} {w : List Char} (hws : ∀ v ∈ ws, IsNumber v)
    (hw : IsNumber w) (q : List Char) :
    scan (pieces (· == '.') (joinWith '.' (ws ++ [w]) ++ '-' :: q)) =
      .ok ((ws ++ [w]).map value, .qualifier true ('-' :: q)) := by
  obtain ⟨p, ps, hq⟩ := List.exists_cons_of_ne_nil (pieces_ne_nil (· == '.') q)
  have hjoin : joinWith '.' (('-' :: p) :: ps) = '-' :: q := by
    have hcut := joinWith_append '.' [] ['-'] p ps
    rw [← hq, joinWith_pieces] at hcut
    exact hcut
  have hdot : ∀ v ∈ ws ++ (w ++ '-' :: p) :: ps, '.' ∉ v := by
    have hpieces : ∀ v ∈ p :: ps, '.' ∉ v := by
      intro v hv hm
      have := (of_mem_pieces (hq ▸ hv) _ hm).2
      simp at this
    intro v hv
    simp only [List.mem_append, List.mem_cons] at hv
    rcases hv with hv | rfl | hv
    · exact (hws v hv).not_mem (by decide)
    · have hp := hpieces p List.mem_cons_self
      have hw' := hw.not_mem (c := '.') (by decide)
      simp [hp, hw']
    · exact hpieces v (List.mem_cons_of_mem p hv)
  rw [← hjoin, ← joinWith_append, pieces_joinWith (by simp) hdot, scan_append hws,
    scan_qualified hw (by decide)]
  simp [Except.map]

end DependencyAudit.Version
