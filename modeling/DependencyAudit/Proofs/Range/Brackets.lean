import DependencyAudit.Proofs.Range.Notations

/-! Texts of intervals in brackets. Which of them are read is said without the reader: the text is a list
of intervals, each of them one version or two bounds, and at most one comma stands behind each. So a comma
may be missing between two intervals, and one too many may stand at the end or in an upper bound. -/
namespace DependencyAudit

open DependencyAudit.Interval Text

/-- An interval as it is written: the brackets around it, square or not, what stands between them, and
whether a comma follows. -/
@[ext]
structure WrittenInterval where
  lower : Bool
  body : List Char
  upper : Bool
  comma : Bool
deriving DecidableEq

namespace WrittenInterval

/-- What stands behind the closing bracket, blanks apart. -/
def separator (comma : Bool) : List Char := if comma then [','] else []

/-- A text that lists the intervals in order, with blanks around the commas. -/
inductive Lists : List WrittenInterval → List Char → Prop
  | nil : Lists [] []
  | cons {p : WrittenInterval} {ps : List WrittenInterval} {before after rest : List Char}
      (inside : ∀ c ∈ p.body, isClosing c = false) (before_blank : ∀ c ∈ before, isBlank c = true)
      (after_blank : ∀ c ∈ after, isBlank c = true) (more : Lists ps rest) :
      Lists (p :: ps) (inBrackets p.lower p.upper p.body ++
        (before ++ (separator p.comma ++ (after ++ rest))))

theorem inside_of_any {cs : List Char} (h : cs.any isClosing = false) :
    ∀ c ∈ cs, isClosing c = false := by simpa using h

/-- No blanks stand around the comma. -/
theorem Lists.tight {p : WrittenInterval} {ps : List WrittenInterval} {rest : List Char}
    (inside : ∀ c ∈ p.body, isClosing c = false) (more : Lists ps rest) :
    Lists (p :: ps) (inBrackets p.lower p.upper p.body ++ (separator p.comma ++ rest)) :=
  @Lists.cons p ps [] [] rest inside nofun nofun more

/-- The interval that the brackets and what is between them give. -/
def interval? (p : WrittenInterval) : Except RangeFault Interval := ofBody p.lower p.upper p.body

variable {p : WrittenInterval} {ps qs : List WrittenInterval} {cs before after rest : List Char}

/-- A list of intervals starts with a bracket. -/
theorem Lists.head (h : Lists ps cs) : ∀ c ∈ cs.head?, isBlank c = false ∧ c ≠ ',' := by
  cases h with
  | nil => simp
  | @cons p ps before after rest inside before_blank after_blank more =>
    cases hl : p.lower <;> simp [inBrackets, openingMark, isBlank]

section Separator

variable (hbefore : ∀ c ∈ before, isBlank c = true) (hafter : ∀ c ∈ after, isBlank c = true)
  (hrest : ∀ c ∈ rest.head?, isBlank c = false ∧ c ≠ ',')

include hbefore in
theorem trimStart_append : trimStart (before ++ cs) = trimStart cs :=
  List.dropWhile_append_of_pos hbefore

include hrest in
theorem trimStart_of_head : trimStart rest = rest := dropWhile_of_head fun c hc => (hrest c hc).1

include hbefore hafter hrest

/-- Whether a comma stands behind an interval is seen past the blanks. -/
theorem trimStart_separator (comma : Bool) :
    trimStart (before ++ (separator comma ++ (after ++ rest))) =
      if comma then ',' :: (after ++ rest) else rest := by
  rw [trimStart_append hbefore]
  cases comma with
  | true => exact dropWhile_of_head (by simp [separator, isBlank])
  | false =>
    rw [separator, if_neg Bool.false_ne_true, List.nil_append, trimStart_append hafter,
      trimStart_of_head hrest]
    rfl

theorem dropSeparator_append (comma : Bool) :
    dropSeparator (before ++ (separator comma ++ (after ++ rest))) = rest := by
  rw [dropSeparator, trimStart_separator hbefore hafter hrest]
  cases comma with
  | true => exact (trimStart_append hafter).trans (trimStart_of_head hrest)
  | false =>
    rw [if_neg Bool.false_ne_true]
    split
    · exact absurd rfl (hrest ',' rfl).2
    · rfl

end Separator

/-- Blanks and at most one comma are all that is left out between two intervals. -/
theorem exists_separator (cs : List Char) : ∃ before comma after,
    cs = before ++ (separator comma ++ (after ++ dropSeparator cs)) ∧
      (∀ c ∈ before, isBlank c = true) ∧ ∀ c ∈ after, isBlank c = true := by
  have hcut (cs : List Char) : cs = cs.takeWhile isBlank ++ trimStart cs :=
    List.takeWhile_append_dropWhile.symm
  have hblank (cs : List Char) : ∀ c ∈ cs.takeWhile isBlank, isBlank c = true :=
    fun c hc => List.mem_takeWhile_imp hc
  rw [dropSeparator]
  split
  · rename_i rest hrest
    refine ⟨cs.takeWhile isBlank, true, rest.takeWhile isBlank, ?_, hblank cs, hblank rest⟩
    rw [← hcut rest, separator, if_pos rfl, List.singleton_append, ← hrest]
    exact hcut cs
  · exact ⟨cs.takeWhile isBlank, false, [], hcut cs, hblank cs, nofun⟩

/-- A list of intervals that can be read is read, and those that are empty are left out. -/
theorem Lists.ofBrackets_eq (h : Lists ps cs) {is : List Interval}
    (hread : List.Forall₂ (fun p i => p.interval? = .ok i) ps is) :
    ofBrackets cs = .ok (is.filter (!·.crosses)) := by
  induction h generalizing is with
  | nil =>
    cases hread
    rw [ofBrackets]
    rfl
  | @cons p ps before after rest inside before_blank after_blank more ih =>
    cases hread with
    | @cons _ i _ is hi hmore =>
      rw [ofBrackets_append inside, show ofBody _ _ _ = .ok i from hi,
        dropSeparator_append before_blank after_blank more.head]
      simp only [ih hmore, Except.map]
      by_cases hx : i.crosses = true <;> simp [hx]

theorem eq_of_opening? {inner : List Char} {l : Bool} (h : opening? cs = some (l, inner)) :
    cs = openingMark l :: inner := by
  unfold opening? at h
  split at h <;> cases h <;> rfl

theorem eq_closingMark {c : Char} (h : isClosing c = true) : c = closingMark (c == ']') := by
  simp only [isClosing, Bool.or_eq_true, beq_iff_eq] at h
  rcases h with rfl | rfl <;> rfl

/-- What is cut off at an opening and the next closing bracket is an interval as it is written. -/
theorem eq_inBrackets {inner : List Char} {l : Bool} {close : Char}
    (ho : opening? cs = some (l, inner)) (hc : inner.dropWhile (!isClosing ·) = close :: rest) :
    cs = inBrackets l (close == ']') (inner.takeWhile (!isClosing ·)) ++ rest := by
  have hclosing : isClosing close = true := by
    have hhead := List.head?_dropWhile_not (!isClosing ·) inner
    rw [hc] at hhead
    simpa using hhead
  have hinner : inner = inner.takeWhile (!isClosing ·) ++ close :: rest := by
    rw [← hc]
    exact List.takeWhile_append_dropWhile.symm
  rw [inBrackets, ← eq_closingMark hclosing, List.cons_append, List.append_assoc,
    List.singleton_append, ← hinner]
  exact eq_of_opening? ho

/-- Nothing is read but a list of intervals that can be read. -/
theorem exists_lists_of_ofBrackets {is : List Interval} (h : ofBrackets cs = .ok is) :
    ∃ ps js, Lists ps cs ∧ List.Forall₂ (fun p i => p.interval? = .ok i) ps js := by
  fun_induction ofBrackets cs generalizing is with
  | case1 cs he =>
    obtain rfl : cs = [] := List.isEmpty_iff.mp he
    exact ⟨[], [], .nil, .nil⟩
  | case2 => cases h
  | case3 => cases h
  | case4 => cases h
  | case5 cs _ l inner ho close rest hc _ i hi ih =>
    cases hm : ofBrackets (dropSeparator rest) with
    | error fault => simp [hm, Except.map] at h
    | ok more =>
      obtain ⟨ps, js, hlists, hread⟩ := ih hm
      obtain ⟨before, comma, after, hrest, hbefore, hafter⟩ := exists_separator rest
      let p : WrittenInterval := ⟨l, inner.takeWhile (!isClosing ·), close == ']', comma⟩
      have hinside : ∀ c ∈ p.body, isClosing c = false := fun c hc => by
        simpa using List.mem_takeWhile_imp hc
      rw [eq_inBrackets ho hc, hrest]
      exact ⟨p :: ps, i :: js, .cons hinside hbefore hafter hlists, .cons hi hread⟩

theorem closingMark_injective : Function.Injective closingMark := by
  intro a b h
  cases a <;> cases b <;> first | rfl | cases h

/-- An interval ends at its first closing bracket. -/
theorem inBrackets_append_unique {l l' u u' : Bool} {body body' rest rest' : List Char}
    (hb : ∀ c ∈ body, isClosing c = false) (hb' : ∀ c ∈ body', isClosing c = false)
    (h : inBrackets l u body ++ rest = inBrackets l' u' body' ++ rest') :
    l = l' ∧ u = u' ∧ body = body' ∧ rest = rest' := by
  have hopen := congrArg opening? h
  rw [opening?_inBrackets, opening?_inBrackets, Option.some.injEq, Prod.mk.injEq] at hopen
  obtain ⟨hlower, hinner⟩ := hopen
  obtain ⟨htake, hdrop⟩ := span_closingMark hb u rest
  obtain ⟨htake', hdrop'⟩ := span_closingMark hb' u' rest'
  rw [hinner] at htake hdrop
  obtain ⟨hupper, hrest⟩ := List.cons.inj (hdrop.symm.trans hdrop')
  exact ⟨hlower, closingMark_injective hupper, htake.symm.trans htake', hrest⟩

/-- Whether a comma is there does not depend on how many blanks there are. -/
theorem separator_unique {k₁ k₂ : Bool} {before₁ before₂ after₁ after₂ rest₁ rest₂ : List Char}
    (hbefore₁ : ∀ c ∈ before₁, isBlank c = true) (hbefore₂ : ∀ c ∈ before₂, isBlank c = true)
    (hafter₁ : ∀ c ∈ after₁, isBlank c = true) (hafter₂ : ∀ c ∈ after₂, isBlank c = true)
    (hrest₁ : ∀ c ∈ rest₁.head?, isBlank c = false ∧ c ≠ ',')
    (hrest₂ : ∀ c ∈ rest₂.head?, isBlank c = false ∧ c ≠ ',')
    (h : before₁ ++ (separator k₁ ++ (after₁ ++ rest₁)) =
      before₂ ++ (separator k₂ ++ (after₂ ++ rest₂))) : k₁ = k₂ ∧ rest₁ = rest₂ := by
  have hsame := congrArg dropSeparator h
  rw [dropSeparator_append hbefore₁ hafter₁ hrest₁,
    dropSeparator_append hbefore₂ hafter₂ hrest₂] at hsame
  have hcomma := congrArg trimStart h
  rw [trimStart_separator hbefore₁ hafter₁ hrest₁,
    trimStart_separator hbefore₂ hafter₂ hrest₂] at hcomma
  refine ⟨?_, hsame⟩
  cases k₁ <;> cases k₂
  · rfl
  · exact absurd rfl (hrest₁ ',' (congrArg List.head? hcomma)).2
  · exact absurd rfl (hrest₂ ',' (congrArg List.head? hcomma.symm)).2
  · rfl

/-- A text lists intervals in one way only. -/
theorem Lists.unique (h : Lists ps cs) (h' : Lists qs cs) : ps = qs := by
  induction h generalizing qs with
  | nil =>
    generalize hcs : ([] : List Char) = cs at h'
    cases h' with
    | nil => rfl
    | cons => cases hcs
  | @cons p ps before after rest inside before_blank after_blank more ih =>
    -- The text is put together from other pieces in `h'`, so only the equation can be taken apart.
    generalize hcs : inBrackets p.lower p.upper p.body ++
      (before ++ (separator p.comma ++ (after ++ rest))) = cs at h'
    cases h' with
    | nil => cases hcs
    | @cons q qs before' after' rest' inside' before_blank' after_blank' more' =>
      obtain ⟨hlower, hupper, hbody, hgap⟩ := inBrackets_append_unique inside inside' hcs
      obtain ⟨hcomma, rfl⟩ := separator_unique before_blank before_blank' after_blank after_blank'
        more.head more'.head hgap
      rw [WrittenInterval.ext hlower hbody hupper hcomma, ih more']

/-- A version written without a wildcard. -/
def IsExact (cs : List Char) : Prop :=
  ∃ w, WrittenVersion.ofChars cs = .ok w ∧ w.wildcard = false

theorem exists_exactVersion_iff : (∃ v, exactVersion cs = .ok v) ↔ IsExact cs := by
  simp only [exactVersion, IsExact]
  cases hw : WrittenVersion.ofChars cs with
  | error fault => simp
  | ok w => cases hwild : w.wildcard <;> simp [hwild]

theorem exists_bound?_iff {inclusive : Bool} :
    (∃ b, bound? cs inclusive = .ok b) ↔ (∀ c ∈ cs, isBlank c = true) ∨ IsExact cs := by
  rw [bound?, ← trim_eq_nil_iff, ← exists_exactVersion_iff]
  by_cases hblank : trim cs = []
  · simp [hblank]
  · rw [List.isEmpty_eq_false_iff.mpr hblank, if_neg Bool.false_ne_true, or_iff_right hblank]
    cases exactVersion cs <;> simp [Except.map]

/-- What can stand between the brackets: a version alone where both are square, or two bounds, of which
the second is whatever follows the first comma. -/
inductive Reads : WrittenInterval → Prop
  | single {body : List Char} {comma : Bool} (hb : ',' ∉ body) (exact : IsExact body) :
      Reads ⟨true, body, true, comma⟩
  | pair {l u comma : Bool} {low high : List Char} (hl : ',' ∉ low)
      (lower : (∀ c ∈ low, isBlank c = true) ∨ IsExact low)
      (upper : (∀ c ∈ high, isBlank c = true) ∨ IsExact high) :
      Reads ⟨l, low ++ ',' :: high, u, comma⟩

theorem exists_interval?_iff : (∃ i, p.interval? = .ok i) ↔ p.Reads := by
  obtain ⟨l, body, u, comma⟩ := p
  constructor
  · rintro ⟨i, hi⟩
    simp only [interval?, ofBody] at hi
    split at hi
    · rename_i hsplit
      split at hi
      · rename_i hsquare
        obtain ⟨rfl, rfl⟩ := (Bool.and_eq_true ..).mp hsquare
        refine .single (not_mem_of_splitOnce?_eq_none hsplit) (exists_exactVersion_iff.mp ?_)
        cases hv : exactVersion body with
        | error fault => simp [hv, Except.map] at hi
        | ok v => exact ⟨v, rfl⟩
      · cases hi
    · rename_i low high hsplit
      obtain ⟨rfl, hlow⟩ := eq_of_splitOnce? hsplit
      cases hx : bound? low l with
      | error fault => simp [hx, bind, Except.bind] at hi
      | ok x =>
        cases hy : bound? high u with
        | error fault => simp [hx, hy, bind, Except.bind] at hi
        | ok y => exact .pair hlow (exists_bound?_iff.mp ⟨x, hx⟩) (exists_bound?_iff.mp ⟨y, hy⟩)
  · intro h
    cases h with
    | single hb exact =>
      obtain ⟨v, hv⟩ := exists_exactVersion_iff.mpr exact
      exact ⟨exactly v, ofBody_exact hb hv⟩
    | pair hl lower upper =>
      obtain ⟨x, hx⟩ := exists_bound?_iff.mpr lower
      obtain ⟨y, hy⟩ := exists_bound?_iff.mpr upper
      exact ⟨⟨x, y⟩, ofBody_pair hl hx hy⟩

theorem exists_ofBrackets_iff :
    (∃ is, ofBrackets cs = .ok is) ↔ ∃ ps, Lists ps cs ∧ ∀ p ∈ ps, p.Reads := by
  simp only [← exists_interval?_iff, ← exists_forall₂_iff]
  constructor
  · rintro ⟨is, his⟩
    obtain ⟨ps, js, hlists, hread⟩ := exists_lists_of_ofBrackets his
    exact ⟨ps, hlists, js, hread⟩
  · rintro ⟨ps, hlists, js, hread⟩
    exact ⟨_, hlists.ofBrackets_eq hread⟩

/-- One comma stands between each interval and the next, none behind the last, and at most one between
the brackets of each. -/
structure IsUnion (ps : List WrittenInterval) : Prop where
  between : ∀ p ∈ ps.dropLast, p.comma = true
  behind : ∀ p ∈ ps.getLast?, p.comma = false
  inside : ∀ p ∈ ps, p.body.count ',' ≤ 1

theorem isUnion_iff : IsUnion ps ↔ (∀ p ∈ ps.dropLast, p.comma = true) ∧
    (∀ p ∈ ps.getLast?, p.comma = false) ∧ ∀ p ∈ ps, p.body.count ',' ≤ 1 :=
  ⟨fun h => ⟨h.between, h.behind, h.inside⟩, fun h => ⟨h.1, h.2.1, h.2.2⟩⟩

instance (ps : List WrittenInterval) : Decidable (IsUnion ps) := decidable_of_iff _ isUnion_iff.symm

/-- A text is a union of intervals. -/
def SpellsUnion (cs : List Char) : Prop := ∃ ps, Lists ps cs ∧ IsUnion ps

theorem Lists.spellsUnion_iff (h : Lists ps cs) : SpellsUnion cs ↔ IsUnion ps := by
  constructor
  · rintro ⟨qs, hqs, hunion⟩
    rwa [h.unique hqs]
  · exact fun hunion => ⟨ps, h, hunion⟩

end WrittenInterval

namespace VersionRange

open WrittenInterval

/-- A text that starts with a bracket is read exactly if it lists intervals that can be read, each with a
comma behind it or without one. It is a union exactly if commas stand between one interval and the next
and between two bounds, and nowhere else. -/
theorem bracketed_reads_iff {raw : String} (h : isBracketed (trim raw.toList) = true) :
    ((∃ r, ofText raw = .ok r) ↔ ∃ ps, Lists ps (trim raw.toList) ∧ ∀ p ∈ ps, p.Reads) ∧
      ∀ ps, Lists ps (trim raw.toList) → (SpellsUnion (trim raw.toList) ↔ IsUnion ps) := by
  refine ⟨?_, fun ps hps => hps.spellsUnion_iff⟩
  rw [← exists_ofBrackets_iff, ofText, intervalsOf, if_pos h]
  cases ofBrackets (trim raw.toList) <;> simp

/-- A union of two intervals, the second a version alone. -/
theorem bracketed_reads_iff_union :
    let raw := " [1.0, 2.0) , [3.0]"
    isBracketed (trim raw.toList) = true ∧ (∃ r, ofText raw = .ok r) ∧
      SpellsUnion (trim raw.toList) := by
  intro raw
  have hbracket : isBracketed (trim raw.toList) = true := by decide +kernel
  let ps : List WrittenInterval :=
    [⟨true, "1.0, 2.0".toList, false, true⟩, ⟨true, "3.0".toList, true, false⟩]
  have htext : trim raw.toList = "[1.0, 2.0) , [3.0]".toList := by decide +kernel
  have hblank : ∀ c ∈ [' '], isBlank c = true := List.forall_mem_singleton.mpr rfl
  have hlists : Lists ps (trim raw.toList) := by
    rw [htext]
    exact .cons (inside_of_any (by decide +kernel)) hblank hblank
      (.tight (inside_of_any (by decide +kernel)) .nil)
  obtain ⟨hreads, hunion⟩ := bracketed_reads_iff hbracket
  have hfirst : Reads ⟨true, "1.0, 2.0".toList, false, true⟩ :=
    @Reads.pair true false true "1.0".toList " 2.0".toList (by decide +kernel)
      (Or.inr ⟨⟨.release 1 0 0, 2, false⟩, by decide +kernel, rfl⟩)
      (Or.inr ⟨⟨.release 2 0 0, 2, false⟩, by decide +kernel, rfl⟩)
  have hsecond : Reads ⟨true, "3.0".toList, true, false⟩ :=
    .single (by decide +kernel) ⟨⟨.release 3 0 0, 2, false⟩, by decide +kernel, rfl⟩
  have hps : ∀ p ∈ ps, p.Reads := by simpa [ps] using ⟨hfirst, hsecond⟩
  exact ⟨hbracket, hreads.mpr ⟨ps, hlists, hps⟩, (hunion ps hlists).mpr (by decide +kernel)⟩

/-- A comma is missing, one stands behind the last interval, and one stands in the upper bound, where it is
read as a part of the version. -/
theorem bracketed_reads_mistyped :
    let low : Version := .release 1 0 0
    let high : Version := .release 2 0 0
    let mistyped : Version := ⟨2, 0, 0, [], [⟨"-3".toList⟩, ⟨"0".toList⟩]⟩
    (ofText "[1.0,2.0)[3.0,4.0)" =
        .ok ⟨[.halfOpen low high, .halfOpen (.release 3 0 0) (.release 4 0 0)]⟩ ∧
      ¬SpellsUnion "[1.0,2.0)[3.0,4.0)".toList) ∧
    (ofText "[1.0,2.0)," = .ok ⟨[.halfOpen low high]⟩ ∧ ¬SpellsUnion "[1.0,2.0),".toList) ∧
    (ofText "[1.0,2.0,3.0]" = .ok ⟨[⟨some ⟨low, true⟩, some ⟨mistyped, true⟩⟩]⟩ ∧
      ¬SpellsUnion "[1.0,2.0,3.0]".toList) := by
  intro low high mistyped
  have hjoined : Lists
      [⟨true, "1.0,2.0".toList, false, false⟩, ⟨true, "3.0,4.0".toList, false, false⟩]
      "[1.0,2.0)[3.0,4.0)".toList :=
    .tight (inside_of_any (by decide +kernel)) (.tight (inside_of_any (by decide +kernel)) .nil)
  have htrailing : Lists [⟨true, "1.0,2.0".toList, false, true⟩] "[1.0,2.0),".toList :=
    .tight (inside_of_any (by decide +kernel)) .nil
  have htriple : Lists [⟨true, "1.0,2.0,3.0".toList, true, false⟩] "[1.0,2.0,3.0]".toList :=
    .tight (inside_of_any (by decide +kernel)) .nil
  rw [hjoined.spellsUnion_iff, htrailing.spellsUnion_iff, htriple.spellsUnion_iff]
  exact ⟨⟨by decide +kernel, by decide +kernel⟩, ⟨by decide +kernel, by decide +kernel⟩,
    by decide +kernel, by decide +kernel⟩

end VersionRange
end DependencyAudit
