import DependencyAudit.Proofs.Range.Notations

/-! Comparators that contradict each other. Whether some of a set do is a matter of two of them, in
whatever order they stand. But a set is read only as far as the first contradiction, and so the order
decides whether a comparator behind it, which may be none at all, is ever looked at. -/
namespace DependencyAudit

namespace Interval

open DependencyAudit.Relation Text

variable {a b i x : Interval} {is js : List Interval}

theorem crosses_tighter_lower (a b u : Option Bound) :
    crosses ⟨tighter .gt a b, u⟩ = true ↔ crosses ⟨a, u⟩ = true ∨ crosses ⟨b, u⟩ = true := by
  cases u with
  | none => simp [crosses]
  | some u =>
    cases a with
    | none => cases b <;> simp [tighter, crosses]
    | some a =>
      cases b with
      | none => simp [tighter, crosses]
      | some b =>
        rw [crosses_some_iff a, crosses_some_iff b]
        rcases lt_trichotomy a.version b.version with h | h | h
        · rw [tighter_of_lt .gt h, if_neg (by decide), crosses_some_iff]
          grind
        · rw [tighter_of_eq .gt h, crosses_some_iff, Bool.and_eq_true]
          grind
        · rw [tighter_of_gt .gt h, if_pos rfl, crosses_some_iff]
          grind

theorem crosses_tighter_upper (l a b : Option Bound) :
    crosses ⟨l, tighter .lt a b⟩ = true ↔ crosses ⟨l, a⟩ = true ∨ crosses ⟨l, b⟩ = true := by
  cases l with
  | none => simp [crosses]
  | some l =>
    cases a with
    | none => cases b <;> simp [tighter, crosses]
    | some a =>
      cases b with
      | none => simp [tighter, crosses]
      | some b =>
        rw [crosses_some_iff l a, crosses_some_iff l b]
        rcases lt_trichotomy a.version b.version with h | h | h
        · rw [tighter_of_lt .lt h, if_pos rfl, crosses_some_iff]
          grind
        · rw [tighter_of_eq .lt h, crosses_some_iff, Bool.and_eq_true]
          grind
        · rw [tighter_of_gt .lt h, if_neg (by decide), crosses_some_iff]
          grind

/-- Nothing is left of two intervals where a lower bound of one crosses an upper bound of one. -/
theorem intersect?_eq_none_iff : a.intersect? b = none ↔
    (a.crosses = true ∨ crosses ⟨a.lower, b.upper⟩ = true) ∨
      crosses ⟨b.lower, a.upper⟩ = true ∨ b.crosses = true := by
  have hnone : a.intersect? b = none ↔
      crosses ⟨tighter .gt a.lower b.lower, tighter .lt a.upper b.upper⟩ = true := by
    simp [intersect?]
  rw [hnone, crosses_tighter_lower, crosses_tighter_upper, crosses_tighter_upper]

theorem intersect?_self_eq_none_iff : a.intersect? a = none ↔ a.crosses = true := by
  rw [intersect?_eq_none_iff]
  simp

theorem not_crosses_of_intersect? (h : a.intersect? b = some i) :
    a.crosses = false ∧ b.crosses = false := by
  have hab : ¬a.intersect? b = none := by simp [h]
  rw [intersect?_eq_none_iff] at hab
  grind

/-- A third interval has nothing in common with what two share if and only if it has nothing in common
with one of the two. -/
theorem intersect?_eq_none_of_intersect? (h : a.intersect? b = some i) (x : Interval) :
    i.intersect? x = none ↔ a.intersect? x = none ∨ b.intersect? x = none := by
  have hab : ¬a.intersect? b = none := by simp [h]
  obtain ⟨-, rfl⟩ := intersect?_eq_some_iff.mp h
  obtain ⟨al, au⟩ := a
  obtain ⟨bl, bu⟩ := b
  obtain ⟨xl, xu⟩ := x
  simp only [intersect?_eq_none_iff, crosses_tighter_lower, crosses_tighter_upper] at hab ⊢
  grind

/-- Two of the intervals have nothing in common. -/
def Clash (is : List Interval) : Prop := ∃ i ∈ is, ∃ j ∈ is, i.intersect? j = none

instance (is : List Interval) : Decidable (Clash is) :=
  inferInstanceAs (Decidable (∃ i ∈ is, ∃ j ∈ is, i.intersect? j = none))

theorem Clash.mono (h : Clash is) (hsub : ∀ i ∈ is, i ∈ js) : Clash js := by
  obtain ⟨i, hi, j, hj, hnone⟩ := h
  exact ⟨i, hsub i hi, j, hsub j hj, hnone⟩

theorem not_clash_nil : ¬Clash [] := by
  rintro ⟨i, hi, -⟩
  cases hi

theorem clash_cons_iff : Clash (a :: is) ↔
    a.crosses = true ∨ (∃ j ∈ is, a.intersect? j = none) ∨ Clash is := by
  simp only [Clash, List.exists_mem_cons_iff, intersect?_self_eq_none_iff]
  constructor
  · rintro ((h | h) | ⟨i, hi, h | h⟩)
    · exact Or.inl h
    · exact Or.inr (Or.inl h)
    · exact Or.inr (Or.inl ⟨i, hi, by rwa [intersect?_comm]⟩)
    · exact Or.inr (Or.inr ⟨i, hi, h⟩)
  · rintro (h | h | ⟨i, hi, h⟩)
    · exact Or.inl (Or.inl h)
    · exact Or.inl (Or.inr h)
    · exact Or.inr ⟨i, hi, Or.inr h⟩

theorem not_clash_singleton (ha : a.crosses = false) : ¬Clash [a] := by
  simp [clash_cons_iff, not_clash_nil, ha]

/-- What two intervals share can take their place. -/
theorem clash_cons_of_intersect? (h : a.intersect? b = some i) :
    Clash (i :: is) ↔ Clash (a :: b :: is) := by
  obtain ⟨ha, hb⟩ := not_crosses_of_intersect? h
  simp only [clash_cons_iff, crosses_of_intersect? h, ha, hb, List.exists_mem_cons_iff, h,
    intersect?_eq_none_of_intersect? h, and_or_left, exists_or]
  simp [or_assoc]

theorem clash_any_cons : Clash (any :: is) ↔ Clash is := by
  rw [clash_cons_iff]
  constructor
  · rintro (h | ⟨j, hj, h⟩ | h)
    · cases h
    · have hj' : j.crosses = true := by
        rw [intersect?_eq_none_iff] at h
        simpa [any, crosses] using h
      exact ⟨j, hj, j, hj, intersect?_self_eq_none_iff.mpr hj'⟩
    · exact h
  · exact fun h => Or.inr (Or.inr h)

/-- Whether a comparator can be read. -/
def Reads (t : List Char) : Prop := ∃ i, ofComparator t = .ok i

theorem reads_iff {t : List Char} : Reads t ↔ (ofComparator t).isOk = true := by
  rw [Reads]
  cases ofComparator t <;> simp [Except.isOk, Except.toBool]

instance (t : List Char) : Decidable (Reads t) := decidable_of_iff _ reads_iff.symm

/-- The intervals of those comparators that can be read. -/
def readings (ts : List (List Char)) : List Interval := ts.filterMap fun t => (ofComparator t).toOption

variable {t : List Char} {ts us : List (List Char)} {acc : Interval}

theorem readings_cons (h : ofComparator t = .ok i) (ts : List (List Char)) :
    readings (t :: ts) = i :: readings ts := by
  simp [readings, h, Except.toOption]

theorem mem_readings_iff : i ∈ readings ts ↔ ∃ t ∈ ts, ofComparator t = .ok i := by
  rw [readings, List.mem_filterMap]
  refine exists_congr fun t => and_congr_right fun _ => ?_
  cases ofComparator t <;> simp [Except.toOption]

/-- Only the comparators that can be read make a contradiction. -/
theorem Clash.of_readings (h : Clash (readings ts)) (hsub : ∀ t ∈ ts, Reads t → t ∈ us) :
    Clash (readings us) := by
  refine h.mono fun i hi => ?_
  obtain ⟨t, ht, hread⟩ := mem_readings_iff.mp hi
  exact mem_readings_iff.mpr ⟨t, hsub t ht ⟨i, hread⟩, hread⟩

/-- The comparators at the start can be read, and of what is in `acc` they leave nothing. -/
def Contradicts (acc : Interval) (ts : List (List Char)) : Prop :=
  ∃ before, before <+: ts ∧ (∀ t ∈ before, Reads t) ∧ Clash (acc :: readings before)

theorem contradicts_cons (ha : acc.crosses = false) (hi : ofComparator t = .ok i) :
    Contradicts acc (t :: ts) ↔
      ∃ before, before <+: ts ∧ (∀ u ∈ before, Reads u) ∧ Clash (acc :: i :: readings before) := by
  constructor
  · rintro ⟨before, hstart, hreads, hclash⟩
    cases before with
    | nil => exact absurd hclash (not_clash_singleton ha)
    | cons u before =>
      obtain ⟨rfl, hmore⟩ := List.cons_prefix_cons.mp hstart
      rw [readings_cons hi] at hclash
      exact ⟨before, hmore, (List.forall_mem_cons.mp hreads).2, hclash⟩
  · rintro ⟨before, hstart, hreads, hclash⟩
    refine ⟨t :: before, List.cons_prefix_cons.mpr ⟨rfl, hstart⟩,
      List.forall_mem_cons.mpr ⟨⟨i, hi⟩, hreads⟩, ?_⟩
    rwa [readings_cons hi]

theorem not_contradicts_of_error (ha : acc.crosses = false) {fault : RangeFault}
    (he : ofComparator t = .error fault) : ¬Contradicts acc (t :: ts) := by
  rintro ⟨before, hstart, hreads, hclash⟩
  cases before with
  | nil => exact absurd hclash (not_clash_singleton ha)
  | cons u before =>
    obtain ⟨rfl, -⟩ := List.cons_prefix_cons.mp hstart
    obtain ⟨i, hi⟩ := hreads u List.mem_cons_self
    rw [he] at hi
    cases hi

/-- A set of comparators is read if each of them can be, or if reading stops before it comes to one that
cannot. -/
theorem exists_ofTokens_iff (hts : ∀ t ∈ ts, t.all isMark = false) (ha : acc.crosses = false) :
    (∃ o, ofTokens acc [] ts = .ok o) ↔ (∀ t ∈ ts, Reads t) ∨ Contradicts acc ts := by
  induction ts generalizing acc with
  | nil => simp [ofTokens]
  | cons t ts ih =>
    obtain ⟨ht, hts⟩ := List.forall_mem_cons.mp hts
    cases hi : ofComparator t with
    | error fault =>
      have hnot : ¬Reads t := by simp [Reads, hi]
      simp [ofTokens, ht, hi, hnot, not_contradicts_of_error ha hi]
    | ok i =>
      have hreads : Reads t := ⟨i, hi⟩
      rw [contradicts_cons ha hi, List.forall_mem_cons, and_iff_right hreads]
      simp only [ofTokens, ht, Bool.false_eq_true, if_false, List.nil_append, hi]
      cases hn : acc.intersect? i with
      | none =>
        have hclash : Clash [acc, i] := ⟨acc, by simp, i, by simp, hn⟩
        exact iff_of_true ⟨none, rfl⟩ (Or.inr ⟨[], List.nil_prefix, List.forall_mem_nil _, hclash⟩)
      | some next =>
        rw [ih hts (crosses_of_intersect? hn), Contradicts]
        simp only [clash_cons_of_intersect? hn]

/-- A comparator that can stand between others: nothing in it cuts an expression, it is no hyphen, and
there is more to it than marks. -/
structure IsToken (t : List Char) : Prop where
  plain : ∀ c ∈ t, isPlain c = true
  ne_hyphen : t ≠ ['-']
  not_marks : t.all isMark = false

theorem isToken_iff : IsToken t ↔ t.all isPlain = true ∧ t ≠ ['-'] ∧ t.all isMark = false := by
  rw [List.all_eq_true]
  exact ⟨fun h => ⟨h.plain, h.ne_hyphen, h.not_marks⟩, fun h => ⟨h.1, h.2.1, h.2.2⟩⟩

instance (t : List Char) : Decidable (IsToken t) := decidable_of_iff _ isToken_iff.symm

theorem IsToken.ne_nil (h : IsToken t) : t ≠ [] := by
  rintro rfl
  exact absurd h.not_marks (by decide)

theorem IsToken.not_sep (h : IsToken t) : ∀ c ∈ t, isSeparator c = false :=
  fun c hc => isSeparator_of_isPlain (h.plain c hc)

theorem words_tokens (hts : ∀ t ∈ ts, IsToken t) : words isSeparator (joinWith ' ' ts) = ts :=
  words_joinWith (by decide) fun t ht => ⟨(hts t ht).ne_nil, (hts t ht).not_sep⟩

theorem not_mem_tokens (hts : ∀ t ∈ ts, IsToken t) {c : Char} (hc : isPlain c = false)
    (hblank : c ≠ ' ') : c ∉ joinWith ' ' ts := by
  intro h
  rcases of_mem_joinWith h with rfl | ⟨t, ht, hm⟩
  · exact hblank rfl
  · rw [(hts t ht).plain c hm] at hc
    cases hc

/-- Two words or more are neither a name nor a wildcard. -/
theorem ofAlternative_of_words {cs : List Char} (hh : ['-'] ∉ words isSeparator cs)
    (hlen : 2 ≤ (words isSeparator cs).length) :
    ofAlternative (trim cs) = ofTokens any [] (words isSeparator cs) := by
  rw [← VersionRange.words_trim cs] at hh hlen ⊢
  generalize trim cs = cs at hh hlen ⊢
  have heverything : isEverything cs = false := by
    rw [← Bool.not_eq_true]
    intro he
    rcases cases_of_isEverything he with rfl | rfl | rfl | rfl | rfl <;>
      exact absurd hlen (by decide)
  rw [ofAlternative, heverything, if_neg Bool.false_ne_true, splitHyphen?_eq_none hh]

end Interval

namespace VersionRange

open DependencyAudit.Interval Text

variable {ts : List (List Char)}

/-- Whether a text can be read as a range. -/
def Accepts (text : List Char) : Prop := ∃ r, ofText (String.ofList text) = .ok r

theorem accepts_iff {text : List Char} : Accepts text ↔ ∃ is, intervalsOf (trim text) = .ok is := by
  rw [Accepts, ofText, String.toList_ofList]
  cases intervalsOf (trim text) <;> simp

theorem intervalsOf_tokens (hts : ∀ t ∈ ts, IsToken t) (hlen : 2 ≤ ts.length) :
    intervalsOf (trim (joinWith ' ' ts)) = (ofTokens .any [] ts).map fun o => [o].filterMap id := by
  have hwords := words_tokens hts
  have hmem {c : Char} (hc : isPlain c = false) (hb : c ≠ ' ') : c ∉ trim (joinWith ' ' ts) :=
    fun h => not_mem_tokens hts hc hb (mem_of_mem_trim h)
  have hbracket : isBracketed (trim (joinWith ' ' ts)) = false :=
    isBracketed_of_not_mem ⟨hmem (by decide) (by decide), hmem (by decide) (by decide)⟩
  have hhyphen : ['-'] ∉ words isSeparator (joinWith ' ' ts) := by
    rw [hwords]
    exact fun h => (hts _ h).ne_hyphen rfl
  rw [intervalsOf, hbracket, if_neg Bool.false_ne_true,
    alternatives_of_not_mem (hmem (by decide) (by decide)), List.mapM_cons, trim_trim,
    ofAlternative_of_words hhyphen (by rwa [hwords]), hwords]
  cases ofTokens .any [] ts <;> rfl

theorem accepts_tokens_iff (hts : ∀ t ∈ ts, IsToken t) (hlen : 2 ≤ ts.length) :
    Accepts (joinWith ' ' ts) ↔ (∀ t ∈ ts, Reads t) ∨ Contradicts any ts := by
  rw [accepts_iff, intervalsOf_tokens hts hlen,
    ← exists_ofTokens_iff (fun t ht => (hts t ht).not_marks) rfl]
  cases ofTokens .any [] ts <;> simp [Except.map]

theorem contradicts_any_iff : Contradicts any ts ↔
    ∃ before, before <+: ts ∧ (∀ t ∈ before, Reads t) ∧ Clash (readings before) := by
  simp only [Contradicts, clash_any_cons]

/-- Comparators that leave nothing do so wherever they stand, and so do they in front of all those that
cannot be read. -/
theorem accepts_readable_first (hts : ∀ t ∈ ts, IsToken t) (hlen : 2 ≤ ts.length)
    (h : Clash (readings ts)) : ∃ us, us.Perm ts ∧ Accepts (joinWith ' ' us) := by
  let readable := ts.filter fun t => decide (Reads t)
  have hperm : (readable ++ ts.filter fun t => !decide (Reads t)).Perm ts :=
    List.filter_append_perm _ ts
  have hclash : Clash (readings readable) := h.of_readings fun t ht hreads =>
    List.mem_filter.mpr ⟨ht, by simpa using hreads⟩
  refine ⟨_, hperm, ?_⟩
  rw [accepts_tokens_iff (fun t ht => hts t (hperm.mem_iff.mp ht)) (hperm.length_eq ▸ hlen),
    contradicts_any_iff]
  refine Or.inr ⟨readable, List.prefix_append _ _, fun t ht => ?_, hclash⟩
  simpa using (List.mem_filter.mp ht).2

/-- In front of all the others a comparator that cannot be read is always found. -/
theorem not_accepts_unreadable_first (hts : ∀ t ∈ ts, IsToken t) (hlen : 2 ≤ ts.length)
    {t : List Char} (ht : t ∈ ts) (hnot : ¬Reads t) :
    ∃ us, us.Perm ts ∧ ¬Accepts (joinWith ' ' us) := by
  have hperm : (t :: ts.erase t).Perm ts := (List.perm_cons_erase ht).symm
  refine ⟨_, hperm, ?_⟩
  rw [accepts_tokens_iff (fun u hu => hts u (hperm.mem_iff.mp hu)) (hperm.length_eq ▸ hlen)]
  rintro (hreads | hcontra)
  · exact hnot (hreads t List.mem_cons_self)
  · cases he : ofComparator t with
    | ok i => exact hnot ⟨i, he⟩
    | error fault => exact not_contradicts_of_error rfl he hcontra

/-- A set of comparators is accepted exactly if each of them can be read, or if some at its start can and
contradict each other, whatever follows. So its order makes no difference exactly if each of them can be
read, or if those that can do not contradict each other. -/
theorem set_reads_iff (hts : ∀ t ∈ ts, IsToken t) (hlen : 2 ≤ ts.length) :
    (Accepts (joinWith ' ' ts) ↔ (∀ t ∈ ts, Reads t) ∨
      ∃ before, before <+: ts ∧ (∀ t ∈ before, Reads t) ∧ Clash (readings before)) ∧
    ((∀ us, us.Perm ts → (Accepts (joinWith ' ' us) ↔ Accepts (joinWith ' ' ts))) ↔
      (∀ t ∈ ts, Reads t) ∨ ¬Clash (readings ts)) := by
  have haccepts {us : List (List Char)} (hperm : us.Perm ts) : Accepts (joinWith ' ' us) ↔
      (∀ t ∈ us, Reads t) ∨ Contradicts any us :=
    accepts_tokens_iff (fun t ht => hts t (hperm.mem_iff.mp ht)) (hperm.length_eq ▸ hlen)
  refine ⟨by rw [haccepts (.refl ts), contradicts_any_iff], fun hfree => ?_, ?_⟩
  · by_contra hnot
    rw [not_or, not_not] at hnot
    obtain ⟨hsome, hclash⟩ := hnot
    obtain ⟨t, ht, hunread⟩ : ∃ t ∈ ts, ¬Reads t := by simpa using hsome
    obtain ⟨us, hus, hyes⟩ := accepts_readable_first hts hlen hclash
    obtain ⟨vs, hvs, hno⟩ := not_accepts_unreadable_first hts hlen ht hunread
    exact hno ((hfree vs hvs).mpr ((hfree us hus).mp hyes))
  · intro h us hperm
    rw [haccepts hperm, haccepts (.refl ts)]
    have hreads : (∀ t ∈ us, Reads t) ↔ ∀ t ∈ ts, Reads t := by simp only [hperm.mem_iff]
    rcases h with h | h
    · exact iff_of_true (Or.inl (hreads.mpr h)) (Or.inl h)
    · have hcontra {vs : List (List Char)} (hvs : vs.Perm ts) : ¬Contradicts any vs := by
        rw [contradicts_any_iff]
        rintro ⟨before, hstart, -, hclash⟩
        exact h (hclash.of_readings fun t ht _ => hvs.mem_iff.mp (hstart.subset ht))
      rw [hreads, or_iff_left (hcontra hperm), or_iff_left (hcontra (.refl ts))]

/-- Behind a contradiction anything is accepted, and there is an order in which it is not. -/
theorem set_reads_iff_behind :
    let ts := [">=1.0".toList, "<1".toList, "latest".toList]
    ((∀ t ∈ ts, IsToken t) ∧ 2 ≤ ts.length) ∧ Accepts ">=1.0 <1 latest".toList ∧
      ∃ us, us.Perm ts ∧ ¬Accepts (joinWith ' ' us) := by
  intro ts
  have hts : ∀ t ∈ ts, IsToken t := by decide +kernel
  have hlen : 2 ≤ ts.length := by decide
  obtain ⟨haccepts, hfree⟩ := set_reads_iff hts hlen
  have hyes : Accepts (joinWith ' ' ts) := haccepts.mpr <| Or.inr
    ⟨[">=1.0".toList, "<1".toList], by decide +kernel, by decide +kernel, by decide +kernel⟩
  have hclash : ¬((∀ t ∈ ts, Reads t) ∨ ¬Clash (readings ts)) := by decide +kernel
  have htext : joinWith ' ' ts = ">=1.0 <1 latest".toList := by decide +kernel
  rw [← hfree] at hclash
  refine ⟨⟨hts, hlen⟩, htext ▸ hyes, ?_⟩
  simpa [hyes] using hclash

/-- What is no version is not looked at where it stands last. -/
theorem set_reads_in_one_order :
    let ts := [">2".toList, "<1".toList, "foo".toList]
    let us := ["foo".toList, ">2".toList, "<1".toList]
    (∀ t ∈ ts, IsToken t) ∧ us.Perm ts ∧
      ofText (String.ofList (joinWith ' ' ts)) = .ok ⟨[]⟩ ∧
      ofText (String.ofList (joinWith ' ' us)) =
        .error ⟨"foo >2 <1", .version .noNumber⟩ := by
  intro ts us
  exact ⟨by decide +kernel, by decide +kernel, by decide +kernel, by decide +kernel⟩

end VersionRange
end DependencyAudit
