import Mathlib.Data.List.Basic
import DependencyAudit.Proofs.Version.Scanning
import DependencyAudit.Range.Fault

/-! Versions written as numbers with dots between them. Three of the numbers are the version's own
and those past them build metadata, and yet the versions are ordered as the lists of numbers are. -/
namespace DependencyAudit.Version

open Text

/-- Numbers in decimal with dots between them. -/
def dottedNumbers (xs : List ℕ) : List Char := joinWith '.' (xs.map decimal)

variable {xs ys : List ℕ}

theorem of_mem_dottedNumbers {c : Char} (h : c ∈ dottedNumbers xs) :
    c.isDigit = true ∨ c = '.' := by
  rcases of_mem_joinWith h with rfl | ⟨w, hw, hc⟩
  · exact Or.inr rfl
  · obtain ⟨n, -, rfl⟩ := List.mem_map.mp hw
    exact Or.inl (isDigit_of_mem_decimal hc)

theorem not_mem_dottedNumbers {c : Char} (hd : c.isDigit = false) (hc : c ≠ '.') :
    c ∉ dottedNumbers xs := by
  intro h
  rcases of_mem_dottedNumbers h with h | h
  · rw [hd] at h
    cases h
  · exact hc h

theorem startsWithDigit_decimal (n : ℕ) : StartsWithDigit (decimal n) := by
  obtain ⟨c, cs, hc⟩ := List.exists_cons_of_ne_nil (decimal_ne_nil n)
  exact ⟨c, cs, hc, isDigit_of_mem_decimal (hc ▸ List.mem_cons_self)⟩

theorem startsWithDigit_dottedNumbers (hne : xs ≠ []) : StartsWithDigit (dottedNumbers xs) := by
  obtain ⟨x, xs, rfl⟩ := List.exists_cons_of_ne_nil hne
  exact (startsWithDigit_decimal x).joinWith (xs.map decimal)

theorem pieces_dottedNumbers (hne : xs ≠ []) :
    pieces (· == '.') (dottedNumbers xs) = xs.map decimal := by
  refine pieces_joinWith (by simpa using hne) fun w hw hdot => ?_
  obtain ⟨n, -, rfl⟩ := List.mem_map.mp hw
  exact absurd (isDigit_of_mem_decimal hdot) (by decide)

/-- Numbers in decimal, and a wildcard for those that follow. -/
def dottedWildcard (xs : List ℕ) : List Char := dottedNumbers xs ++ ['.', 'x']

theorem of_mem_dottedWildcard {c : Char} (h : c ∈ dottedWildcard xs) :
    c.isDigit = true ∨ c = '.' ∨ c = 'x' := by
  rcases List.mem_append.mp h with h | h
  · exact (of_mem_dottedNumbers h).imp_right Or.inl
  · exact Or.inr (List.mem_pair.mp h)

theorem pieces_dottedWildcard (hne : xs ≠ []) :
    pieces (· == '.') (dottedWildcard xs) = xs.map decimal ++ [['x']] := by
  rw [dottedWildcard, pieces_append (p := (· == '.')) (beq_self_eq_true '.'),
    pieces_dottedNumbers hne]
  rfl

/-- A number in decimal has no needless zero in front. -/
theorem strictNumber?_decimal {n : ℕ} (h : n < numberLimit) :
    strictNumber? (decimal n) = some n := by
  have hempty : (decimal n).isEmpty = false := List.isEmpty_eq_false_iff.mpr (decimal_ne_nil n)
  have hzero : ((decimal n).length > 1 && (decimal n).head? == some '0') = false := by
    rw [Bool.and_eq_false_imp, decide_eq_true_iff, beq_eq_false_iff_ne]
    intro hl hhead
    rw [eq_zero_of_head?_decimal hhead] at hl
    exact absurd hl (by decide)
  rw [strictNumber?, hempty, all_isDigit_decimal, hzero, number?_decimal h]
  rfl

theorem upTo_of_not_mem {mark : Char} {cs : List Char} (h : mark ∉ cs) :
    upTo mark cs = (cs, none) := by
  rw [upTo, splitOnce?_eq_none h]

section Reading

variable (hne : xs ≠ []) (hxs : ∀ n ∈ xs, n < numberLimit)
include hne hxs

/-- The strict grammar has three numbers, and no other count of them. -/
theorem strictNumbers?_dottedNumbers :
    strictNumbers? (dottedNumbers xs) =
      if xs.length = 3 then some (xs.getD 0 0, xs.getD 1 0, xs.getD 2 0) else none := by
  rw [strictNumbers?, pieces_dottedNumbers hne]
  rcases xs with _ | ⟨a, _ | ⟨b, _ | ⟨c, _ | ⟨d, xs⟩⟩⟩⟩
  · exact absurd rfl hne
  · rfl
  · rfl
  · simp [strictNumber?_decimal (hxs a (by simp)), strictNumber?_decimal (hxs b (by simp)),
      strictNumber?_decimal (hxs c (by simp))]
  · simp

theorem strict?_dottedNumbers :
    strict? (dottedNumbers xs) =
      if xs.length = 3 then some (ofNumbers xs [] (extraNumbers xs)) else none := by
  have hplus : '+' ∉ dottedNumbers xs := not_mem_dottedNumbers (by decide) (by decide)
  have hminus : '-' ∉ dottedNumbers xs := not_mem_dottedNumbers (by decide) (by decide)
  rw [strict?, upTo_of_not_mem hplus]
  simp only [upTo_of_not_mem hminus, strictNumbers?_dottedNumbers hne hxs]
  by_cases h : xs.length = 3
  · have hextra : extraNumbers xs = [] := by simp [extraNumbers, h]
    simp [h, marked?, ofNumbers, hextra]
  · simp [h]

omit hne in
theorem isNumber_decimals : ∀ w ∈ xs.map decimal, IsNumber w := by
  intro w hw
  obtain ⟨n, hn, rfl⟩ := List.mem_map.mp hw
  exact isNumber_decimal (hxs n hn)

omit hne in
theorem scan_decimals : scan (xs.map decimal) = .ok (xs, .done) := by
  simpa [scan, Except.map, Function.comp_def] using scan_append (isNumber_decimals hxs) []

theorem scan_dottedNumbers_hyphen (q : List Char) :
    scan (pieces (· == '.') (dottedNumbers xs ++ '-' :: q)) = .ok (xs, .qualifier true ('-' :: q)) := by
  have hnumber := isNumber_decimals hxs
  obtain ⟨ms, n, rfl⟩ := (List.eq_nil_or_concat xs).resolve_left hne
  rw [List.concat_eq_append] at hnumber ⊢
  rw [List.map_append, List.map_singleton, List.forall_mem_append, List.forall_mem_singleton]
    at hnumber
  rw [dottedNumbers, List.map_append, List.map_singleton, scan_hyphenated hnumber.1 hnumber.2]
  simp [Function.comp_def]

theorem loose_dottedNumbers :
    loose (dottedNumbers xs) =
      .ok ⟨ofNumbers xs [] (extraNumbers xs), min xs.length 3, false⟩ := by
  have hscan : scan (pieces (· == '.') (dottedNumbers xs)) = .ok (xs, .done) := by
    rw [pieces_dottedNumbers hne, scan_decimals hxs]
  exact loose_of_scan hscan hne

/-- The strict and the loose grammar give one version, however many numbers there are. -/
theorem ofChars_dottedNumbers :
    WrittenVersion.ofChars (dottedNumbers xs) =
      .ok ⟨ofNumbers xs [] (extraNumbers xs), min xs.length 3, false⟩ := by
  have hblank : ∀ c ∈ dottedNumbers xs, isBlank c = false := by
    intro c hc
    rcases of_mem_dottedNumbers hc with h | rfl
    · exact isBlank_of_isDigit h
    · rfl
  have hdigit := startsWithDigit_dottedNumbers hne
  rw [ofChars_of_startsWithDigit hdigit hblank, strict?_dottedNumbers hne hxs]
  by_cases h : xs.length = 3
  · simp [h]
  · simp [h, loose_dottedNumbers hne hxs]

theorem ofText_dottedNumbers :
    ofText (String.ofList (dottedNumbers xs)) = .ok (ofNumbers xs [] (extraNumbers xs)) := by
  simp [ofText, ofChars_dottedNumbers hne hxs]

omit hxs in
theorem strict?_dottedWildcard : strict? (dottedWildcard xs) = none := by
  have hplus : '+' ∉ dottedWildcard xs := fun h => absurd (of_mem_dottedWildcard h) (by decide)
  have hminus : '-' ∉ dottedWildcard xs := fun h => absurd (of_mem_dottedWildcard h) (by decide)
  have hnumbers : strictNumbers? (dottedWildcard xs) = none := by
    rw [strictNumbers?, pieces_dottedWildcard hne]
    rcases xs with _ | ⟨a, _ | ⟨b, _ | ⟨c, xs⟩⟩⟩
    · exact absurd rfl hne
    · rfl
    · simp [strictNumber?]
    · cases xs <;> rfl
  rw [strict?, upTo_of_not_mem hplus]
  simp only [upTo_of_not_mem hminus, hnumbers]
  rfl

/-- The numbers are those of the first version that the wildcard stands for. -/
theorem ofChars_dottedWildcard :
    WrittenVersion.ofChars (dottedWildcard xs) =
      .ok ⟨ofNumbers xs [] [], min xs.length 3, true⟩ := by
  have hblank : ∀ c ∈ dottedWildcard xs, isBlank c = false := by
    intro c hc
    rcases of_mem_dottedWildcard hc with h | rfl | rfl
    · exact isBlank_of_isDigit h
    · rfl
    · rfl
  have hscan : scan (pieces (· == '.') (dottedWildcard xs)) = .ok (xs, .wildcard) := by
    rw [pieces_dottedWildcard hne, scan_append (isNumber_decimals hxs)]
    simp [scan, isWildcard, Except.map, Function.comp_def]
  have hdigit : StartsWithDigit (dottedWildcard xs) := (startsWithDigit_dottedNumbers hne).append _
  rw [ofChars_of_startsWithDigit hdigit hblank, strict?_dottedWildcard hne]
  exact loose_of_scan hscan hne

end Reading

theorem order_decimal (m n : ℕ) :
    Identifier.order ⟨decimal m⟩ ⟨decimal n⟩ = compare m n := by
  have hm : (Identifier.mk (decimal m)).isNumeric = true := all_isDigit_decimal m
  have hn : (Identifier.mk (decimal n)).isNumeric = true := all_isDigit_decimal n
  simp only [Identifier.order, hm, hn, value_decimal]
  cases h : compare m n with
  | lt => rfl
  | eq => simp [Nat.compare_eq_eq.mp h]
  | gt => rfl

/-- Numbers that stand as identifiers are ordered as a list of numbers. -/
theorem compareLex_decimals (xs ys : List ℕ) :
    List.compareLex Identifier.order (xs.map fun n => ⟨decimal n⟩) (ys.map fun n => ⟨decimal n⟩) =
      .lt ↔ xs < ys := by
  induction xs generalizing ys with
  | nil => cases ys <;> simp [List.compareLex]
  | cons x xs ih =>
    cases ys with
    | nil => simp [List.compareLex]
    | cons y ys =>
      rw [List.map_cons, List.map_cons, List.compareLex_cons_cons, order_decimal,
        Ordering.then_eq_lt, Nat.compare_eq_lt, Nat.compare_eq_eq, ih, List.cons_lt_cons_iff]

/-- The version's own numbers, zero where they are missing, and then the others. -/
theorem rightpad_eq (xs : List ℕ) :
    xs.rightpad 3 0 = xs.getD 0 0 :: xs.getD 1 0 :: xs.getD 2 0 :: xs.drop 3 := by
  rcases xs with _ | ⟨a, _ | ⟨b, _ | ⟨c, xs⟩⟩⟩ <;> simp [List.rightpad]

theorem ofNumbers_lt_iff (xs ys : List ℕ) :
    ofNumbers xs [] (extraNumbers xs) < ofNumbers ys [] (extraNumbers ys) ↔
      xs.rightpad 3 0 < ys.rightpad 3 0 := by
  change order _ _ = .lt ↔ _
  simp only [order, ofNumbers, extraNumbers, rightpad_eq, List.cons_lt_cons_iff,
    Ordering.then_eq_lt, Nat.compare_eq_lt, Nat.compare_eq_eq, compareLex_decimals]
  simp [preOrder]

theorem ofNumbers_inj (xs ys : List ℕ) :
    ofNumbers xs [] (extraNumbers xs) = ofNumbers ys [] (extraNumbers ys) ↔
      xs.rightpad 3 0 = ys.rightpad 3 0 := by
  have hinj : Function.Injective fun n : ℕ => Identifier.mk (decimal n) := fun m n h =>
    decimal_injective (Identifier.mk.inj h)
  simp only [ofNumbers, extraNumbers, rightpad_eq, mk.injEq, List.cons.injEq, true_and,
    (List.map_injective_iff.mpr hinj).eq_iff]

/-- Texts of numbers are versions, and these are ordered number by number, where a missing second or
third number counts as zero and a list comes after all of which it is a continuation. -/
theorem numbers_keep_order (hx : xs ≠ []) (hy : ys ≠ []) (hxs : ∀ n ∈ xs, n < numberLimit)
    (hys : ∀ n ∈ ys, n < numberLimit) :
    ∃ v w, ofText (String.ofList (dottedNumbers xs)) = .ok v ∧
      ofText (String.ofList (dottedNumbers ys)) = .ok w ∧
      (v < w ↔ xs.rightpad 3 0 < ys.rightpad 3 0) ∧
      (v = w ↔ xs.rightpad 3 0 = ys.rightpad 3 0) :=
  ⟨_, _, ofText_dottedNumbers hx hxs, ofText_dottedNumbers hy hys, ofNumbers_lt_iff xs ys,
    ofNumbers_inj xs ys⟩

/-- The fifth numbers are compared by value, and not letter by letter. -/
theorem numbers_keep_order_fifth :
    let xs := [1, 2, 3, 18446744073709551615, 9]
    let ys := [1, 2, 3, 18446744073709551615, 10, 0]
    (xs ≠ [] ∧ ys ≠ [] ∧ (∀ n ∈ xs, n < numberLimit) ∧ ∀ n ∈ ys, n < numberLimit) ∧
      ∃ v w, ofText "1.2.3.18446744073709551615.9" = .ok v ∧
        ofText "1.2.3.18446744073709551615.10.0" = .ok w ∧ v < w ∧ v ≠ w := by
  intro xs ys
  have hx : xs ≠ [] := nofun
  have hy : ys ≠ [] := nofun
  have hxs : ∀ n ∈ xs, n < numberLimit := by decide
  have hys : ∀ n ∈ ys, n < numberLimit := by decide
  obtain ⟨v, w, hv, hw, hlt, heq⟩ := numbers_keep_order hx hy hxs hys
  exact ⟨⟨hx, hy, hxs, hys⟩, v, w, hv, hw, hlt.mpr (by decide), mt heq.mp (by decide)⟩

end DependencyAudit.Version
