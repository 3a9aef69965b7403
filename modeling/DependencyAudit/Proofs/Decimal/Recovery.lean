import DependencyAudit.Proofs.Decimal.Layout
import DependencyAudit.Proofs.Decimal.Scaling
import DependencyAudit.Proofs.Decimal.Shortest

/-! A number of single precision is read back from its numeral, by way of double precision. -/
namespace DependencyAudit.Decimal

namespace Numeral

theorem absorb_eq (cs : List Char) (sum : ℕ)
    (h : sum * 10 ^ cs.length + Text.value cs < Text.numberLimit) :
    absorb sum cs = (sum * 10 ^ cs.length + Text.value cs, cs.length) := by
  induction cs generalizing sum with
  | nil => simp [absorb]
  | cons c cs ih =>
    have he : (sum * 10 + (c.toNat - '0'.toNat)) * 10 ^ cs.length + Text.value cs =
        sum * 10 ^ (c :: cs).length + Text.value (c :: cs) := by
      rw [← List.singleton_append, Text.value_append, Text.value_singleton, List.length_append,
        List.length_singleton]
      ring
    have hnext : sum * 10 + (c.toNat - '0'.toNat) < Text.numberLimit :=
      calc sum * 10 + (c.toNat - '0'.toNat) ≤
            (sum * 10 + (c.toNat - '0'.toNat)) * 10 ^ cs.length :=
            Nat.le_mul_of_pos_right _ (Nat.pow_pos (by decide))
        _ < Text.numberLimit := by omega
    simp only [absorb, if_pos hnext, ih _ (he ▸ h), he, List.length_cons]

theorem real_eq (n : Numeral) (h : n.digits < Text.numberLimit) {d r : BinaryNumber}
    (hd : double.round? n.digits 1 = some d) (hr : scale d n.power 4 = some r) :
    n.real = .real n.negative r := by
  have hdigits : n.digits = Text.value n.whole * 10 ^ n.fraction.length + Text.value n.fraction :=
    Text.value_append _ _
  have hwhole : Text.value n.whole ≤ n.digits :=
    hdigits ▸ (Nat.le_mul_of_pos_right _ (Nat.pow_pos (by decide))).trans (Nat.le_add_right _ _)
  have hpower : ((n.whole.length - n.whole.length : ℕ) : ℤ) - n.fraction.length +
      (n.exponent.map (·.value)).getD 0 = n.power := by
    rw [power]
    omega
  have h₁ := absorb_eq n.whole 0 (by omega)
  rw [Nat.zero_mul, Nat.zero_add] at h₁
  have h₂ := absorb_eq n.fraction (Text.value n.whole) (by omega)
  rw [← hdigits] at h₂
  simp only [real, h₁, h₂, hpower, hd, hr]

theorem amount_of_real (n : Numeral) (h : n.fraction ≠ [] ∨ n.exponent ≠ none) :
    n.amount = n.real := by
  have : (n.fraction.isEmpty && n.exponent.isNone) = false := by
    rcases h with h | h
    · simp [h]
    · simp [Option.isSome_iff_ne_none, h]
  simp [amount, this]

end Numeral

variable {d : BinaryNumber} {n : ℕ} {place : ℤ}

theorem pos_of_onGrid (hm : 0 < d.mantissa) (hgrid : (Basin.of single d).onGrid? place = some n) :
    0 < n := by
  have hpos := (Basin.onGrid?_spec single hm hgrid).1.pos hm
  rcases Nat.eq_zero_or_pos n with rfl | h
  · simp at hpos
  · exact h

/-- What is read from the numeral of a decimal comes so near to it that it is rounded as the decimal
is. -/
theorem exists_amount (hd : single.Holds d) (hm : 0 < d.mantissa)
    (hgrid : (Basin.of single d).onGrid? place = some n) (hplace : -53 ≤ place)
    (hplace' : place ≤ 38) (hskip : ¬(place = -32 ∧ (n = 14077062 ∨ n = 7038531)))
    {num : Numeral} (hw : Writes num ⟨n, place⟩) :
    ∃ r, num.amount = .real num.negative r ∧ single.RoundsTo d r.toRat := by
  obtain ⟨hround, -, -⟩ := Basin.onGrid?_spec single hm hgrid
  have hpos := hround.pos hm
  have hvalue : (num.digits : ℚ) * 10 ^ num.power = n * 10 ^ place := hw.value_eq
  have hpower : num.power.natAbs ≤ 60 := by
    have := hw.power_bounds
    dsimp only at this
    omega
  have hlimit : num.digits < Text.numberLimit := hw.digits_lt.trans (by decide)
  have hdigits : 0 < num.digits := by
    rcases Nat.eq_zero_or_pos num.digits with h | h
    · simp [← hvalue, h] at hpos
    · exact h
  have hdigits' : (num.digits : ℚ) ≤ 10 ^ 14 := by exact_mod_cast hw.digits_lt.le
  obtain ⟨a, ha, ha'⟩ := exists_double_eq (x := num.digits) (q := 0) hdigits one_pos (by simp)
    (hdigits'.trans (by norm_num)) (hw.digits_lt.trans (by decide)) (by decide) (by simp)
  obtain ⟨r, hr, hnear⟩ := Numeral.exists_scale_near ha' hdigits hw.digits_lt.le hpower 3
  refine ⟨r, ?_, ?_⟩
  · rw [num.amount_of_real hw.real, num.real_eq hlimit ha hr]
  rw [hvalue] at hnear
  rcases le_or_gt n (2 ^ 24) with hn | hn
  · have hn₀ := pos_of_onGrid hm hgrid
    refine roundsTo_of_short hd hm hplace hplace' hround hn₀ hn hskip hnear ?_
    rintro ⟨m, hm', j, he⟩
    have hle := Numeral.place_le_of_eq hn₀ hn hm' he
    have hpower' : num.power.natAbs ≤ 22 := by
      have := hw.power_bounds
      dsimp only at this
      omega
    obtain ⟨r', hr', he'⟩ := Numeral.exists_scale_eq ha' hdigits hw.digits_lt.le hpower' hm'
      (hvalue.trans he) 3
    obtain rfl : r = r' := Option.some.inj (hr.symm.trans hr')
    rw [he', hvalue]
  · refine roundsTo_of_long hd hm hgrid hn (hnear.trans ?_)
    gcongr
    norm_num

/-- The one decimal that lies too near to a midpoint is read as it should be all the same. -/
theorem exists_amount_skip (negative : Bool) (hn : n = 14077062 ∨ n = 7038531) :
    ∃ r, (singleLayout.numeral negative ⟨n, -32⟩).amount = .real negative r ∧
      single.round? r.numerator r.denominator = single.round? n (10 ^ 32) := by
  rcases hn with rfl | rfl
  · refine ⟨⟨6131425250115583, -135⟩, ?_, by decide +kernel⟩
    cases negative <;> decide +kernel
  · refine ⟨⟨6131425250115583, -136⟩, ?_, by decide +kernel⟩
    cases negative <;> decide +kernel

theorem isWritten_shortest (negative : Bool) (hd : single.Holds d) (hm : 0 < d.mantissa) :
    (singleLayout.numeral negative (shortest single d)).IsWritten := by
  obtain ⟨n, place, hs, hgrid, -, -, hn⟩ := exists_shortest_eq hd hm
  have hn₀ := pos_of_onGrid hm hgrid
  rw [hs]
  exact (writes_numeral negative hn₀ hn).1.written

/-- Writing the shortest decimal of a number and rounding what is read gives the number. -/
theorem exists_amount_shortest (negative : Bool) (hd : single.Holds d) (hm : 0 < d.mantissa) :
    ∃ r, (singleLayout.numeral negative (shortest single d)).amount = .real negative r ∧
      single.round? r.numerator r.denominator = some d := by
  obtain ⟨n, place, hs, hgrid, hplace, hplace', hn⟩ := exists_shortest_eq hd hm
  have hround := (Basin.onGrid?_spec single hm hgrid).1
  have hn₀ := pos_of_onGrid hm hgrid
  rw [hs]
  by_cases hskip : place = -32 ∧ (n = 14077062 ∨ n = 7038531)
  · obtain ⟨rfl, hn⟩ := hskip
    obtain ⟨r, hr, he⟩ := exists_amount_skip negative hn
    refine ⟨r, hr, he.trans ?_⟩
    have hx : (n : ℚ) * 10 ^ (-32 : ℤ) = n / (10 ^ 32 : ℕ) := by
      rw [zpow_neg, ← div_eq_mul_inv]
      norm_cast
    rw [hx] at hround
    exact single.round?_of_roundsTo (by decide) hd hm (Nat.pow_pos (by decide)) hround
  · obtain ⟨hw, hnegative⟩ := writes_numeral negative (d := ⟨n, place⟩) hn₀ hn
    obtain ⟨r, hr, he⟩ := exists_amount hd hm hgrid hplace hplace' hskip hw
    rw [hnegative] at hr
    refine ⟨r, hr, single.round?_of_roundsTo (by decide) hd hm r.denominator_pos ?_⟩
    rwa [r.numerator_div_denominator]

end DependencyAudit.Decimal
