import DependencyAudit.Proofs.Decimal.Layout
import DependencyAudit.Proofs.Decimal.Rounding

/-! How near the number that is read in double precision comes to the one that a numeral stands for. -/
namespace DependencyAudit.Decimal

namespace BinaryNumber

theorem numerator_pos {d : BinaryNumber} (h : 0 < d.toRat) : 0 < d.numerator := by
  rw [← numerator_div_denominator] at h
  rcases Nat.eq_zero_or_pos d.numerator with h₀ | h₀
  · simp [h₀] at h
  · exact h₀

end BinaryNumber

open BinaryNumber

theorem ten_pow_le : (10 : ℚ) ^ 76 ≤ 2 ^ (253 : ℤ) := by norm_num

theorem lt_greatest {x : ℚ} (hx : x ≤ 10 ^ 76) : x < 2 ^ double.greatest :=
  (hx.trans ten_pow_le).trans_lt (zpow_lt_zpow_right₀ (by norm_num) (by decide))

theorem le_of_least {x : ℚ} (hx : 1 / 10 ^ 76 ≤ x) :
    (2 : ℚ) ^ (double.least + double.precision) ≤ x :=
  calc (2 : ℚ) ^ (double.least + double.precision) ≤ 2 ^ (-253 : ℤ) :=
        zpow_le_zpow_right₀ (by norm_num) (by decide)
    _ ≤ 1 / 10 ^ 76 := by
        rw [zpow_neg, one_div]
        exact inv_anti₀ (by norm_num) ten_pow_le
    _ ≤ x := hx

/-- Far from the least and the greatest number, only the precision limits a rounding. -/
theorem exists_double_near {num den : ℕ} (hn : 0 < num) (hd : 0 < den) {x : ℚ}
    (hx : (num : ℚ) / den = x) (hlow : 1 / 10 ^ 76 ≤ x) (hup : x ≤ 10 ^ 76) :
    ∃ d, double.round? num den = some d ∧ |d.toRat - x| ≤ x / 2 ^ 53 := by
  subst hx
  obtain ⟨d, hr, he⟩ := double.exists_round?_near (by decide) (by decide) hn hd (lt_greatest hup)
    (le_of_least hlow)
  exact ⟨d, hr, he.trans_eq (by norm_num [double, div_eq_mul_inv])⟩

theorem exists_double_eq {num den : ℕ} (hn : 0 < num) (hd : 0 < den) {x : ℚ}
    (hx : (num : ℚ) / den = x) (hup : x ≤ 10 ^ 76) {k : ℕ} {q : ℤ} (hk : k < 2 ^ 53)
    (hq : -1074 ≤ q) (he : x = k * 2 ^ q) :
    ∃ d, double.round? num den = some d ∧ d.toRat = x := by
  subst hx
  exact double.exists_round?_eq (by decide) (by decide) hn hd (lt_greatest hup) hk hq he

theorem exists_mul?_near {a b : BinaryNumber} (ha : 0 < a.toRat) (hb : 0 < b.toRat)
    (hlow : 1 / 10 ^ 76 ≤ a.toRat * b.toRat) (hup : a.toRat * b.toRat ≤ 10 ^ 76) :
    ∃ r, double.mul? a b = some r ∧ |r.toRat - a.toRat * b.toRat| ≤ a.toRat * b.toRat / 2 ^ 53 := by
  refine exists_double_near (Nat.mul_pos (numerator_pos ha) (numerator_pos hb))
    (Nat.mul_pos a.denominator_pos b.denominator_pos) ?_ hlow hup
  rw [Nat.cast_mul, Nat.cast_mul, mul_div_mul_comm, numerator_div_denominator,
    numerator_div_denominator]

theorem cast_div_eq {a b : BinaryNumber} :
    ((a.numerator * b.denominator : ℕ) : ℚ) / (a.denominator * b.numerator : ℕ) =
      a.toRat / b.toRat := by
  rw [Nat.cast_mul, Nat.cast_mul, mul_div_mul_comm, numerator_div_denominator,
    ← numerator_div_denominator b, div_eq_mul_inv _ (_ / _), inv_div]

theorem exists_div?_near {a b : BinaryNumber} (ha : 0 < a.toRat) (hb : 0 < b.toRat)
    (hlow : 1 / 10 ^ 76 ≤ a.toRat / b.toRat) (hup : a.toRat / b.toRat ≤ 10 ^ 76) :
    ∃ r, double.div? a b = some r ∧ |r.toRat - a.toRat / b.toRat| ≤ a.toRat / b.toRat / 2 ^ 53 :=
  exists_double_near (Nat.mul_pos (numerator_pos ha) b.denominator_pos)
    (Nat.mul_pos a.denominator_pos (numerator_pos hb)) cast_div_eq hlow hup

namespace Numeral

theorem powerOfTen_near {k : ℕ} (hk : k ≤ 60) :
    |(powerOfTen k).toRat - 10 ^ k| ≤ 10 ^ k / 2 ^ 53 := by
  have hup : (10 : ℚ) ^ k ≤ 10 ^ 76 := pow_le_pow_right₀ (by norm_num) (by omega)
  have hlow : (1 : ℚ) ≤ 10 ^ k := one_le_pow₀ (by norm_num)
  obtain ⟨d, hr, he⟩ := exists_double_near (x := 10 ^ k)
    (Nat.pow_pos (by decide) : 0 < 10 ^ k) (one_pos : 0 < 1) (by simp) (le_trans (by norm_num) hlow) hup
  rwa [powerOfTen, Nat.pow_eq, hr]

theorem powerOfTen_eq {k : ℕ} (hk : k ≤ 22) : (powerOfTen k).toRat = 10 ^ k := by
  have hup : (10 : ℚ) ^ k ≤ 10 ^ 76 := pow_le_pow_right₀ (by norm_num) (by omega)
  have h5 : 5 ^ k < 2 ^ 53 :=
    (Nat.pow_le_pow_right (by decide) hk).trans_lt (by decide : 5 ^ 22 < 2 ^ 53)
  obtain ⟨d, hr, he⟩ := exists_double_eq (x := 10 ^ k) (q := k)
    (Nat.pow_pos (by decide) : 0 < 10 ^ k) (one_pos : 0 < 1) (by simp) hup h5 (by omega)
    (by rw [zpow_natCast, Nat.cast_pow, ← mul_pow]; norm_num)
  rwa [powerOfTen, Nat.pow_eq, hr]

theorem powerOfTen_pos {k : ℕ} (hk : k ≤ 60) : 0 < (powerOfTen k).toRat := by
  have h := (abs_le.mp (powerOfTen_near hk)).1
  have h10 : (0 : ℚ) < 10 ^ k := by positivity
  linarith

theorem scale_eq (d : BinaryNumber) {e : ℤ} (he : e.natAbs ≤ 60) (fuel : ℕ) :
    scale d e (fuel + 1) =
      if 0 ≤ e then double.mul? d (powerOfTen e.natAbs) else double.div? d (powerOfTen e.natAbs) := by
  have h : e.natAbs ≤ greatestPower := he.trans (Nat.le_of_ble_eq_true rfl)
  exact if_pos h

/-- Two roundings, of a factor that is nearly one and of the product with it. -/
theorem near_of_factor {x c r : ℚ} (hx : 0 < x) (hc : |c - 1| ≤ 5 / 4 / 2 ^ 53)
    (hr : |r - c * x| ≤ c * x / 2 ^ 53) : |r - x| ≤ 5 / 2 / 2 ^ 53 * x := by
  obtain ⟨y, rfl⟩ : ∃ y, r = y * x := ⟨r / x, by field_simp⟩
  have hy : |y - c| ≤ c / 2 ^ 53 := by
    rw [← sub_mul, abs_mul, abs_of_pos hx, div_eq_mul_inv, mul_right_comm] at hr
    exact (le_of_mul_le_mul_right hr hx).trans_eq (by rw [div_eq_mul_inv])
  rw [← sub_one_mul, abs_mul, abs_of_pos hx]
  apply mul_le_mul_of_nonneg_right _ hx.le
  rw [abs_le] at hc hy ⊢
  constructor <;> linarith

theorem factor_near {a b : ℚ} (hb : 0 < b) (h : |a - b| ≤ 5 / 4 / 2 ^ 53 * b) :
    |a / b - 1| ≤ 5 / 4 / 2 ^ 53 := by
  have he : a / b - 1 = (a - b) / b := by field_simp
  rwa [he, abs_div, abs_of_pos hb, div_le_iff₀ hb]

theorem mul_near {x s t r : ℚ} (hx : 0 < x) (ht : 0 < t) (hs : |s - t| ≤ t / 2 ^ 53)
    (hr : |r - x * s| ≤ x * s / 2 ^ 53) : |r - x * t| ≤ 5 / 2 / 2 ^ 53 * (x * t) := by
  have he : x * s = s / t * (x * t) := by field_simp
  rw [he] at hr
  exact near_of_factor (by positivity) (factor_near ht (by linarith)) hr

theorem div_near {x s t r : ℚ} (hx : 0 < x) (ht : 0 < t) (hs : |s - t| ≤ t / 2 ^ 53)
    (hr : |r - x / s| ≤ x / s / 2 ^ 53) : |r - x / t| ≤ 5 / 2 / 2 ^ 53 * (x / t) := by
  have hlow := (abs_le.mp hs).1
  have hs₀ : 0 < s := by linarith
  have he : x / s = t / s * (x / t) := by field_simp
  rw [he] at hr
  rw [abs_sub_comm] at hs
  exact near_of_factor (by positivity) (factor_near hs₀ (by linarith)) hr

/-- Numbers of digits and places for which no step comes near the greatest or the least number. -/
theorem product_bounds {x s t : ℚ} (hx : 1 ≤ x) (hx' : x ≤ 10 ^ 14) (ht : 1 ≤ t) (ht' : t ≤ 10 ^ 60)
    (hs : |s - t| ≤ t / 2 ^ 53) :
    (1 / 10 ^ 76 ≤ x * s ∧ x * s ≤ 10 ^ 76) ∧ 1 / 10 ^ 76 ≤ x / s ∧ x / s ≤ 10 ^ 76 := by
  rw [abs_le] at hs
  have hs₁ : 1 / 2 ≤ s := by linarith
  have hs₂ : s ≤ 2 * 10 ^ 60 := by linarith
  refine ⟨⟨?_, ?_⟩, ?_, ?_⟩
  · nlinarith
  · nlinarith
  · rw [le_div_iff₀ (by linarith)]
    linarith
  · rw [div_le_iff₀ (by linarith)]
    linarith

variable {d : BinaryNumber} {n : ℕ} {e : ℤ}

theorem zpow_of_nonneg (he : 0 ≤ e) : (10 : ℚ) ^ e = 10 ^ e.natAbs := by
  rw [← zpow_natCast, Int.natAbs_of_nonneg he]

theorem zpow_of_neg (he : ¬0 ≤ e) : (10 : ℚ) ^ e = (10 ^ e.natAbs)⁻¹ := by
  rw [← zpow_natCast, ← zpow_neg]
  congr 1
  omega

/-- A number that is scaled by a power of ten is rounded twice. -/
theorem exists_scale_near (hd : d.toRat = n) (hn : 0 < n) (hn' : n ≤ 10 ^ 14)
    (he : e.natAbs ≤ 60) (fuel : ℕ) :
    ∃ r, scale d e (fuel + 1) = some r ∧ |r.toRat - n * 10 ^ e| ≤ 5 / 2 / 2 ^ 53 * (n * 10 ^ e) := by
  have hn₁ : (1 : ℚ) ≤ n := by exact_mod_cast hn
  have hn₂ : (n : ℚ) ≤ 10 ^ 14 := by exact_mod_cast hn'
  have ht := powerOfTen_near he
  have hpos := powerOfTen_pos he
  have hlow : (1 : ℚ) ≤ 10 ^ e.natAbs := one_le_pow₀ (by norm_num)
  have hup : (10 : ℚ) ^ e.natAbs ≤ 10 ^ 60 := pow_le_pow_right₀ (by norm_num) he
  have hb := product_bounds hn₁ hn₂ hlow hup ht
  rw [← hd] at hb
  have hd₀ : 0 < d.toRat := by linarith
  rw [scale_eq d he]
  split
  · rename_i h
    obtain ⟨r, hr, hnear⟩ := exists_mul?_near hd₀ hpos hb.1.1 hb.1.2
    rw [hd] at hnear
    refine ⟨r, hr, ?_⟩
    rw [zpow_of_nonneg h]
    exact mul_near (by linarith) (by positivity) ht hnear
  · rename_i h
    obtain ⟨r, hr, hnear⟩ := exists_div?_near hd₀ hpos hb.2.1 hb.2.2
    rw [hd] at hnear
    refine ⟨r, hr, ?_⟩
    rw [zpow_of_neg h, ← div_eq_mul_inv]
    exact div_near (by linarith) (by positivity) ht hnear

theorem least_le_of_eq {x : ℚ} {m : ℕ} {j : ℤ} (hx : 1 / 10 ^ 40 ≤ x) (hm : m < 2 ^ 25)
    (h : x = m * 2 ^ j) : -1074 ≤ j := by
  have hm' : (m : ℚ) ≤ 2 ^ 25 := by exact_mod_cast hm.le
  have h2 : (0 : ℚ) < 2 ^ j := by positivity
  have hj : (2 : ℚ) ^ (-200 : ℤ) < 2 ^ j := by
    have : (1 : ℚ) / 10 ^ 40 ≤ 2 ^ 25 * 2 ^ j := (hx.trans_eq h).trans (by gcongr)
    have hc : (2 : ℚ) ^ (-200 : ℤ) * (2 ^ 25) < 1 / 10 ^ 40 := by norm_num
    have := hc.trans_le this
    rw [mul_comm] at this
    exact lt_of_mul_lt_mul_left this (by norm_num)
  have := (zpow_lt_zpow_iff_right₀ (by norm_num)).mp hj
  omega

/-- Within the powers of ten that are kept exactly a number of few bits is met exactly. -/
theorem exists_scale_eq (hd : d.toRat = n) (hn : 0 < n) (hn' : n ≤ 10 ^ 14)
    (he : e.natAbs ≤ 22) {m : ℕ} {j : ℤ} (hm : m < 2 ^ 25) (hx : (n : ℚ) * 10 ^ e = m * 2 ^ j)
    (fuel : ℕ) : ∃ r, scale d e (fuel + 1) = some r ∧ r.toRat = n * 10 ^ e := by
  have hn₁ : (1 : ℚ) ≤ n := by exact_mod_cast hn
  have hn₂ : (n : ℚ) ≤ 10 ^ 14 := by exact_mod_cast hn'
  have ht := powerOfTen_eq he
  have hpos := powerOfTen_pos (he.trans (by decide) : e.natAbs ≤ 60)
  have hd₀ : 0 < d.toRat := by linarith
  have hlow : (1 : ℚ) / 10 ^ 22 ≤ 10 ^ e := by
    rw [one_div, ← zpow_natCast, ← zpow_neg]
    exact zpow_le_zpow_right₀ (by norm_num) (by omega)
  have hup : (10 : ℚ) ^ e ≤ 10 ^ 22 := by
    rw [← zpow_natCast]
    exact zpow_le_zpow_right₀ (by norm_num) (by omega)
  have hup' : (n : ℚ) * 10 ^ e ≤ 10 ^ 76 :=
    calc (n : ℚ) * 10 ^ e ≤ 10 ^ 14 * 10 ^ 22 := by gcongr
      _ ≤ 10 ^ 76 := by norm_num
  have hlow' : 1 / 10 ^ 40 ≤ (n : ℚ) * 10 ^ e :=
    calc (1 / 10 ^ 40 : ℚ) ≤ 1 * (1 / 10 ^ 22) := by norm_num
      _ ≤ (n : ℚ) * 10 ^ e := by gcongr
  have hq := least_le_of_eq hlow' hm hx
  have hm' : m < 2 ^ 53 := hm.trans (by decide)
  rw [scale_eq d (he.trans (by decide))]
  split
  · rename_i h
    refine exists_double_eq (Nat.mul_pos (numerator_pos hd₀) (numerator_pos hpos))
      (Nat.mul_pos d.denominator_pos (denominator_pos _)) ?_ hup' hm' hq hx
    rw [Nat.cast_mul, Nat.cast_mul, mul_div_mul_comm, numerator_div_denominator,
      numerator_div_denominator, hd, ht, zpow_of_nonneg h]
  · rename_i h
    refine exists_double_eq (Nat.mul_pos (numerator_pos hd₀) (denominator_pos _))
      (Nat.mul_pos d.denominator_pos (numerator_pos hpos)) ?_ hup' hm' hq hx
    rw [cast_div_eq, hd, ht, zpow_of_neg h, div_eq_mul_inv]

theorem exists_mul_pow_eq {a b : ℕ} {i : ℤ} (h : (a : ℚ) = b * 2 ^ i) :
    ∃ x y : ℕ, a * 2 ^ x = b * 2 ^ y := by
  refine ⟨(-i).toNat, i.toNat, ?_⟩
  have hi : (2 : ℚ) ^ i * 2 ^ (-i).toNat = 2 ^ i.toNat := by
    rw [← zpow_natCast, ← zpow_natCast, ← zpow_add₀ (by norm_num)]
    congr 1
    omega
  have : (a : ℚ) * 2 ^ (-i).toNat = b * 2 ^ i.toNat := by rw [h, mul_assoc, hi]
  exact_mod_cast this

theorem le_of_dvd_five_pow {k m x : ℕ} (hm : 0 < m) (hm' : m < 2 ^ 25) (h : 5 ^ k ∣ m * 2 ^ x) :
    k ≤ 10 := by
  have hc : Nat.Coprime (5 ^ k) (2 ^ x) := Nat.Coprime.pow k x (by decide)
  have hle := Nat.le_of_dvd hm (hc.dvd_of_dvd_mul_right h)
  have hlt : 5 ^ k < 5 ^ 11 := hle.trans_lt (hm'.trans (by decide))
  have := (Nat.pow_lt_pow_iff_right (by decide)).mp hlt
  omega

/-- A decimal of few digits that is also a number of few bits has few places. -/
theorem place_le_of_eq {n m : ℕ} {p j : ℤ} (hn : 0 < n) (hn' : n ≤ 2 ^ 24) (hm : m < 2 ^ 25)
    (h : (n : ℚ) * 10 ^ p = m * 2 ^ j) : p.natAbs ≤ 10 := by
  have h10 : (10 : ℚ) ^ p = 5 ^ p * 2 ^ p := by
    rw [← mul_zpow]
    norm_num
  have hm₀ : 0 < m := by
    rcases Nat.eq_zero_or_pos m with rfl | hm₀
    · have : (0 : ℚ) < n * 10 ^ p := by positivity
      simp [h] at this
    · exact hm₀
  rcases le_or_gt 0 p with hp | hp
  · obtain ⟨k, rfl⟩ := Int.eq_ofNat_of_zero_le hp
    obtain ⟨x, y, he⟩ := exists_mul_pow_eq (a := n * 5 ^ k) (b := m) (i := j - k) (by
      rw [zpow_sub₀ (by norm_num), ← mul_div_assoc, ← h, h10, zpow_natCast, zpow_natCast]
      push_cast
      field_simp)
    refine le_of_dvd_five_pow hm₀ hm (Dvd.intro (n * 2 ^ x) ?_ : 5 ^ k ∣ m * 2 ^ y)
    rw [← he]
    ring
  · obtain ⟨k, hk⟩ := Int.eq_ofNat_of_zero_le (show 0 ≤ -p by omega)
    obtain rfl : p = -(k : ℤ) := by omega
    obtain ⟨x, y, he⟩ := exists_mul_pow_eq (a := n) (b := m * 5 ^ k) (i := j + k) (by
      rw [zpow_neg, zpow_natCast, ← div_eq_mul_inv, div_eq_iff (by positivity)] at h
      rw [h, zpow_add₀ (by norm_num), zpow_natCast, show (10 : ℚ) = 5 * 2 by norm_num, mul_pow]
      push_cast
      ring)
    have hk := le_of_dvd_five_pow hn (by omega) (Dvd.intro (m * 2 ^ y) (by rw [he]; ring) :
      5 ^ k ∣ n * 2 ^ x)
    omega

end Numeral
end DependencyAudit.Decimal
