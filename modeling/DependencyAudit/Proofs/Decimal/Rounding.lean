import Mathlib.Algebra.Order.Archimedean.Basic
import Mathlib.Algebra.Order.Field.Power
import Mathlib.Algebra.Order.Field.Rat
import Mathlib.Data.Rat.Cast.Defs
import Mathlib.Data.Rat.Floor
import Mathlib.Tactic.FieldSimp
import Mathlib.Tactic.Linarith
import Mathlib.Tactic.Positivity
import Mathlib.Tactic.Ring
import DependencyAudit.Decimal.Binary

/-! Rounding a fraction to a binary format: the result is the nearest number, exact where there is an
exact one, and determined by the fractions that round to it. -/
namespace DependencyAudit.Decimal

theorem powerRatio_pos {base : ℕ} (hb : 0 < base) (e : ℤ) :
    0 < (powerRatio base e).1 ∧ 0 < (powerRatio base e).2 := by
  unfold powerRatio
  split
  · exact ⟨Nat.pow_pos hb, one_pos⟩
  · exact ⟨one_pos, Nat.pow_pos hb⟩

theorem powerRatio_eq (base : ℕ) (e : ℤ) :
    ((powerRatio base e).1 : ℚ) / (powerRatio base e).2 = (base : ℚ) ^ e := by
  unfold powerRatio
  split
  · rename_i he
    obtain ⟨n, rfl⟩ := Int.eq_ofNat_of_zero_le he
    simp
  · rename_i he
    obtain ⟨n, hn⟩ := Int.eq_ofNat_of_zero_le (show 0 ≤ -e by omega)
    obtain rfl : e = -n := by omega
    simp [zpow_neg]

namespace BinaryNumber

def toRat (d : BinaryNumber) : ℚ := d.mantissa * 2 ^ d.place

theorem denominator_pos (d : BinaryNumber) : 0 < d.denominator :=
  (powerRatio_pos (by decide) _).2

theorem numerator_div_denominator (d : BinaryNumber) :
    (d.numerator : ℚ) / d.denominator = d.toRat := by
  have h := powerRatio_eq 2 d.place
  simp only [numerator, denominator, toRat, Nat.cast_mul, mul_div_assoc]
  rw [h]
  norm_num

end BinaryNumber

/-- The natural number is next to the fraction, and even when it is not the only one. -/
def Nearest (x : ℚ) (m : ℕ) : Prop :=
  |(m : ℚ) - x| ≤ 1 / 2 ∧ (|(m : ℚ) - x| = 1 / 2 → m % 2 = 0)

/-- Two neighbours that are as near are both even, so they cannot be one apart. -/
theorem Nearest.not_succ {x : ℚ} {m : ℕ} (hm : Nearest x m) : ¬Nearest x (m + 1) := by
  intro hn
  have hm' := abs_le.mp hm.1
  have hn' := abs_le.mp hn.1
  push_cast at hn'
  have he : |(m : ℚ) - x| = 1 / 2 := abs_eq (by norm_num) |>.mpr (Or.inr (by linarith))
  have ho : |((m + 1 : ℕ) : ℚ) - x| = 1 / 2 :=
    abs_eq (by norm_num) |>.mpr (Or.inl (by push_cast; linarith))
  have := hm.2 he
  have := hn.2 ho
  omega

theorem Nearest.unique {x : ℚ} {m n : ℕ} (hm : Nearest x m) (hn : Nearest x n) : m = n := by
  have hm' := abs_le.mp hm.1
  have hn' := abs_le.mp hn.1
  have hle : (m : ℚ) ≤ n + 1 ∧ (n : ℚ) ≤ m + 1 := by constructor <;> linarith
  have hmn : m ≤ n + 1 ∧ n ≤ m + 1 := by exact_mod_cast hle
  rcases Nat.lt_trichotomy m n with h | h | h
  · obtain rfl : n = m + 1 := by omega
    exact absurd hn hm.not_succ
  · exact h
  · obtain rfl : m = n + 1 := by omega
    exact absurd hm hn.not_succ

theorem nearest_natCast (n : ℕ) : Nearest n n := by
  simp [Nearest]

theorem nearest_roundQuotient (num : ℕ) {den : ℕ} (hd : 0 < den) :
    Nearest (num / den) (roundQuotient num den) := by
  have hd' : (0 : ℚ) < den := by exact_mod_cast hd
  have hx : (num : ℚ) / den = (num / den : ℕ) + ((num % den : ℕ) : ℚ) / den := by
    rw [eq_comm, ← eq_sub_iff_add_eq', div_eq_iff hd'.ne', sub_mul, div_mul_cancel₀ _ hd'.ne',
      eq_sub_iff_add_eq']
    exact_mod_cast Nat.div_add_mod' num den
  have ht : 0 ≤ ((num % den : ℕ) : ℚ) / den := by positivity
  have ht' : ((num % den : ℕ) : ℚ) / den < 1 := by
    rw [div_lt_one hd']
    exact_mod_cast Nat.mod_lt num hd
  have hhalf : (2 * (num % den) < den ↔ ((num % den : ℕ) : ℚ) / den < 1 / 2) ∧
      (den < 2 * (num % den) ↔ 1 / 2 < ((num % den : ℕ) : ℚ) / den) := by
    constructor
    · rw [div_lt_iff₀ hd', ← @Nat.cast_lt ℚ]
      push_cast
      constructor <;> intro h <;> linarith
    · rw [lt_div_iff₀ hd', ← @Nat.cast_lt ℚ]
      push_cast
      constructor <;> intro h <;> linarith
  rw [hx]
  generalize ((num % den : ℕ) : ℚ) / den = r at *
  simp only [roundQuotient, Nearest, hhalf.1, hhalf.2]
  generalize num / den = q
  split_ifs with h₁ h₂ h₃
  · have he : |(q : ℚ) - (q + r)| = r := by
      rw [sub_add_cancel_left, abs_neg, abs_of_nonneg ht]
    exact ⟨by linarith, fun h => by linarith⟩
  · have he : |((q + 1 : ℕ) : ℚ) - (q + r)| = 1 - r := by
      rw [Nat.cast_succ, add_sub_add_left_eq_sub, abs_of_pos (by linarith)]
    exact ⟨by linarith, fun h => by linarith⟩
  · have he : |(q : ℚ) - (q + r)| = r := by
      rw [sub_add_cancel_left, abs_neg, abs_of_nonneg ht]
    exact ⟨by linarith, fun _ => h₃⟩
  · have he : |((q + 1 : ℕ) : ℚ) - (q + r)| = 1 - r := by
      rw [Nat.cast_succ, add_sub_add_left_eq_sub, abs_of_pos (by linarith)]
    exact ⟨by linarith, fun _ => by omega⟩

theorem le_powerRatio_iff {base : ℕ} (hb : 0 < base) (e : ℤ) (num : ℕ) {den : ℕ} (hd : 0 < den) :
    den * (powerRatio base e).1 ≤ num * (powerRatio base e).2 ↔ (base : ℚ) ^ e ≤ num / den := by
  have hq := (powerRatio_pos hb e).2
  rw [← powerRatio_eq, div_le_div_iff₀ (by exact_mod_cast hq) (by exact_mod_cast hd),
    mul_comm den]
  exact_mod_cast Iff.rfl

/-- The exponent of the power just below a fraction is found from a guess that is right or one too
great. -/
theorem floorPower_eq {base : ℕ} (hb : 0 < base) {num den : ℕ} (hd : 0 < den) {e h : ℤ}
    (hlow : (base : ℚ) ^ h ≤ num / den) (hhigh : (num : ℚ) / den < (base : ℚ) ^ (h + 1))
    (hguess : e = h ∨ e = h + 1) :
    (if den * (powerRatio base e).1 ≤ num * (powerRatio base e).2 then e else e - 1) = h := by
  simp only [le_powerRatio_iff hb e num hd]
  rcases hguess with rfl | rfl
  · rw [if_pos hlow]
  · rw [if_neg (not_le.mpr hhigh)]
    omega

/-- A guess from the numbers of digits is good enough. -/
theorem guess_of_bounds {b x : ℚ} (hb : 1 < b) {m n h : ℤ} {num den : ℚ} (hx : x = num / den)
    (hnum : b ^ m ≤ num ∧ num < b ^ (m + 1)) (hden : b ^ n ≤ den ∧ den < b ^ (n + 1))
    (hlow : b ^ h ≤ x) (hhigh : x < b ^ (h + 1)) : m - n = h ∨ m - n = h + 1 := by
  have hb₀ : (0 : ℚ) < b := by linarith
  have hden₀ : 0 < den := lt_of_lt_of_le (zpow_pos hb₀ n) hden.1
  have hup : x < b ^ (m - n + 1) := by
    rw [hx, div_lt_iff₀ hden₀]
    calc num < b ^ (m + 1) := hnum.2
      _ = b ^ (m - n + 1) * b ^ n := by rw [← zpow_add₀ hb₀.ne']; congr 1; ring
      _ ≤ b ^ (m - n + 1) * den := by gcongr; exact hden.1
  have hdown : b ^ (m - n - 1) < x := by
    rw [hx, lt_div_iff₀ hden₀]
    calc b ^ (m - n - 1) * den < b ^ (m - n - 1) * b ^ (n + 1) := by
          gcongr
          exact hden.2
      _ = b ^ m := by rw [← zpow_add₀ hb₀.ne']; congr 1; ring
      _ ≤ num := hnum.1
  have h₁ : h < m - n + 1 := (zpow_lt_zpow_iff_right₀ hb).mp (hlow.trans_lt hup)
  have h₂ : m - n - 1 < h + 1 := (zpow_lt_zpow_iff_right₀ hb).mp (hdown.trans hhigh)
  omega

namespace BinaryFormat

theorem log2_bounds {n : ℕ} (hn : 0 < n) :
    (2 : ℚ) ^ (n.log2 : ℤ) ≤ n ∧ (n : ℚ) < 2 ^ ((n.log2 : ℤ) + 1) := by
  constructor
  · rw [zpow_natCast]
    exact_mod_cast Nat.log2_self_le hn.ne'
  · rw [← Nat.cast_succ, zpow_natCast]
    exact_mod_cast Nat.lt_log2_self

theorem highPlace_eq {num den : ℕ} (hn : 0 < num) (hd : 0 < den) {h : ℤ}
    (hlow : (2 : ℚ) ^ h ≤ num / den) (hhigh : (num : ℚ) / den < 2 ^ (h + 1)) :
    highPlace num den = h := by
  have hguess := guess_of_bounds (by norm_num) rfl (log2_bounds hn) (log2_bounds hd) hlow hhigh
  exact floorPower_eq (by decide) hd (by exact_mod_cast hlow) (by exact_mod_cast hhigh) hguess

theorem nearest_scaled (num : ℕ) {den : ℕ} (hd : 0 < den) (place : ℤ) :
    Nearest (num / den / 2 ^ place)
      (roundQuotient (num * (powerRatio 2 place).2) (den * (powerRatio 2 place).1)) := by
  have hpq := powerRatio_pos (show 0 < 2 by decide) place
  have hp : (0 : ℚ) < (powerRatio 2 place).1 := by exact_mod_cast hpq.1
  have hq : (0 : ℚ) < (powerRatio 2 place).2 := by exact_mod_cast hpq.2
  have h := nearest_roundQuotient (num * (powerRatio 2 place).2) (Nat.mul_pos hd hpq.1)
  have hx : ((num * (powerRatio 2 place).2 : ℕ) : ℚ) / ((den * (powerRatio 2 place).1 : ℕ) : ℚ) =
      num / den / 2 ^ place := by
    have hr := powerRatio_eq 2 place
    push_cast at hr ⊢
    rw [← hr]
    field_simp
  rwa [hx] at h

/-- Rounding is determined by the place of the highest bit and the nearest multiple of the last. -/
theorem round?_eq (f : BinaryFormat) {num den : ℕ} (hn : 0 < num) (hd : 0 < den) {h : ℤ} {m : ℕ}
    (hlow : (2 : ℚ) ^ h ≤ num / den) (hhigh : (num : ℚ) / den < 2 ^ (h + 1))
    {place : ℤ} (hplace : max (h - (f.precision - 1)) f.least = place)
    (hm : Nearest (num / den / 2 ^ place) m) :
    f.round? num den =
      if (if m = f.leading * 2 then place + 1 else place) > f.greatest then none
      else some (if m = f.leading * 2 then ⟨f.leading, place + 1⟩ else ⟨m, place⟩) := by
  have hm' := (nearest_scaled num hd place).unique hm
  unfold round?
  rw [if_neg hn.ne', highPlace_eq hn hd hlow hhigh, hplace]
  simp only [hm']
  split <;> rfl

/-- A number with its first bit, or with the least place. -/
structure Holds (f : BinaryFormat) (d : BinaryNumber) : Prop where
  mantissa_lt : d.mantissa < 2 * f.leading
  least_le : f.least ≤ d.place
  le_greatest : d.place ≤ f.greatest
  place_eq : d.mantissa < f.leading → d.place = f.least

/-- How far the fractions that round to a number go down from it, in quarters of the last bit. -/
def below (f : BinaryFormat) (d : BinaryNumber) : ℕ :=
  if d.mantissa = f.leading ∧ d.place > f.least then 1 else 2

/-- The fraction lies between the midpoints to the numbers beside, which count for even ones. -/
structure RoundsTo (f : BinaryFormat) (d : BinaryNumber) (x : ℚ) : Prop where
  low_le : (4 * d.mantissa - f.below d) * 2 ^ (d.place - 2) ≤ x
  le_high : x ≤ (4 * d.mantissa + 2) * 2 ^ (d.place - 2)
  even_of_eq : x = (4 * d.mantissa - f.below d) * 2 ^ (d.place - 2) ∨
    x = (4 * d.mantissa + 2) * 2 ^ (d.place - 2) → d.mantissa % 2 = 0

theorem below_le (f : BinaryFormat) (d : BinaryNumber) : (f.below d : ℚ) ≤ 2 := by
  unfold below
  split <;> norm_num

theorem leading_cast (f : BinaryFormat) (hp : 1 ≤ f.precision) :
    (f.leading : ℚ) = 2 ^ ((f.precision : ℤ) - 1) := by
  have he : ((f.precision : ℤ) - 1) = ((f.precision - 1 : ℕ) : ℤ) := by omega
  rw [he, zpow_natCast]
  simp [leading]

theorem exists_zpow_le {x : ℚ} (hx : 0 < x) : ∃ h : ℤ, (2 : ℚ) ^ h ≤ x ∧ x < 2 ^ (h + 1) := by
  obtain ⟨h, hl, hu⟩ := exists_mem_Ico_zpow hx (show (1 : ℚ) < 2 by norm_num)
  exact ⟨h, hl, hu⟩

theorem lt_of_zpow_bounds {x : ℚ} {h k : ℤ} (hl : (2 : ℚ) ^ h ≤ x) (hu : x < 2 ^ k) : h < k :=
  (zpow_lt_zpow_iff_right₀ (by norm_num)).mp (hl.trans_lt hu)

/-- A fraction in the same binade as the number that is nearest to it. -/
theorem round?_of_nearest (f : BinaryFormat) (hp : 1 ≤ f.precision) {d : BinaryNumber}
    (hd : f.Holds d) {num den : ℕ} (hn : 0 < num) (hden : 0 < den) {y : ℚ}
    (hy : (num : ℚ) / den = y * 2 ^ d.place) (hm : Nearest y d.mantissa) (hup : y < 2 * f.leading)
    (hlow : f.leading ≤ y ∨ d.place = f.least) : f.round? num den = some d := by
  have h2 : (0 : ℚ) < 2 ^ d.place := by positivity
  have hx : (0 : ℚ) < num / den := by positivity
  obtain ⟨h, hl, hu⟩ := exists_zpow_le hx
  have hlead := f.leading_cast hp
  have hhigh : h < d.place + f.precision := by
    refine lt_of_zpow_bounds hl ?_
    rw [hy, zpow_add₀ (by norm_num)]
    have he : (2 : ℚ) ^ (f.precision : ℤ) = 2 * f.leading := by
      rw [hlead, ← zpow_one_add₀ (by norm_num)]
      congr 1
      ring
    rw [he, mul_comm]
    gcongr
  have hplace : max (h - (f.precision - 1)) f.least = d.place := by
    rcases hlow with hlow | hleast
    · have hlow' : d.place + (f.precision - 1) < h + 1 := by
        refine lt_of_zpow_bounds ?_ hu
        rw [hy, zpow_add₀ (by norm_num), ← hlead, mul_comm]
        gcongr
      have := hd.least_le
      omega
    · omega
  rw [round?_eq f hn hden hl hu hplace (by rwa [hy, mul_div_cancel_right₀ _ h2.ne'])]
  have hne : d.mantissa ≠ f.leading * 2 := by
    have := hd.mantissa_lt
    omega
  simp only [if_neg hne, if_neg (not_lt.mpr hd.le_greatest)]

/-- A fraction just below a power of two, where the numbers lie more closely. -/
theorem round?_of_leading (f : BinaryFormat) (hp : 2 ≤ f.precision) {d : BinaryNumber}
    (hd : f.Holds d) (hm : d.mantissa = f.leading) (hleast : f.least < d.place) {num den : ℕ}
    (hn : 0 < num) (hden : 0 < den) {y : ℚ} (hy : (num : ℚ) / den = y * 2 ^ d.place)
    (hlow : f.leading - 1 / 4 ≤ y) (hup : y < f.leading) : f.round? num den = some d := by
  have hlead := f.leading_cast (by omega)
  have hone : (2 : ℚ) ≤ f.leading := by
    have : 2 ^ 1 ≤ 2 ^ (f.precision - 1) := Nat.pow_le_pow_right (by decide) (by omega)
    exact_mod_cast this
  have hl : (2 : ℚ) ^ (d.place + (f.precision - 1) - 1) ≤ num / den := by
    calc (2 : ℚ) ^ (d.place + (f.precision - 1) - 1) = f.leading / 2 * 2 ^ d.place := by
          rw [zpow_sub_one₀ (by norm_num), zpow_add₀ (by norm_num), ← hlead]
          ring
      _ ≤ y * 2 ^ d.place := by
          gcongr
          linarith
      _ = num / den := hy.symm
  have hu : (num : ℚ) / den < 2 ^ (d.place + (f.precision - 1) - 1 + 1) := by
    rw [hy, sub_add_cancel, zpow_add₀ (by norm_num), ← hlead, mul_comm]
    gcongr
  have hplace : max (d.place + (f.precision - 1) - 1 - (f.precision - 1)) f.least =
      d.place - 1 := by
    omega
  have hnear : Nearest ((num : ℚ) / den / 2 ^ (d.place - 1)) (f.leading * 2) := by
    have he : (num : ℚ) / den / 2 ^ (d.place - 1) = 2 * y := by
      rw [hy, zpow_sub_one₀ (by norm_num)]
      field_simp
    rw [he]
    refine ⟨?_, fun _ => by omega⟩
    push_cast
    rw [abs_le]
    constructor <;> linarith
  rw [round?_eq f hn hden hl hu hplace hnear]
  obtain ⟨m, p⟩ := d
  simp only at hm
  subst hm
  have := hd.le_greatest
  simp only [if_true, sub_add_cancel] at this ⊢
  rw [if_neg (not_lt.mpr this)]

/-- What rounds to a number is rounded to it. -/
theorem round?_of_roundsTo (f : BinaryFormat) (hp : 2 ≤ f.precision) {d : BinaryNumber}
    (hd : f.Holds d) (h₀ : 0 < d.mantissa) {num den : ℕ} (hden : 0 < den)
    (hx : f.RoundsTo d (num / den)) : f.round? num den = some d := by
  have h4 : (2 : ℚ) ^ (d.place - 2) = 2 ^ d.place / 4 := by
    rw [zpow_sub₀ (by norm_num)]
    norm_num
  have h2 : (0 : ℚ) < 2 ^ d.place := by positivity
  have hm₀ : (1 : ℚ) ≤ d.mantissa := by exact_mod_cast h₀
  have hmlt : (d.mantissa : ℚ) + 1 ≤ 2 * f.leading := by exact_mod_cast hd.mantissa_lt
  -- All is measured in units of the last bit.
  obtain ⟨y, hy⟩ : ∃ y : ℚ, (num : ℚ) / den = y * 2 ^ d.place := ⟨num / den / 2 ^ d.place, by
    field_simp⟩
  have hlow : 4 * d.mantissa - f.below d ≤ 4 * y := by
    have h := hx.low_le
    rw [h4, hy] at h
    exact le_of_mul_le_mul_right (by linarith) h2
  have hhigh : 4 * y ≤ 4 * d.mantissa + 2 := by
    have h := hx.le_high
    rw [h4, hy] at h
    exact le_of_mul_le_mul_right (by linarith) h2
  have heven : 4 * y = 4 * d.mantissa - f.below d ∨ 4 * y = 4 * d.mantissa + 2 →
      d.mantissa % 2 = 0 := by
    intro h
    apply hx.even_of_eq
    rw [h4, hy]
    rcases h with h | h
    · exact Or.inl (by rw [← h]; ring)
    · exact Or.inr (by rw [← h]; ring)
  have hb := f.below_le d
  have hn : 0 < num := by
    have hy₀ : 0 < y := by linarith
    have hpos : (0 : ℚ) < num / den := by
      rw [hy]
      positivity
    have hden' : (0 : ℚ) < den := by exact_mod_cast hden
    exact_mod_cast (div_pos_iff_of_pos_right hden').mp hpos
  by_cases hcase : f.leading ≤ y ∨ d.place = f.least
  · refine f.round?_of_nearest (by omega) hd hn hden hy ?_ (by linarith) hcase
    refine ⟨abs_le.mpr ⟨by linarith, by linarith⟩, ?_⟩
    intro he
    apply heven
    rcases (abs_eq (by norm_num)).mp he with h | h
    · exact Or.inl (by linarith)
    · exact Or.inr (by linarith)
  · rw [not_or, not_le] at hcase
    have hm : d.mantissa = f.leading := by
      apply le_antisymm
      · by_contra hlt
        have : (f.leading : ℚ) + 1 ≤ d.mantissa := by exact_mod_cast not_le.mp hlt
        linarith
      · by_contra hlt
        exact hcase.2 (hd.place_eq (not_le.mp hlt))
    have hleast := lt_of_le_of_ne hd.least_le (Ne.symm hcase.2)
    have hbelow : f.below d = 1 := by simp [below, hm, hleast]
    rw [hbelow, hm] at hlow
    push_cast at hlow
    exact f.round?_of_leading hp hd hm hleast hn hden hy (by linarith) hcase.1

/-- Below the greatest numbers of a format there is always a nearest one. -/
theorem exists_round? (f : BinaryFormat) (hp : 1 ≤ f.precision) (hf : f.least < f.greatest)
    {num den : ℕ} (hn : 0 < num) (hd : 0 < den) (hx : (num : ℚ) / den < 2 ^ f.greatest) :
    ∃ (d : BinaryNumber) (h place : ℤ) (m : ℕ), f.round? num den = some d ∧
      (2 : ℚ) ^ h ≤ num / den ∧ (num : ℚ) / den < 2 ^ (h + 1) ∧
      max (h - (f.precision - 1)) f.least = place ∧
      Nearest (num / den / 2 ^ place) m ∧ d.toRat = m * 2 ^ place := by
  have hpos : (0 : ℚ) < num / den := by positivity
  obtain ⟨h, hl, hu⟩ := exists_zpow_le hpos
  have hlt := lt_of_zpow_bounds hl hx
  obtain ⟨place, hplace⟩ : ∃ place, max (h - ((f.precision : ℤ) - 1)) f.least = place := ⟨_, rfl⟩
  obtain ⟨m, hm⟩ : ∃ m, Nearest ((num : ℚ) / den / 2 ^ place) m := ⟨_, nearest_scaled num hd place⟩
  have hle : (if m = f.leading * 2 then place + 1 else place) ≤ f.greatest := by
    split <;> omega
  refine ⟨if m = f.leading * 2 then ⟨f.leading, place + 1⟩ else ⟨m, place⟩, h, place, m, ?_, hl,
    hu, hplace, hm, ?_⟩
  · rw [round?_eq f hn hd hl hu hplace hm, if_neg (not_lt.mpr hle)]
  · split
    · rename_i he
      rw [BinaryNumber.toRat, he, zpow_add_one₀ (by norm_num)]
      push_cast
      ring
    · rfl

/-- The error is at most half of the last bit. -/
theorem exists_round?_near (f : BinaryFormat) (hp : 1 ≤ f.precision) (hf : f.least < f.greatest)
    {num den : ℕ} (hn : 0 < num) (hd : 0 < den) (hx : (num : ℚ) / den < 2 ^ f.greatest)
    (hlow : (2 : ℚ) ^ (f.least + f.precision) ≤ num / den) :
    ∃ d, f.round? num den = some d ∧
      |d.toRat - num / den| ≤ num / den * 2 ^ (-(f.precision : ℤ)) := by
  obtain ⟨d, h, place, m, hr, hl, hu, hplace, hm, hd'⟩ := f.exists_round? hp hf hn hd hx
  refine ⟨d, hr, ?_⟩
  have hh := lt_of_zpow_bounds hlow hu
  obtain rfl : place = h - f.precision + 1 := by omega
  have h2 : (0 : ℚ) < 2 ^ (h - f.precision + 1) := by positivity
  calc |d.toRat - num / den|
      = |(m : ℚ) - num / den / 2 ^ (h - f.precision + 1)| * 2 ^ (h - f.precision + 1) := by
        rw [hd', ← abs_of_pos h2, ← abs_mul, sub_mul, abs_of_pos h2, div_mul_cancel₀ _ h2.ne']
    _ ≤ 1 / 2 * 2 ^ (h - f.precision + 1) := by
        gcongr
        exact hm.1
    _ = 2 ^ h * 2 ^ (-(f.precision : ℤ)) := by
        rw [zpow_add_one₀ (by norm_num), zpow_sub₀ (by norm_num), zpow_neg]
        ring
    _ ≤ num / den * 2 ^ (-(f.precision : ℤ)) := by gcongr

/-- A number of few enough bits is rounded to itself. -/
theorem exists_round?_eq (f : BinaryFormat) (hp : 1 ≤ f.precision) (hf : f.least < f.greatest)
    {num den : ℕ} (hn : 0 < num) (hd : 0 < den) (hx : (num : ℚ) / den < 2 ^ f.greatest) {k : ℕ}
    {q : ℤ} (hk : k < 2 ^ f.precision) (hq : f.least ≤ q) (he : (num : ℚ) / den = k * 2 ^ q) :
    ∃ d, f.round? num den = some d ∧ d.toRat = num / den := by
  obtain ⟨d, h, place, m, hr, hl, hu, hplace, hm, hd'⟩ := f.exists_round? hp hf hn hd hx
  refine ⟨d, hr, ?_⟩
  have hh : h < f.precision + q := by
    refine lt_of_zpow_bounds hl ?_
    rw [he, zpow_add₀ (by norm_num), zpow_natCast]
    gcongr
    exact_mod_cast hk
  have h2 : (0 : ℚ) < 2 ^ place := by positivity
  -- The multiple of the last bit that is looked for is the number itself.
  obtain ⟨n, hn'⟩ := Int.eq_ofNat_of_zero_le (show 0 ≤ q - place by omega)
  have hk' : (num : ℚ) / den = (k * 2 ^ n : ℕ) * 2 ^ place := by
    rw [he]
    push_cast
    rw [mul_assoc, ← zpow_natCast, ← zpow_add₀ (by norm_num)]
    congr 2
    omega
  have hm' : m = k * 2 ^ n := by
    refine hm.unique ?_
    rw [hk', mul_div_cancel_right₀ _ h2.ne']
    exact nearest_natCast _
  rw [hd', hm', hk']

end BinaryFormat
end DependencyAudit.Decimal
