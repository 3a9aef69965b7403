import Mathlib.Data.Nat.Cast.Order.Field
import DependencyAudit.Decimal.Shortest
import DependencyAudit.Proofs.Decimal.Gap
import DependencyAudit.Proofs.Text.Digits

/-! The shortest decimal of a number rounds to the number, and so does what comes near to it. -/
namespace DependencyAudit.Decimal

namespace Basin

variable (f : BinaryFormat) {d : BinaryNumber}

theorem den_pos (d : BinaryNumber) : 0 < (of f d).den :=
  (powerRatio_pos (by decide) _).2

/-- The last bit of a number is four units of its basin. -/
theorem value_div_den (d : BinaryNumber) :
    ((of f d).value : ℚ) / (of f d).den = 4 * d.mantissa * 2 ^ (d.place - 2) := by
  have h := powerRatio_eq 2 (d.place - 2)
  push_cast at h
  rw [← h, of]
  push_cast
  rw [mul_div_assoc]

theorem value_eq_toRat (d : BinaryNumber) :
    ((of f d).value : ℚ) / (of f d).den = d.toRat := by
  rw [value_div_den, BinaryNumber.toRat, zpow_sub₀ (by norm_num)]
  ring

theorem low_div_den (hm : 0 < d.mantissa) :
    ((of f d).low : ℚ) / (of f d).den = (4 * d.mantissa - f.below d) * 2 ^ (d.place - 2) := by
  have h := powerRatio_eq 2 (d.place - 2)
  push_cast at h
  have hb : f.below d ≤ 4 * d.mantissa := by
    unfold BinaryFormat.below
    split <;> omega
  rw [← h, ← mul_div_assoc]
  congr 1
  rw [show (4 * d.mantissa - f.below d : ℚ) = ((4 * d.mantissa - f.below d : ℕ) : ℚ) by
    push_cast [hb]; rfl]
  exact_mod_cast rfl

theorem high_div_den (d : BinaryNumber) :
    ((of f d).high : ℚ) / (of f d).den = (4 * d.mantissa + 2) * 2 ^ (d.place - 2) := by
  have h := powerRatio_eq 2 (d.place - 2)
  push_cast at h
  rw [← h, of]
  push_cast
  rw [mul_div_assoc]

theorem mul_le_iff (a n : ℕ) {den : ℕ} (hd : 0 < den) (place : ℤ) :
    (a * (powerRatio 10 place).2 ≤ n * (powerRatio 10 place).1 * den ↔
      (a : ℚ) / den ≤ n * 10 ^ place) ∧
    (n * (powerRatio 10 place).1 * den ≤ a * (powerRatio 10 place).2 ↔
      (n : ℚ) * 10 ^ place ≤ a / den) := by
  have h := powerRatio_eq 10 place
  push_cast at h
  have hq : (0 : ℚ) < (powerRatio 10 place).2 := by
    exact_mod_cast (powerRatio_pos (by decide) place).2
  have hd' : (0 : ℚ) < den := by exact_mod_cast hd
  rw [← h, ← mul_div_assoc, div_le_div_iff₀ hd' hq, div_le_div_iff₀ hq hd']
  constructor <;> exact_mod_cast Iff.rfl

/-- The test of a basin is whether a decimal rounds to the number. -/
theorem holds_iff (hm : 0 < d.mantissa) (n : ℕ) (place : ℤ) :
    (of f d).holds n place = true ↔ f.RoundsTo d (n * 10 ^ place) := by
  have hlow := mul_le_iff (of f d).low n (den_pos f d) place
  have hhigh := mul_le_iff (of f d).high n (den_pos f d) place
  rw [low_div_den f hm] at hlow
  rw [high_div_den f d] at hhigh
  have hclosed : (of f d).closed = decide (d.mantissa % 2 = 0) := rfl
  generalize (n : ℚ) * 10 ^ place = x at *
  simp only [holds, hclosed]
  by_cases he : d.mantissa % 2 = 0
  · simp only [he, decide_true, if_true, Bool.and_eq_true, decide_eq_true_eq, hlow.1, hhigh.2]
    exact ⟨fun h => ⟨h.1, h.2, fun _ => he⟩, fun h => ⟨h.1, h.2⟩⟩
  · simp only [he, decide_false, Bool.false_eq_true, if_false, Bool.and_eq_true,
      decide_eq_true_eq, ← not_le, hlow.2, hhigh.1]
    rw [not_le, not_le]
    constructor
    · rintro ⟨h₁, h₂⟩
      exact ⟨h₁.le, h₂.le, fun h => by rcases h with rfl | rfl <;> simp at h₁ h₂⟩
    · intro h
      exact ⟨lt_of_le_of_ne h.1 fun e => he (h.3 (Or.inl e.symm)),
        lt_of_le_of_ne h.2 fun e => he (h.3 (Or.inr e))⟩

theorem length_bounds {n : ℕ} (hn : 0 < n) :
    (10 : ℚ) ^ ((Nat.toDigits 10 n).length - 1 : ℤ) ≤ n ∧
      (n : ℚ) < 10 ^ ((Nat.toDigits 10 n).length - 1 + 1 : ℤ) := by
  have hlen : 0 < (Nat.toDigits 10 n).length := Nat.length_toDigits_pos
  constructor
  · obtain ⟨k, hk⟩ : ∃ k, (Nat.toDigits 10 n).length = k + 1 := ⟨_, (Nat.succ_pred_eq_of_pos hlen).symm⟩
    rw [hk, Nat.cast_succ, add_sub_cancel_right, zpow_natCast]
    rcases Nat.eq_zero_or_pos k with rfl | hk₀
    · have : 1 ≤ n := hn
      simpa
    · have h := (Nat.length_toDigits_le_iff (b := 10) (n := n) (by decide) hk₀).not.mp (by omega)
      exact_mod_cast not_lt.mp h
  · rw [sub_add_cancel, zpow_natCast]
    exact_mod_cast (Nat.length_toDigits_le_iff (by decide) hlen).mp le_rfl

theorem firstPlace_eq (hm : 0 < d.mantissa) {h : ℤ} (hlow : (10 : ℚ) ^ h ≤ d.toRat)
    (hhigh : d.toRat < 10 ^ (h + 1)) : (of f d).firstPlace = h := by
  have hvalue : 0 < (of f d).value :=
    Nat.mul_pos (Nat.mul_pos (by decide) hm) (powerRatio_pos (by decide) _).1
  rw [← value_eq_toRat f] at hlow hhigh
  have hguess := guess_of_bounds (by norm_num) rfl (length_bounds hvalue)
    (length_bounds (den_pos f d)) hlow hhigh
  rw [sub_sub_sub_cancel_right] at hguess
  exact floorPower_eq (by decide) (den_pos f d) (by exact_mod_cast hlow) (by exact_mod_cast hhigh)
    hguess

/-- The number in units of the grid. -/
theorem scaled_eq (d : BinaryNumber) (place : ℤ) :
    (((of f d).value * (powerRatio 10 place).2 : ℕ) : ℚ) /
      ((of f d).den * (powerRatio 10 place).1 : ℕ) = d.toRat / 10 ^ place := by
  have h := powerRatio_eq 10 place
  have hpq := powerRatio_pos (show 0 < 10 by decide) place
  have hp : ((powerRatio 10 place).1 : ℚ) ≠ 0 := by exact_mod_cast hpq.1.ne'
  have hq : ((powerRatio 10 place).2 : ℚ) ≠ 0 := by exact_mod_cast hpq.2.ne'
  push_cast at h ⊢
  rw [← value_eq_toRat f, ← h]
  field_simp

theorem nearest_near (d : BinaryNumber) (place : ℤ) :
    Nearest (d.toRat / 10 ^ place) (roundQuotient ((of f d).value * (powerRatio 10 place).2)
      ((of f d).den * (powerRatio 10 place).1)) := by
  have h := nearest_roundQuotient ((of f d).value * (powerRatio 10 place).2)
    (Nat.mul_pos (den_pos f d) (powerRatio_pos (show 0 < 10 by decide) place).1)
  rwa [scaled_eq] at h

/-- The decimal found on a grid is one of the two beside the number, and the nearer one if that rounds
to the number. -/
theorem onGrid?_spec (hm : 0 < d.mantissa) {place : ℤ} {n : ℕ}
    (h : (of f d).onGrid? place = some n) :
    f.RoundsTo d (n * 10 ^ place) ∧ |(n : ℚ) - d.toRat / 10 ^ place| ≤ 1 ∧
      ∀ near, Nearest (d.toRat / 10 ^ place) near → f.RoundsTo d (near * 10 ^ place) →
        n = near := by
  have hnear := nearest_near f d place
  have hden : 0 < (of f d).den * (powerRatio 10 place).1 :=
    Nat.mul_pos (den_pos f d) (powerRatio_pos (show 0 < 10 by decide) place).1
  have hscaled := scaled_eq f d place
  simp only [onGrid?] at h
  generalize (of f d).value * (powerRatio 10 place).2 = num at *
  generalize (of f d).den * (powerRatio 10 place).1 = den at *
  have hfloor : ((num / den : ℕ) : ℚ) ≤ d.toRat / 10 ^ place := by
    rw [← hscaled]
    exact Nat.cast_div_le
  have hceil : d.toRat / 10 ^ place < (num / den : ℕ) + 1 := by
    rw [← hscaled, div_lt_iff₀ (by exact_mod_cast hden), mul_comm]
    exact_mod_cast Nat.lt_mul_div_succ num hden
  split_ifs at h with h₁ h₂ h₃
  · cases h
    refine ⟨(holds_iff f hm _ _).mp h₁, hnear.1.trans (by norm_num), ?_⟩
    intro near hn _
    exact hnear.unique hn
  · cases h
    refine ⟨(holds_iff f hm _ _).mp h₂, ?_, ?_⟩
    · rw [abs_le]
      constructor <;> linarith
    · intro near hn hr
      rw [hnear.unique hn] at h₁
      exact absurd ((holds_iff f hm _ _).mpr hr) h₁
  · cases h
    refine ⟨(holds_iff f hm _ _).mp h₃, ?_, ?_⟩
    · rw [abs_le]
      push_cast
      constructor <;> linarith
    · intro near hn hr
      rw [hnear.unique hn] at h₁
      exact absurd ((holds_iff f hm _ _).mpr hr) h₁

theorem onGrid?_eq (hm : 0 < d.mantissa) {place : ℤ} {near : ℕ}
    (hn : Nearest (d.toRat / 10 ^ place) near) (h : f.RoundsTo d (near * 10 ^ place)) :
    (of f d).onGrid? place = some near := by
  have hnear := (nearest_near f d place).unique hn
  simp only [onGrid?, hnear, (holds_iff f hm _ _).mpr h, if_true]

theorem search_eq (b : Basin) {count c : ℕ} (fuel : ℕ) (hc : count ≤ c) (hf : c < count + fuel)
    (h : (b.onGrid? (b.firstPlace - (c - 1))).isSome) :
    ∃ c' n, count ≤ c' ∧ c' ≤ c ∧ b.onGrid? (b.firstPlace - (c' - 1)) = some n ∧
      b.search count fuel = ⟨n, b.firstPlace - (c' - 1)⟩ := by
  induction fuel generalizing count with
  | zero => omega
  | succ fuel ih =>
    simp only [search]
    cases hg : b.onGrid? (b.firstPlace - (count - 1)) with
    | some n => exact ⟨count, n, le_rfl, hc, hg, rfl⟩
    | none =>
      have hne : count ≠ c := by
        rintro rfl
        simp [hg] at h
      obtain ⟨c', n, h₁, h₂, h₃, h₄⟩ := ih (show count + 1 ≤ c by omega) (by omega)
      exact ⟨c', n, by omega, h₂, h₃, h₄⟩

end Basin

open Basin

namespace BinaryFormat.RoundsTo

variable {f : BinaryFormat} {d : BinaryNumber}

/-- What lies strictly between the midpoints rounds to the number. -/
theorem of_lt {x : ℚ} (hlow : (4 * d.mantissa - f.below d) * 2 ^ (d.place - 2) < x)
    (hhigh : x < (4 * d.mantissa + 2) * 2 ^ (d.place - 2)) : f.RoundsTo d x where
  low_le := hlow.le
  le_high := hhigh.le
  even_of_eq h := by
    rcases h with h | h
    · exact absurd h hlow.ne'
    · exact absurd h hhigh.ne

theorem pos {x : ℚ} (h : f.RoundsTo d x) (hm : 0 < d.mantissa) : 0 < x := by
  have hb := f.below_le d
  have hm' : (1 : ℚ) ≤ d.mantissa := by exact_mod_cast hm
  have hu : (0 : ℚ) < 2 ^ (d.place - 2) := by positivity
  have := h.low_le
  nlinarith

end BinaryFormat.RoundsTo

theorem toRat_eq_units (d : BinaryNumber) : d.toRat = 4 * d.mantissa * 2 ^ (d.place - 2) := by
  rw [← value_div_den single, value_eq_toRat]

theorem one_le_below (f : BinaryFormat) (d : BinaryNumber) : (1 : ℚ) ≤ f.below d := by
  unfold BinaryFormat.below
  split <;> norm_num

/-- A multiple of a grid that is fine enough rounds to the number. -/
theorem roundsTo_of_fine {f : BinaryFormat} {d : BinaryNumber} {g : ℚ}
    (hg : g < 2 * 2 ^ (d.place - 2)) {x : ℚ} (hx : |x - d.toRat| ≤ g / 2) : f.RoundsTo d x := by
  have hb := one_le_below f d
  have hu : (0 : ℚ) < 2 ^ (d.place - 2) := by positivity
  rw [toRat_eq_units, abs_le] at hx
  apply BinaryFormat.RoundsTo.of_lt
  · nlinarith
  · nlinarith

theorem abs_mul_sub_eq (n v : ℚ) {g : ℚ} (hg : 0 < g) : |n * g - v| = |n - v / g| * g := by
  rw [← abs_of_pos hg, ← abs_mul, abs_of_pos hg, sub_mul, div_mul_cancel₀ _ hg.ne']

/-- The decimal magnitudes of the numbers of single precision. -/
theorem magnitude_bounds {d : BinaryNumber} (hd : single.Holds d) (hm : 0 < d.mantissa) {h : ℤ}
    (hl : (10 : ℚ) ^ h ≤ d.toRat) (hu : d.toRat < 10 ^ (h + 1)) : -45 < h + 1 ∧ h < 39 := by
  have hm₁ : (1 : ℚ) ≤ d.mantissa := by exact_mod_cast hm
  have hm₂ : (d.mantissa : ℚ) < 2 ^ 24 := by exact_mod_cast hd.mantissa_lt
  have hplace : -149 ≤ d.place := hd.least_le
  have hplace' : d.place ≤ 104 := hd.le_greatest
  constructor
  · refine (zpow_lt_zpow_iff_right₀ (show (1 : ℚ) < 10 by norm_num)).mp (lt_of_le_of_lt ?_ hu)
    calc (10 : ℚ) ^ (-45 : ℤ) ≤ 1 * 2 ^ (-149 : ℤ) := by norm_num
      _ ≤ d.toRat := by
          unfold BinaryNumber.toRat
          gcongr
          norm_num
  · refine (zpow_lt_zpow_iff_right₀ (show (1 : ℚ) < 10 by norm_num)).mp (hl.trans_lt ?_)
    calc d.toRat ≤ 2 ^ 24 * 2 ^ (104 : ℤ) := by
          unfold BinaryNumber.toRat
          gcongr
          norm_num
      _ < 10 ^ (39 : ℤ) := by norm_num

/-- Nine digits are always enough. -/
theorem isSome_onGrid?_nine {d : BinaryNumber} (hd : single.Holds d) (hm : 0 < d.mantissa) {h : ℤ}
    (hl : (10 : ℚ) ^ h ≤ d.toRat) : ((of single d).onGrid? (h - ((9 : ℕ) - 1))).isSome := by
  have hm₂ : (d.mantissa : ℚ) < 2 ^ 24 := by exact_mod_cast hd.mantissa_lt
  have hg : (0 : ℚ) < 10 ^ (h - ((9 : ℕ) - 1) : ℤ) := by positivity
  have hfine : (10 : ℚ) ^ (h - ((9 : ℕ) - 1) : ℤ) < 2 * 2 ^ (d.place - 2) := by
    have hu₀ : (0 : ℚ) < 2 ^ (d.place - 2) := by positivity
    rw [toRat_eq_units] at hl
    rw [zpow_sub₀ (by norm_num), div_lt_iff₀ (by norm_num)]
    norm_num
    nlinarith
  have hnear := nearest_near single d (h - ((9 : ℕ) - 1))
  rw [onGrid?_eq single hm hnear (roundsTo_of_fine hfine ?_)]
  · rfl
  · have := mul_le_mul_of_nonneg_right hnear.1 hg.le
    rw [abs_mul_sub_eq _ _ hg]
    linarith

theorem exists_shortest_eq {d : BinaryNumber} (hd : single.Holds d) (hm : 0 < d.mantissa) :
    ∃ n place, shortest single d = ⟨n, place⟩ ∧ (of single d).onGrid? place = some n ∧
      -53 ≤ place ∧ place ≤ 38 ∧ n ≤ 10 ^ 9 := by
  have hpos : 0 < d.toRat := by
    unfold BinaryNumber.toRat
    positivity
  obtain ⟨h, hl, hu⟩ := exists_mem_Ico_zpow hpos (show (1 : ℚ) < 10 by norm_num)
  have hfirst := firstPlace_eq single hm hl hu
  obtain ⟨hh, hh'⟩ := magnitude_bounds hd hm hl hu
  have hnine := isSome_onGrid?_nine hd hm hl
  rw [← hfirst] at hnine
  obtain ⟨c, n, hc, hc', hgrid, hsearch⟩ :=
    search_eq (of single d) 17 (show 1 ≤ 9 by omega) (by omega) hnine
  rw [hfirst] at hgrid hsearch
  refine ⟨n, _, hsearch, hgrid, by omega, by omega, ?_⟩
  have hlt : d.toRat / 10 ^ (h - (c - 1) : ℤ) < 10 ^ 9 := by
    rw [div_lt_iff₀ (by positivity)]
    calc d.toRat < 10 ^ (h + 1) := hu
      _ ≤ 10 ^ ((9 : ℤ) + (h - (c - 1))) := zpow_le_zpow_right₀ (by norm_num) (by omega)
      _ = 10 ^ 9 * 10 ^ (h - (c - 1) : ℤ) := by rw [zpow_add₀ (by norm_num)]; norm_num
  have hn := (abs_le.mp (onGrid?_spec single hm hgrid).2.1).2
  have : (n : ℚ) < 10 ^ 9 + 1 := by linarith
  have : n < 10 ^ 9 + 1 := by exact_mod_cast this
  omega

namespace BinaryFormat.RoundsTo

variable {f : BinaryFormat} {d : BinaryNumber} {y : ℚ}

theorem le_high_units (h : f.RoundsTo d (y * 2 ^ (d.place - 2))) : y ≤ 4 * d.mantissa + 2 :=
  le_of_mul_le_mul_right h.le_high (by positivity)

theorem of_units_lt (hlow : 4 * d.mantissa - f.below d < y) (hhigh : y < 4 * d.mantissa + 2) :
    f.RoundsTo d (y * 2 ^ (d.place - 2)) :=
  of_lt (by gcongr) (by gcongr)

theorem of_even (he : d.mantissa % 2 = 0) (hlow : 4 * d.mantissa - f.below d ≤ y)
    (hhigh : y ≤ 4 * d.mantissa + 2) : f.RoundsTo d (y * 2 ^ (d.place - 2)) where
  low_le := by gcongr
  le_high := by gcongr
  even_of_eq _ := he

end BinaryFormat.RoundsTo

theorem below_cases (d : BinaryNumber) :
    single.below d = 1 ∧ d.mantissa = 2 ^ 23 ∨ single.below d = 2 := by
  unfold BinaryFormat.below
  split
  · rename_i h
    exact Or.inl ⟨rfl, h.1⟩
  · exact Or.inr rfl

section Units

-- All is measured in quarters of the last bit: the grid, the number and what comes near to it.
variable {d : BinaryNumber} {n g y : ℚ}

open BinaryFormat in
/-- Where a number of many digits rounds to a number, so does the nearest one on its grid. -/
theorem roundsTo_of_half (hm : (d.mantissa : ℚ) ≤ 2 ^ 24 - 1) (hg : 0 < g) (hn : 2 ^ 24 + 1 ≤ n)
    (hround : single.RoundsTo d (n * g * 2 ^ (d.place - 2)))
    (hy : |y - 4 * d.mantissa| ≤ g / 2) : single.RoundsTo d (y * 2 ^ (d.place - 2)) := by
  have hfine : (2 ^ 24 + 1) * g ≤ 4 * d.mantissa + 2 := calc
    (2 ^ 24 + 1) * g ≤ n * g := by gcongr
    _ ≤ 4 * d.mantissa + 2 := hround.le_high_units
  rw [abs_le] at hy
  rcases below_cases d with ⟨hb, hlead⟩ | hb
  · have hlead' : (d.mantissa : ℚ) = 2 ^ 23 := by exact_mod_cast hlead
    apply RoundsTo.of_even (by rw [hlead]; decide)
    · rw [hb]
      push_cast
      linarith
    · linarith
  · apply RoundsTo.of_units_lt
    · rw [hb]
      push_cast
      linarith
    · linarith

open BinaryFormat in
/-- What comes near to the nearest number on a fine grid lies well within the midpoints. -/
theorem roundsTo_of_near (hm : (d.mantissa : ℚ) ≤ 2 ^ 24 - 1) (hg : 0 < g) (hn : 2 ^ 24 + 1 ≤ n)
    (hhalf : |n * g - 4 * d.mantissa| ≤ g / 2) (hy : |y - n * g| ≤ 3 / 2 ^ 53 * (n * g)) :
    single.RoundsTo d (y * 2 ^ (d.place - 2)) := by
  have hng : (2 ^ 24 + 1) * g ≤ n * g := by gcongr
  rw [abs_le] at hhalf hy
  rcases below_cases d with ⟨hb, hlead⟩ | hb
  · have hlead' : (d.mantissa : ℚ) = 2 ^ 23 := by exact_mod_cast hlead
    apply RoundsTo.of_units_lt
    · rw [hb]
      push_cast
      linarith
    · linarith
  · apply RoundsTo.of_units_lt
    · rw [hb]
      push_cast
      linarith
    · linarith

end Units

/-- A decimal of many digits is the nearest on a grid so fine that it lies well within the midpoints,
and what comes near to it does so too. -/
theorem roundsTo_of_long {d : BinaryNumber} (hd : single.Holds d) (hm : 0 < d.mantissa) {n : ℕ}
    {place : ℤ} (hgrid : (of single d).onGrid? place = some n) (hn : 2 ^ 24 < n) {x : ℚ}
    (hx : |x - n * 10 ^ place| ≤ 3 / 2 ^ 53 * (n * 10 ^ place)) : single.RoundsTo d x := by
  obtain ⟨hround, -, hnearest⟩ := onGrid?_spec single hm hgrid
  have hnear := nearest_near single d place
  generalize roundQuotient _ _ = near at hnear
  have hu : (0 : ℚ) < 2 ^ (d.place - 2) := by positivity
  have hm' : (d.mantissa : ℚ) ≤ 2 ^ 24 - 1 := by
    have : d.mantissa + 1 ≤ 2 ^ 24 := hd.mantissa_lt
    have : (d.mantissa : ℚ) + 1 ≤ 2 ^ 24 := by exact_mod_cast this
    linarith
  have hn' : (2 ^ 24 + 1 : ℚ) ≤ n := by exact_mod_cast hn
  obtain ⟨g, hg⟩ : ∃ g : ℚ, (10 : ℚ) ^ place = g * 2 ^ (d.place - 2) :=
    ⟨10 ^ place / 2 ^ (d.place - 2), by field_simp⟩
  obtain ⟨y, rfl⟩ : ∃ y : ℚ, x = y * 2 ^ (d.place - 2) := ⟨x / 2 ^ (d.place - 2), by field_simp⟩
  have hg₀ : 0 < g := by
    have : (0 : ℚ) < 10 ^ place := by positivity
    rw [hg] at this
    exact (pos_iff_pos_of_mul_pos this).mpr hu
  have hhalf : |near * g - 4 * d.mantissa| ≤ g / 2 := by
    have h := mul_le_mul_of_nonneg_right hnear.1 hg₀.le
    have ht : d.toRat / 10 ^ place = 4 * d.mantissa / g := by
      rw [toRat_eq_units, hg, mul_div_mul_right _ _ hu.ne']
    rw [ht, ← abs_mul_sub_eq _ _ hg₀] at h
    linarith
  rw [hg, ← mul_assoc] at hround hx
  have hsame : n = near := by
    apply hnearest near hnear
    rw [hg, ← mul_assoc]
    exact roundsTo_of_half hm' hg₀ hn' hround hhalf
  have hy : |y - n * g| ≤ 3 / 2 ^ 53 * (n * g) := by
    rw [← sub_mul, abs_mul, abs_of_pos hu, ← mul_assoc] at hx
    exact le_of_mul_le_mul_right hx hu
  rw [← hsame] at hhalf
  exact roundsTo_of_near hm' hg₀ hn' hhalf hy

/-- The midpoints beside a number are numbers of at most twenty-five bits. -/
theorem exists_midpoints {d : BinaryNumber} (hd : single.Holds d) (hm : 0 < d.mantissa) :
    (∃ m : ℕ, 0 < m ∧ m < 2 ^ 25 ∧ ∃ j : ℤ,
      (4 * d.mantissa - single.below d : ℚ) * 2 ^ (d.place - 2) = m * 2 ^ j) ∧
    ∃ m : ℕ, 0 < m ∧ m < 2 ^ 25 ∧ ∃ j : ℤ,
      (4 * d.mantissa + 2 : ℚ) * 2 ^ (d.place - 2) = m * 2 ^ j := by
  have hm' : d.mantissa < 2 ^ 24 := hd.mantissa_lt
  have h2 : (2 : ℚ) ^ (d.place - 1) = 2 * 2 ^ (d.place - 2) := by
    rw [← zpow_one_add₀ (by norm_num)]
    congr 1
    ring
  refine ⟨?_, 2 * d.mantissa + 1, by omega, by omega, d.place - 1, ?_⟩
  · rcases below_cases d with ⟨hb, hlead⟩ | hb
    · refine ⟨2 ^ 25 - 1, by norm_num, by norm_num, d.place - 2, ?_⟩
      rw [hb, hlead]
      norm_num
    · refine ⟨2 * d.mantissa - 1, by omega, by omega, d.place - 1, ?_⟩
      rw [hb, h2, Nat.cast_sub (by omega)]
      push_cast
      ring
  · rw [h2]
    push_cast
    ring

/-- What comes near to a decimal of few digits rounds to the same number, where a decimal that is a
midpoint is met exactly. -/
theorem roundsTo_of_short {d : BinaryNumber} (hd : single.Holds d) (hm : 0 < d.mantissa) {n : ℕ}
    {place : ℤ} (hplace : -53 ≤ place) (hplace' : place ≤ 38)
    (hround : single.RoundsTo d (n * 10 ^ place)) (hn₀ : 0 < n) (hn : n ≤ 2 ^ 24)
    (hskip : ¬(place = -32 ∧ (n = 14077062 ∨ n = 7038531))) {x : ℚ}
    (hx : |x - n * 10 ^ place| ≤ 5 / 2 / 2 ^ 53 * (n * 10 ^ place))
    (hexact : (∃ m : ℕ, m < 2 ^ 25 ∧ ∃ j : ℤ, (n : ℚ) * 10 ^ place = m * 2 ^ j) → x = n * 10 ^ place) :
    single.RoundsTo d x := by
  by_cases htie : ∃ m : ℕ, m < 2 ^ 25 ∧ ∃ j : ℤ, (n : ℚ) * 10 ^ place = m * 2 ^ j
  · rwa [hexact htie]
  · obtain ⟨⟨m₁, hm₁, hm₁', j₁, he₁⟩, m₂, hm₂, hm₂', j₂, he₂⟩ := exists_midpoints hd hm
    have hgap : ∀ m : ℕ, 0 < m → m < 2 ^ 25 → ∀ j : ℤ,
        3 * (m * 2 ^ j : ℚ) ≤ |(n : ℚ) * 10 ^ place - m * 2 ^ j| * 2 ^ 53 := by
      intro m hm₀ hmlt j
      rcases decimal_gap hplace hplace' hn₀ hn hm₀ hmlt j with h | h | h
      · exact absurd ⟨m, hmlt, j, h⟩ htie
      · exact h
      · exact absurd h hskip
    have hlow := hround.low_le
    have hhigh := hround.le_high
    have h₁ := hgap m₁ hm₁ hm₁' j₁
    have h₂ := hgap m₂ hm₂ hm₂' j₂
    have hpos : (0 : ℚ) < m₁ * 2 ^ j₁ := by positivity
    rw [he₁] at hlow
    rw [he₂] at hhigh
    rw [abs_of_nonneg (by linarith)] at h₁
    rw [abs_of_nonpos (by linarith)] at h₂
    rw [abs_le] at hx
    apply BinaryFormat.RoundsTo.of_lt
    · rw [he₁]
      linarith
    · rw [he₂]
      linarith

end DependencyAudit.Decimal
