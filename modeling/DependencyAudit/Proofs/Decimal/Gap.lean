import Mathlib.Tactic.LinearCombination
import DependencyAudit.Proofs.Decimal.Rounding

/-! Decimals of few digits keep away from the numbers of twenty-five bits that they do not equal. -/
namespace DependencyAudit.Decimal

/-- Two fractions, `a / b` and `c / d`, about a third one. -/
structure Enclosure where
  a : ℕ
  b : ℕ
  c : ℕ
  d : ℕ

namespace Enclosure

/-- No greater denominators are looked at. -/
def decimalLimit : ℕ := 2 ^ 24

/-- All numerators that are looked at are below this. -/
def binaryLimit : ℕ := 2 ^ 25

/-- How far `a / b` lies below `A / B`, and how far `c / d` lies above it, times the denominators. -/
def below (A B : ℕ) (k : Enclosure) : ℤ := A * k.b - B * k.a

def above (A B : ℕ) (k : Enclosure) : ℤ := B * k.c - A * k.d

/-- Moves the bounds towards `A / B` by mediants, as far as the limits allow. -/
def narrow (A B : ℕ) : ℕ → Enclosure → Enclosure
  | 0, k => k
  | fuel + 1, k =>
    if decimalLimit < k.b + k.d ∨ binaryLimit ≤ k.a + k.c then k
    else
      let low := (k.below A B).toNat
      let high := (k.above A B).toNat
      if high ≤ low then
        let t := min (low / high) (min ((decimalLimit - k.b) / k.d) ((binaryLimit - 1 - k.a) / k.c))
        narrow A B fuel ⟨k.a + t * k.c, k.b + t * k.d, k.c, k.d⟩
      else
        let room := min ((decimalLimit - k.d) / k.b) ((binaryLimit - 1 - k.c) / k.a)
        let t := if low = 0 then room else min ((high - 1) / low) room
        narrow A B fuel ⟨k.a, k.b, k.c + t * k.a, k.d + t * k.b⟩

/-- The fractions are neighbours with nothing between them within the limits, and keep away from
`A / B`: the lower one unless it is equal, the upper one unless its denominator is `skip`. -/
structure Separates (A B skip : ℕ) (k : Enclosure) : Prop where
  det : k.b * k.c = k.a * k.d + 1
  wide : decimalLimit < k.b + k.d ∨ binaryLimit ≤ k.a + k.c
  below_nonneg : 0 ≤ k.below A B
  above_pos : 0 < k.above A B
  low : 3 * (k.a * B) ≤ k.below A B * 2 ^ 53 ∨ k.below A B = 0 ∧ 3 * B ≤ k.above A B * 2 ^ 28
  high : 3 * (k.c * B) ≤ k.above A B * 2 ^ 53 ∨
    k.d = skip ∧ (decimalLimit < 2 * k.d ∨ binaryLimit ≤ 2 * k.c) ∧ 3 * B ≤ k.below A B * 2 ^ 28

instance (A B skip : ℕ) (k : Enclosure) : Decidable (k.Separates A B skip) :=
  decidable_of_iff (k.b * k.c = k.a * k.d + 1 ∧
    (decimalLimit < k.b + k.d ∨ binaryLimit ≤ k.a + k.c) ∧ 0 ≤ k.below A B ∧ 0 < k.above A B ∧
    (3 * (k.a * B) ≤ k.below A B * 2 ^ 53 ∨ k.below A B = 0 ∧ 3 * B ≤ k.above A B * 2 ^ 28) ∧
    (3 * (k.c * B) ≤ k.above A B * 2 ^ 53 ∨
      k.d = skip ∧ (decimalLimit < 2 * k.d ∨ binaryLimit ≤ 2 * k.c) ∧
        3 * B ≤ k.below A B * 2 ^ 28))
    ⟨fun ⟨h₁, h₂, h₃, h₄, h₅, h₆⟩ => ⟨h₁, h₂, h₃, h₄, h₅, h₆⟩,
      fun h => ⟨h.det, h.wide, h.below_nonneg, h.above_pos, h.low, h.high⟩⟩

variable {A B skip : ℕ} {k : Enclosure}

/-- A fraction on the side of the lower neighbour. -/
theorem Separates.gap_low (h : k.Separates A B skip) {m : ℕ} (hm : m < binaryLimit) {x y : ℤ}
    (hx : 0 < x) (hy : y ≤ 0) (hxy : (m : ℤ) = x * k.a + y * k.c) :
    x * k.below A B - y * k.above A B = 0 ∨
      3 * (m * B : ℤ) ≤ (x * k.below A B - y * k.above A B) * 2 ^ 53 := by
  have hbelow := h.below_nonneg
  have habove := h.above_pos
  have hc : 0 ≤ -y * (k.c : ℤ) := mul_nonneg (by omega) (Int.natCast_nonneg _)
  have hv : 0 ≤ -y * k.above A B := mul_nonneg (by omega) habove.le
  rcases h.low with hlow | ⟨hlow, hup⟩
  · right
    calc 3 * (m * B : ℤ) ≤ x * (3 * (k.a * B)) := by
          nlinarith [mul_nonneg hc (Int.natCast_nonneg B)]
      _ ≤ x * (k.below A B * 2 ^ 53) := by gcongr
      _ ≤ (x * k.below A B - y * k.above A B) * 2 ^ 53 := by nlinarith
  · rw [hlow, mul_zero, zero_sub]
    rcases hy.lt_or_eq with hy | rfl
    · right
      have hm' : (m : ℤ) ≤ 2 ^ 25 := by exact_mod_cast hm.le
      calc 3 * (m * B : ℤ) ≤ 3 * B * 2 ^ 25 := by nlinarith [Int.natCast_nonneg B]
        _ ≤ k.above A B * 2 ^ 28 * 2 ^ 25 := by gcongr
        _ ≤ -(y * k.above A B) * 2 ^ 53 := by nlinarith
    · left
      simp

/-- A fraction on the side of the upper neighbour. -/
theorem Separates.gap_high (h : k.Separates A B skip) {n m : ℕ} (hn : n ≤ decimalLimit)
    (hm : m < binaryLimit) {x y : ℤ} (hx : x ≤ 0) (hy : 0 < y) (hxn : (n : ℤ) = x * k.b + y * k.d)
    (hxm : (m : ℤ) = x * k.a + y * k.c) :
    3 * (m * B : ℤ) ≤ (y * k.above A B - x * k.below A B) * 2 ^ 53 ∨ n = skip := by
  have hbelow := h.below_nonneg
  have habove := h.above_pos
  have ha : 0 ≤ -x * (k.a : ℤ) := mul_nonneg (by omega) (Int.natCast_nonneg _)
  have hu : 0 ≤ -x * k.below A B := mul_nonneg (by omega) hbelow
  rcases h.high with hhigh | ⟨hskip, htwice, hlow⟩
  · left
    calc 3 * (m * B : ℤ) ≤ y * (3 * (k.c * B)) := by
          nlinarith [mul_nonneg ha (Int.natCast_nonneg B)]
      _ ≤ y * (k.above A B * 2 ^ 53) := by gcongr
      _ ≤ (y * k.above A B - x * k.below A B) * 2 ^ 53 := by nlinarith
  · rcases hx.lt_or_eq with hx | rfl
    · left
      have hm' : (m : ℤ) ≤ 2 ^ 25 := by exact_mod_cast hm.le
      calc 3 * (m * B : ℤ) ≤ 3 * B * 2 ^ 25 := by nlinarith [Int.natCast_nonneg B]
        _ ≤ k.below A B * 2 ^ 28 * 2 ^ 25 := by gcongr
        _ ≤ (y * k.above A B - x * k.below A B) * 2 ^ 53 := by nlinarith
    · -- Twice the fraction to skip is beyond the limits already.
      right
      rw [zero_mul, zero_add] at hxn hxm
      have hy' : y < 2 := by
        by_contra hge
        have hd : 2 * (k.d : ℤ) ≤ n := by nlinarith [Int.natCast_nonneg k.d]
        have hc : 2 * (k.c : ℤ) ≤ m := by nlinarith [Int.natCast_nonneg k.c]
        omega
      obtain rfl : y = 1 := by omega
      omega

/-- Within the limits nothing but the fraction itself and the one to skip comes near to it. -/
theorem Separates.gap (h : k.Separates A B skip) {n m : ℕ} (hn : 0 < n) (hn' : n ≤ decimalLimit)
    (hm' : m < binaryLimit) :
    (n * A : ℤ) = m * B ∨ 3 * (m * B : ℤ) ≤ |(n * A - m * B : ℤ)| * 2 ^ 53 ∨ n = skip := by
  have hdet : (k.b * k.c : ℤ) = k.a * k.d + 1 := by exact_mod_cast h.det
  -- The coordinates of the fraction `m / n` with respect to the two neighbours.
  obtain ⟨x, hx⟩ : ∃ x : ℤ, x = n * k.c - m * k.d := ⟨_, rfl⟩
  obtain ⟨y, hy⟩ : ∃ y : ℤ, y = m * k.b - n * k.a := ⟨_, rfl⟩
  have hn₀ : (n : ℤ) = x * k.b + y * k.d := by
    rw [hx, hy]
    linear_combination (-n : ℤ) * hdet
  have hm₀ : (m : ℤ) = x * k.a + y * k.c := by
    rw [hx, hy]
    linear_combination (-m : ℤ) * hdet
  have hdiff : (n * A - m * B : ℤ) = x * k.below A B - y * k.above A B := by
    rw [hn₀, hm₀, below, above]
    ring
  rcases lt_or_ge 0 x with hx₀ | hx₀ <;> rcases lt_or_ge 0 y with hy₀ | hy₀
  · -- Strictly between the neighbours the numbers are too great.
    exfalso
    rcases h.wide with hw | hw
    · have : (k.b : ℤ) + k.d ≤ n := by
        rw [hn₀]
        nlinarith [Int.natCast_nonneg k.b, Int.natCast_nonneg k.d]
      omega
    · have : (k.a : ℤ) + k.c ≤ m := by
        rw [hm₀]
        nlinarith [Int.natCast_nonneg k.a, Int.natCast_nonneg k.c]
      omega
  · rw [hdiff]
    rcases h.gap_low hm' hx₀ hy₀ hm₀ with he | hgap
    · exact Or.inl (by linarith)
    · exact Or.inr (Or.inl (hgap.trans (by gcongr; exact le_abs_self _)))
  · rcases h.gap_high hn' hm' hx₀ hy₀ hn₀ hm₀ with hgap | hs
    · rw [hdiff, abs_sub_comm]
      exact Or.inr (Or.inl (hgap.trans (by gcongr; exact le_abs_self _)))
    · exact Or.inr (Or.inr hs)
  · exfalso
    have : (n : ℤ) ≤ 0 := by
      rw [hn₀]
      nlinarith [Int.natCast_nonneg k.b, Int.natCast_nonneg k.d]
    omega

/-- The enclosure of `A / B` that is as narrow as the limits allow. -/
def about (A B : ℕ) : Enclosure := narrow A B 100 ⟨A / B, 1, A / B + 1, 1⟩

end Enclosure

open Enclosure

/-- The fraction `5 ^ p * 2 ^ i`. -/
def fiveTwo (p i : ℤ) : ℕ × ℕ :=
  ((powerRatio 5 p).1 * (powerRatio 2 i).1, (powerRatio 5 p).2 * (powerRatio 2 i).2)

/-- The power of two that brings the power of five between one and two. -/
def balance (p : ℤ) : ℤ := -BinaryFormat.highPlace (powerRatio 5 p).1 (powerRatio 5 p).2

/-- The only decimal of few digits that comes near to a number of twenty-five bits without being it
is `7038531 * 10 ^ -32`; these are its digits and their double, with the power of two for each. -/
def skipAt (p : ℤ) : ℕ × ℕ := if p = -32 then (14077062, 7038531) else (0, 0)

/-- What shows that the decimals with the power of ten `10 ^ p` keep away. -/
structure Certified (p : ℤ) : Prop where
  one_le : (fiveTwo p (balance p)).2 ≤ (fiveTwo p (balance p)).1
  lt_two : (6 * (fiveTwo p (balance p)).2 : ℤ) ≤
    (2 * (fiveTwo p (balance p)).2 - (fiveTwo p (balance p)).1) * 2 ^ 53
  first : (about (fiveTwo p (balance p)).1 (fiveTwo p (balance p)).2).Separates
    (fiveTwo p (balance p)).1 (fiveTwo p (balance p)).2 (skipAt p).1
  second : (about (fiveTwo p (balance p + 1)).1 (fiveTwo p (balance p + 1)).2).Separates
    (fiveTwo p (balance p + 1)).1 (fiveTwo p (balance p + 1)).2 (skipAt p).2

instance (p : ℤ) : Decidable (Certified p) :=
  decidable_of_iff (_ ∧ _ ∧ _ ∧ _)
    ⟨fun ⟨h₁, h₂, h₃, h₄⟩ => Certified.mk h₁ h₂ h₃ h₄,
      fun h => ⟨h.one_le, h.lt_two, h.first, h.second⟩⟩

theorem certified_of_lt : ∀ n < 92, Certified ((n : ℕ) - 53) := by
  decide +kernel

theorem fiveTwo_pos (p i : ℤ) : 0 < (fiveTwo p i).2 :=
  Nat.mul_pos (powerRatio_pos (by decide) p).2 (powerRatio_pos (by decide) i).2

theorem fiveTwo_eq (p i : ℤ) :
    ((fiveTwo p i).1 : ℚ) / (fiveTwo p i).2 = 5 ^ p * 2 ^ i := by
  have h5 := powerRatio_eq 5 p
  have h2 := powerRatio_eq 2 i
  push_cast at h5 h2
  rw [← h5, ← h2, fiveTwo]
  push_cast
  rw [mul_div_mul_comm]

theorem Enclosure.Separates.gap_rat {p i : ℤ} {skip : ℕ} {k : Enclosure}
    (h : k.Separates (fiveTwo p i).1 (fiveTwo p i).2 skip) {n m : ℕ} (hn : 0 < n)
    (hn' : n ≤ decimalLimit) (hm : m < binaryLimit) :
    (n : ℚ) * (5 ^ p * 2 ^ i) = m ∨
      3 * (m : ℚ) ≤ |(n : ℚ) * (5 ^ p * 2 ^ i) - m| * 2 ^ 53 ∨ n = skip := by
  have hB : (0 : ℚ) < (fiveTwo p i).2 := by exact_mod_cast fiveTwo_pos p i
  rw [← fiveTwo_eq]
  rcases h.gap hn hn' hm with he | hgap | hs
  · left
    rw [← mul_div_assoc, div_eq_iff hB.ne']
    exact_mod_cast he
  · right
    left
    have hgap' : 3 * ((m : ℚ) * (fiveTwo p i).2) ≤
        |(n : ℚ) * (fiveTwo p i).1 - m * (fiveTwo p i).2| * 2 ^ 53 := by exact_mod_cast hgap
    have hdiff : (n : ℚ) * (fiveTwo p i).1 - m * (fiveTwo p i).2 =
        (n * ((fiveTwo p i).1 / (fiveTwo p i).2) - m) * (fiveTwo p i).2 := by
      field_simp
    rw [hdiff, abs_mul, abs_of_pos hB] at hgap'
    refine le_of_mul_le_mul_right ?_ hB
    linarith
  · exact Or.inr (Or.inr hs)

/-- A decimal whose power is at most half of the balanced one is far below the least number of
twenty-five bits. -/
theorem gap_below {p i k : ℤ} (hi : i < k) (htwo : 6 ≤ (2 - (5 : ℚ) ^ p * 2 ^ k) * 2 ^ 53) {n m : ℕ}
    (hn : n ≤ 2 ^ 24) (hm : 2 ^ 24 ≤ m) :
    3 * (m : ℚ) ≤ |(n : ℚ) * (5 ^ p * 2 ^ i) - m| * 2 ^ 53 := by
  have hnq : (n : ℚ) ≤ 2 ^ 24 := by exact_mod_cast hn
  have hmq : (2 : ℚ) ^ 24 ≤ m := by exact_mod_cast hm
  have h5 : (0 : ℚ) < 5 ^ p := by positivity
  have hle : 2 * ((5 : ℚ) ^ p * 2 ^ i) ≤ 5 ^ p * 2 ^ k := by
    have h2 : 2 * (2 : ℚ) ^ i ≤ 2 ^ k := by
      rw [← zpow_one_add₀ (by norm_num)]
      exact zpow_le_zpow_right₀ (by norm_num) (by omega)
    nlinarith
  have hnα : (n : ℚ) * (5 ^ p * 2 ^ i) ≤ 2 ^ 24 * (5 ^ p * 2 ^ k / 2) :=
    mul_le_mul hnq (by linarith) (by positivity) (by norm_num)
  rw [abs_sub_comm]
  refine le_trans ?_ (mul_le_mul_of_nonneg_right (le_abs_self _) (by norm_num))
  nlinarith

/-- A decimal whose power is at least four times the balanced one is above the greatest number of
twenty-five bits. -/
theorem gap_above {p i k : ℤ} (hi : k + 1 < i) (hone : 1 ≤ (5 : ℚ) ^ p * 2 ^ k) {n m : ℕ}
    (hn : 2 ^ 23 ≤ n) (hm : m < 2 ^ 25) :
    3 * (m : ℚ) ≤ |(n : ℚ) * (5 ^ p * 2 ^ i) - m| * 2 ^ 53 := by
  have hnq : (2 : ℚ) ^ 23 ≤ n := by exact_mod_cast hn
  have hmq : (m : ℚ) + 1 ≤ 2 ^ 25 := by exact_mod_cast hm
  have h5 : (0 : ℚ) < 5 ^ p := by positivity
  have hle : 4 * ((5 : ℚ) ^ p * 2 ^ k) ≤ 5 ^ p * 2 ^ i := by
    have h2 : 4 * (2 : ℚ) ^ k ≤ 2 ^ i := by
      rw [show (4 : ℚ) = 2 ^ (2 : ℤ) by norm_num, ← zpow_add₀ (by norm_num)]
      exact zpow_le_zpow_right₀ (by norm_num) (by omega)
    nlinarith
  have hn4 : (2 : ℚ) ^ 25 ≤ n * (5 ^ p * 2 ^ i) := by nlinarith
  rw [abs_of_nonneg (by linarith)]
  linarith

/-- The gap for numbers of exactly twenty-four and twenty-five bits. -/
theorem gap_of_full {p : ℤ} (h : Certified p) (i : ℤ) {n m : ℕ} (hn : 2 ^ 23 ≤ n) (hn' : n ≤ 2 ^ 24)
    (hm : 2 ^ 24 ≤ m) (hm' : m < 2 ^ 25) :
    (n : ℚ) * (5 ^ p * 2 ^ i) = m ∨
      3 * (m : ℚ) ≤ |(n : ℚ) * (5 ^ p * 2 ^ i) - m| * 2 ^ 53 ∨
      n = (skipAt p).1 ∨ n = (skipAt p).2 := by
  have hB : (0 : ℚ) < (fiveTwo p (balance p)).2 := by exact_mod_cast fiveTwo_pos p _
  have hone : 1 ≤ (5 : ℚ) ^ p * 2 ^ balance p := by
    rw [← fiveTwo_eq, le_div_iff₀ hB, one_mul]
    exact_mod_cast h.one_le
  have htwo : 6 ≤ (2 - (5 : ℚ) ^ p * 2 ^ balance p) * 2 ^ 53 := by
    have : (6 * (fiveTwo p (balance p)).2 : ℚ) ≤
        (2 * (fiveTwo p (balance p)).2 - (fiveTwo p (balance p)).1) * 2 ^ 53 := by
      exact_mod_cast h.lt_two
    rw [← fiveTwo_eq]
    refine le_of_mul_le_mul_right ?_ hB
    field_simp
    linarith
  rcases lt_trichotomy i (balance p) with hi | rfl | hi
  · exact Or.inr (Or.inl (gap_below hi htwo hn' hm))
  · rcases h.first.gap_rat (by omega) hn' hm' with he | hgap | hs
    · exact Or.inl he
    · exact Or.inr (Or.inl hgap)
    · exact Or.inr (Or.inr (Or.inl hs))
  · rcases (show balance p + 1 ≤ i from hi).eq_or_lt with rfl | hi
    · rcases h.second.gap_rat (by omega) hn' hm' with he | hgap | hs
      · exact Or.inl he
      · exact Or.inr (Or.inl hgap)
      · exact Or.inr (Or.inr (Or.inr hs))
    · exact Or.inr (Or.inl (gap_above hi hone hn hm'))

theorem exists_shift {n k : ℕ} (hn : 0 < n) (hk : n < 2 ^ (k + 1)) :
    ∃ a, 2 ^ k ≤ n * 2 ^ a ∧ n * 2 ^ a < 2 ^ (k + 1) := by
  have hlog : n.log2 < k + 1 := (Nat.log2_lt hn.ne').mpr hk
  refine ⟨k - n.log2, ?_, ?_⟩
  · calc 2 ^ k = 2 ^ n.log2 * 2 ^ (k - n.log2) := by rw [← Nat.pow_add]; congr 1; omega
      _ ≤ n * 2 ^ (k - n.log2) := Nat.mul_le_mul_right _ (Nat.log2_self_le hn.ne')
  · calc n * 2 ^ (k - n.log2) < 2 ^ (n.log2 + 1) * 2 ^ (k - n.log2) :=
          Nat.mul_lt_mul_of_pos_right Nat.lt_log2_self (by positivity)
      _ = 2 ^ (k + 1) := by rw [← Nat.pow_add]; congr 1; omega

theorem eq_of_skip {p : ℤ} {n a : ℕ} (hn : 0 < n)
    (h : n * 2 ^ a = (skipAt p).1 ∨ n * 2 ^ a = (skipAt p).2) :
    p = -32 ∧ (n = 14077062 ∨ n = 7038531) := by
  have hpos : 0 < n * 2 ^ a := by positivity
  unfold skipAt at h
  split at h
  · rename_i hp
    refine ⟨hp, ?_⟩
    match a with
    | 0 => omega
    | 1 => omega
    | a + 2 =>
      have he : n * 2 ^ (a + 2) = 4 * (n * 2 ^ a) := by ring
      omega
  · omega

/-- A decimal of at most `2 ^ 24` comes near to a number of twenty-five bits only if it is the number,
or the one exception. -/
theorem decimal_gap {p : ℤ} (hp : -53 ≤ p) (hp' : p ≤ 38) {n m : ℕ} (hn : 0 < n) (hn' : n ≤ 2 ^ 24)
    (hm : 0 < m) (hm' : m < 2 ^ 25) (j : ℤ) :
    (n : ℚ) * 10 ^ p = m * 2 ^ j ∨
      3 * (m * 2 ^ j : ℚ) ≤ |(n : ℚ) * 10 ^ p - m * 2 ^ j| * 2 ^ 53 ∨
      p = -32 ∧ (n = 14077062 ∨ n = 7038531) := by
  have hcert : Certified p := by
    have h := certified_of_lt (p + 53).toNat (by omega)
    rwa [show ((p + 53).toNat : ℤ) - 53 = p by omega] at h
  obtain ⟨a, ha, ha'⟩ : ∃ a, 2 ^ 23 ≤ n * 2 ^ a ∧ n * 2 ^ a ≤ 2 ^ 24 := by
    rcases hn'.lt_or_eq with hlt | rfl
    · obtain ⟨a, ha, ha'⟩ := exists_shift hn (show n < 2 ^ (23 + 1) from hlt)
      exact ⟨a, ha, ha'.le⟩
    · exact ⟨0, by norm_num, by norm_num⟩
  obtain ⟨b, hb, hb'⟩ := exists_shift hm (show m < 2 ^ (24 + 1) from hm')
  -- Both sides are brought to full length by powers of two.
  have hu : (0 : ℚ) < 2 ^ (j - b) := by positivity
  have hm₂ : (m : ℚ) * 2 ^ j = (m * 2 ^ b : ℕ) * 2 ^ (j - b) := by
    push_cast
    rw [mul_assoc, ← zpow_natCast, ← zpow_add₀ (by norm_num)]
    congr 2
    ring
  have hn₂ : (n : ℚ) * 10 ^ p =
      ((n * 2 ^ a : ℕ) : ℚ) * (5 ^ p * 2 ^ (p - a - j + b)) * 2 ^ (j - b) := by
    push_cast
    rw [show (10 : ℚ) = 5 * 2 by norm_num, mul_zpow]
    have : (2 : ℚ) ^ p = 2 ^ (a : ℤ) * 2 ^ (p - a - j + b) * 2 ^ (j - b) := by
      rw [← zpow_add₀ (by norm_num), ← zpow_add₀ (by norm_num)]
      congr 1
      ring
    rw [this, zpow_natCast]
    ring
  rcases gap_of_full hcert (p - a - j + b) ha ha' hb hb' with he | hgap | hs
  · left
    rw [hn₂, hm₂, he]
  · right
    left
    rw [hn₂, hm₂, ← sub_mul, abs_mul, abs_of_pos hu]
    nlinarith
  · exact Or.inr (Or.inr (eq_of_skip hn hs))

end DependencyAudit.Decimal
