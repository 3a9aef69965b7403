import Mathlib.Algebra.Order.Field.Power
import Mathlib.Algebra.Order.Field.Rat
import Mathlib.Data.List.TakeWhile
import Mathlib.Data.Rat.Cast.Defs
import Mathlib.Tactic.Ring
import DependencyAudit.Decimal.Layout
import DependencyAudit.Proofs.Json.Reading
import DependencyAudit.Proofs.Text.Digits

/-! The numeral in which a decimal is laid out stands for the decimal. -/
namespace DependencyAudit.Decimal

namespace Numeral

/-- All digits as one number. -/
def digits (n : Numeral) : ℕ := Text.value (n.whole ++ n.fraction)

/-- The power of ten for the last digit. -/
def power (n : Numeral) : ℤ := (n.exponent.map (·.value)).getD 0 - n.fraction.length

end Numeral

/-- The numeral is read as a floating-point number, and stands for `digits * 10 ^ place`. -/
structure Writes (n : Numeral) (d : Digits) : Prop where
  written : n.IsWritten
  real : n.fraction ≠ [] ∨ n.exponent ≠ none
  value_eq : (n.digits : ℚ) * 10 ^ n.power = d.digits * 10 ^ d.place
  digits_lt : n.digits < 10 ^ 14
  power_bounds : n.power = -1 ∨ d.place ≤ n.power ∧ n.power ≤ d.place + 10

theorem exists_dropZeros (cs : List Char) : ∃ k, cs = dropZeros cs ++ zeros k := by
  refine ⟨(cs.reverse.takeWhile (· == '0')).length, ?_⟩
  have h : cs.reverse.takeWhile (· == '0') =
      List.replicate (cs.reverse.takeWhile (· == '0')).length '0' := by
    apply List.eq_replicate_of_mem
    intro c hc
    simpa using List.mem_takeWhile_imp hc
  calc cs = (cs.reverse.takeWhile (· == '0') ++ cs.reverse.dropWhile (· == '0')).reverse := by
        rw [List.takeWhile_append_dropWhile, List.reverse_reverse]
    _ = dropZeros cs ++ zeros (cs.reverse.takeWhile (· == '0')).length := by
        rw [List.reverse_append, h, List.reverse_replicate, List.length_replicate]
        rfl

/-- The digits of a positive number without the zeros at the end. -/
structure Trimmed (d : Digits) (cs : List Char) (k : ℕ) : Prop where
  decimal_eq : Text.decimal d.digits = cs ++ zeros k
  ne_nil : cs ≠ []
  digits : ∀ c ∈ cs, c.isDigit = true
  head : cs.head? ≠ some '0'
  value : Text.value cs * 10 ^ k = d.digits

theorem exists_trimmed {d : Digits} (hd : 0 < d.digits) :
    ∃ k, Trimmed d (dropZeros (Text.decimal d.digits)) k := by
  obtain ⟨k, hk⟩ := exists_dropZeros (Text.decimal d.digits)
  have hvalue : Text.value (dropZeros (Text.decimal d.digits)) * 10 ^ k = d.digits := by
    have h := Text.value_decimal d.digits
    rw [hk, Text.value_append] at h
    simpa [zeros] using h
  have hne : dropZeros (Text.decimal d.digits) ≠ [] := by
    intro he
    rw [he] at hvalue
    simp at hvalue
    omega
  refine ⟨k, hk, hne, ?_, ?_, hvalue⟩
  · intro c hc
    apply Text.isDigit_of_mem_decimal (n := d.digits)
    rw [hk]
    exact List.mem_append_left _ hc
  · intro hh
    have := Text.eq_zero_of_head?_decimal (n := d.digits) (by
      rw [hk, List.head?_append, hh]
      rfl)
    omega

variable {d : Digits} {cs : List Char} {k : ℕ}

theorem Trimmed.value_eq (h : Trimmed d cs k) :
    (Text.value cs : ℚ) * 10 ^ (d.place + k) = d.digits * 10 ^ d.place := by
  rw [← h.value, zpow_add₀ (by norm_num), zpow_natCast]
  push_cast
  ring

theorem Trimmed.value_le (h : Trimmed d cs k) : Text.value cs ≤ d.digits := by
  rw [← h.value]
  exact Nat.le_mul_of_pos_right _ (Nat.pow_pos (by decide))

theorem isDigit_of_mem_zeros {n : ℕ} {c : Char} (h : c ∈ zeros n) : c.isDigit = true := by
  obtain rfl := (List.mem_replicate.mp h).2
  rfl

/-- A zero before the point, and zeros after it. -/
theorem writes_of_leading_zeros (negative : Bool) (h : Trimmed d cs k) (hk : k ≤ 10)
    (hd : d.digits < 10 ^ 14) {n : ℕ} (hn : (n : ℤ) = -(cs.length + k + d.place)) :
    Writes ⟨negative, ['0'], zeros n ++ cs, none⟩ d := by
  have hdigits : Numeral.digits ⟨negative, ['0'], zeros n ++ cs, none⟩ = Text.value cs := by
    rw [Numeral.digits, Text.value_append, Text.value_append, Text.value_singleton]
    simp [zeros]
  have hpower : Numeral.power ⟨negative, ['0'], zeros n ++ cs, none⟩ = d.place + k := by
    simp only [Numeral.power, Option.map_none, Option.getD_none, List.length_append, zeros,
      List.length_replicate]
    push_cast
    omega
  refine ⟨⟨by simp, ?_, by simp, ?_, by simp⟩, Or.inl (by simp [h.ne_nil]), ?_, ?_, ?_⟩
  · intro c hc
    obtain rfl : c = '0' := by simpa using hc
    rfl
  · intro c hc
    rcases List.mem_append.mp hc with hc | hc
    · exact isDigit_of_mem_zeros hc
    · exact h.digits c hc
  · rw [hdigits, hpower]
    exact h.value_eq
  · rw [hdigits]
    exact h.value_le.trans_lt hd
  · rw [hpower]
    omega

/-- Zeros up to the point, and one after it. -/
theorem writes_of_trailing_zeros (negative : Bool) (h : Trimmed d cs k) {n : ℕ}
    (hn : (n : ℤ) = k + d.place) (hlen : cs.length + n ≤ 13) :
    Writes ⟨negative, cs ++ zeros n, ['0'], none⟩ d := by
  have hdigits : Numeral.digits ⟨negative, cs ++ zeros n, ['0'], none⟩ =
      Text.value cs * 10 ^ n * 10 := by
    rw [Numeral.digits, Text.value_append, Text.value_append, Text.value_singleton]
    simp [zeros]
  have hpower : Numeral.power ⟨negative, cs ++ zeros n, ['0'], none⟩ = -1 := rfl
  refine ⟨⟨by simp [h.ne_nil], ?_, ?_, ?_, by simp⟩, Or.inl (by simp), ?_, ?_, Or.inl hpower⟩
  · intro c hc
    rcases List.mem_append.mp hc with hc | hc
    · exact h.digits c hc
    · exact isDigit_of_mem_zeros hc
  · intro hh
    obtain ⟨c, cs', he⟩ := List.exists_cons_of_ne_nil h.ne_nil
    have := h.head
    simp only [he, List.cons_append, List.head?_cons] at hh this
    exact absurd hh this
  · intro c hc
    obtain rfl : c = '0' := by simpa using hc
    rfl
  · have hplace : d.place + k = n := by omega
    rw [hdigits, hpower, ← h.value_eq, hplace, zpow_natCast]
    push_cast
    ring
  · rw [hdigits]
    calc Text.value cs * 10 ^ n * 10 < 10 ^ cs.length * 10 ^ n * 10 := by
          have := Text.value_lt h.digits
          have h₁ : 0 < 10 ^ n := Nat.pow_pos (by decide)
          exact Nat.mul_lt_mul_of_pos_right (Nat.mul_lt_mul_of_pos_right this h₁) (by decide)
      _ = 10 ^ (cs.length + n + 1) := by ring
      _ ≤ 10 ^ 14 := Nat.pow_le_pow_right (by decide) (by omega)

/-- The point within the digits. -/
theorem writes_of_split (negative : Bool) (h : Trimmed d cs k) (hk : k ≤ 10)
    (hd : d.digits < 10 ^ 14) {n : ℕ} (hn : (n : ℤ) = cs.length + k + d.place) (hpos : 0 < n)
    (hlt : n < cs.length) : Writes ⟨negative, cs.take n, cs.drop n, none⟩ d := by
  have hdigits : Numeral.digits ⟨negative, cs.take n, cs.drop n, none⟩ = Text.value cs := by
    rw [Numeral.digits, List.take_append_drop]
  have hpower : Numeral.power ⟨negative, cs.take n, cs.drop n, none⟩ = d.place + k := by
    simp only [Numeral.power, Option.map_none, Option.getD_none, List.length_drop]
    omega
  have hne : cs.drop n ≠ [] := by simpa using hlt
  refine ⟨⟨?_, ?_, ?_, ?_, by simp⟩, Or.inl hne, ?_, ?_, ?_⟩
  · simp [h.ne_nil, hpos.ne']
  · exact fun c hc => h.digits c (List.mem_of_mem_take hc)
  · intro hh
    rw [List.head?_take, if_neg hpos.ne'] at hh
    exact absurd hh h.head
  · exact fun c hc => h.digits c (List.mem_of_mem_drop hc)
  · rw [hdigits, hpower]
    exact h.value_eq
  · rw [hdigits]
    exact h.value_le.trans_lt hd
  · rw [hpower]
    omega

/-- One digit before the point, and a power of ten. -/
theorem writes_of_scientific (negative : Bool) (h : Trimmed d cs k) (hk : k ≤ 10)
    (hd : d.digits < 10 ^ 14) {e : ℤ} (he : e = cs.length + k + d.place - 1) :
    Writes (scientific negative cs e) d := by
  have hlen : 0 < cs.length := List.length_pos_of_ne_nil h.ne_nil
  have hdigits : (scientific negative cs e).digits = Text.value cs := by
    rw [Numeral.digits, scientific, List.take_append_drop]
  have hexp : Exponent.value ⟨e < 0, Text.decimal e.natAbs⟩ = e := by
    simp only [Exponent.value, Text.value_decimal, decide_eq_true_eq]
    split <;> omega
  have hpower : (scientific negative cs e).power = d.place + k := by
    simp only [Numeral.power, scientific, Option.map_some, Option.getD_some, hexp,
      List.length_drop]
    omega
  refine ⟨⟨?_, ?_, ?_, ?_, ?_⟩, Or.inr (by simp [scientific]), ?_, ?_, ?_⟩
  · simp [scientific, h.ne_nil]
  · exact fun c hc => h.digits c (List.mem_of_mem_take hc)
  · intro _
    simp only [scientific, List.length_take]
    omega
  · exact fun c hc => h.digits c (List.mem_of_mem_drop hc)
  · intro x hx
    obtain rfl : x = ⟨e < 0, Text.decimal e.natAbs⟩ := by simpa [scientific] using hx.symm
    exact ⟨Text.decimal_ne_nil _, fun c hc => Text.isDigit_of_mem_decimal hc⟩
  · rw [hdigits, hpower]
    exact h.value_eq
  · rw [hdigits]
    exact h.value_le.trans_lt hd
  · rw [hpower]
    omega

/-- The numeral of a decimal of at most ten digits stands for it. -/
theorem writes_numeral (negative : Bool) {d : Digits} (h₀ : 0 < d.digits) (hd : d.digits ≤ 10 ^ 9) :
    Writes (singleLayout.numeral negative d) d ∧
      (singleLayout.numeral negative d).negative = negative := by
  obtain ⟨k, h⟩ := exists_trimmed h₀
  have hlen : (Text.decimal d.digits).length ≤ 10 :=
    (Text.length_decimal_le_iff (by decide)).mpr (by omega)
  have hk : (Text.decimal d.digits).length = (dropZeros (Text.decimal d.digits)).length + k := by
    conv_lhs => rw [h.decimal_eq]
    simp [zeros]
  have hd' : d.digits < 10 ^ 14 := by omega
  have hne := List.length_pos_of_ne_nil h.ne_nil
  unfold Layout.numeral singleLayout
  dsimp only
  split
  · exact ⟨writes_of_leading_zeros negative h (by omega) hd' (by omega), rfl⟩
  split
  · split
    · exact ⟨writes_of_trailing_zeros negative h (by omega) (by omega), rfl⟩
    · exact ⟨writes_of_split negative h (by omega) hd' (n := (_ : ℤ).toNat) (by omega) (by omega)
        (by omega), rfl⟩
  · exact ⟨writes_of_scientific negative h (by omega) hd' (by omega), rfl⟩

end DependencyAudit.Decimal
