import Mathlib.Algebra.Ring.Nat
import DependencyAudit.Text.Blank
import DependencyAudit.Text.Number

/-! Decimal digits of a number, the number of a run of digits, and how digits and letters differ. -/
namespace DependencyAudit.Text

theorem isBlank_of_isDigit {c : Char} (h : c.isDigit = true) : isBlank c = false := by
  simp only [Char.isDigit, Bool.and_eq_true, decide_eq_true_eq] at h
  have h₁ : 48 ≤ c.toNat := h.1
  have h₂ : c.toNat ≤ 57 := h.2
  simp only [isBlank, Bool.or_eq_false_iff, Bool.and_eq_false_iff, decide_eq_false_iff_not,
    beq_eq_false_iff_ne]
  omega

theorem toNat_of_isAlpha {c : Char} (h : c.isAlpha = true) :
    65 ≤ c.toNat ∧ c.toNat ≤ 90 ∨ 97 ≤ c.toNat ∧ c.toNat ≤ 122 := by
  rcases Bool.or_eq_true_iff.mp h with h | h
  · exact Or.inl (of_decide_eq_true h)
  · obtain ⟨hlow, hhigh⟩ := Bool.and_eq_true_iff.mp h
    exact Or.inr ⟨of_decide_eq_true hlow, of_decide_eq_true hhigh⟩

theorem isBlank_of_isAlpha {c : Char} (h : c.isAlpha = true) : isBlank c = false := by
  have hn := toNat_of_isAlpha h
  simp only [isBlank, Bool.or_eq_false_iff, Bool.and_eq_false_iff, decide_eq_false_iff_not,
    beq_eq_false_iff_ne]
  omega

theorem isDigit_of_isAlpha {c : Char} (h : c.isAlpha = true) : c.isDigit = false := by
  rw [← Bool.not_eq_true]
  intro hd
  simp only [Char.isDigit, Bool.and_eq_true, decide_eq_true_eq] at hd
  have h₁ : 48 ≤ c.toNat := hd.1
  have h₂ : c.toNat ≤ 57 := hd.2
  have hn := toNat_of_isAlpha h
  omega

theorem isDigit_of_mem_decimal {n : ℕ} {c : Char} (h : c ∈ decimal n) : c.isDigit = true :=
  Nat.isDigit_of_mem_toDigits (by decide) (by decide) h

theorem all_isDigit_decimal (n : ℕ) : (decimal n).all Char.isDigit = true :=
  List.all_eq_true.mpr fun _ => isDigit_of_mem_decimal

theorem decimal_injective : Function.Injective decimal :=
  Function.LeftInverse.injective value_decimal

theorem number?_decimal {n : ℕ} (h : n < numberLimit) : number? (decimal n) = some n :=
  number?_eq_some_iff.mpr ⟨value_decimal n, h⟩

theorem decimal_ne_nil (n : ℕ) : decimal n ≠ [] := Nat.toDigits_ne_nil

theorem decimal_of_lt {n : ℕ} (h : n < 10) : decimal n = [n.digitChar] :=
  Nat.toDigits_of_lt_base h

/-- Only zero itself starts with a zero. -/
theorem eq_zero_of_head?_decimal {n : ℕ} (h : (decimal n).head? = some '0') : n = 0 := by
  induction n using Nat.strongRecOn with
  | ind n ih =>
    by_cases hn : n < 10
    · rw [decimal_of_lt hn, List.head?_cons, Option.some.injEq] at h
      have hv := Nat.toNat_digitChar_sub_48_of_lt_ten hn
      rw [h] at hv
      exact hv.symm
    · have hd : decimal n = decimal (n / 10) ++ [(n % 10).digitChar] :=
        Nat.toDigits_of_base_le (by decide) (by omega)
      obtain ⟨c, cs, hc⟩ := List.exists_cons_of_ne_nil (decimal_ne_nil (n / 10))
      rw [hd, hc, List.cons_append, List.head?_cons] at h
      have := ih (n / 10) (by omega) (by rw [hc, List.head?_cons, h])
      omega

theorem length_decimal_le_iff {n k : ℕ} (h : 0 < k) : (decimal n).length ≤ k ↔ n < 10 ^ k :=
  Nat.length_toDigits_le_iff (by decide) h

@[simp] theorem value_nil : value [] = 0 := rfl

theorem value_append (xs ys : List Char) :
    value (xs ++ ys) = value xs * 10 ^ ys.length + value ys := by
  rw [value, Nat.ofDigitChars_append, Nat.ofDigitChars_eq_ofDigitChars_zero, Nat.mul_comm]
  rfl

@[simp] theorem value_replicate_zero (n : ℕ) : value (List.replicate n '0') = 0 := by
  simp [value]

theorem value_singleton (c : Char) : value [c] = c.toNat - '0'.toNat := by
  simp [value, Nat.ofDigitChars]

theorem digit_lt {c : Char} (h : c.isDigit = true) : c.toNat - '0'.toNat < 10 := by
  simp only [Char.isDigit, Bool.and_eq_true, decide_eq_true_eq] at h
  have h₂ : c.toNat ≤ '9'.toNat := h.2
  have h9 : '9'.toNat = '0'.toNat + 9 := by decide
  omega

theorem value_lt {cs : List Char} (h : ∀ c ∈ cs, c.isDigit = true) : value cs < 10 ^ cs.length := by
  induction cs with
  | nil => simp
  | cons c cs ih =>
    have hc := digit_lt (h c List.mem_cons_self)
    have hcs := ih fun c hc => h c (List.mem_cons_of_mem _ hc)
    rw [← List.singleton_append, value_append, value_singleton, List.length_append,
      List.length_singleton, Nat.pow_add, Nat.pow_one]
    have hle : (c.toNat - '0'.toNat) * 10 ^ cs.length ≤ 9 * 10 ^ cs.length :=
      Nat.mul_le_mul_right _ (by omega)
    omega

theorem eq_of_digit_value {c d : Char} (hc : c.isDigit = true) (hd : d.isDigit = true)
    (h : c.toNat - '0'.toNat = d.toNat - '0'.toNat) : c = d := by
  simp only [Char.isDigit, Bool.and_eq_true, decide_eq_true_eq] at hc hd
  have hc' : '0'.toNat ≤ c.toNat := hc.1
  have hd' : '0'.toNat ≤ d.toNat := hd.1
  exact Char.toNat_inj.mp (by omega)

/-- Runs of digits of one length are told apart by their values. -/
theorem eq_of_value_eq {xs ys : List Char} (hx : ∀ c ∈ xs, c.isDigit = true)
    (hy : ∀ c ∈ ys, c.isDigit = true) (hl : xs.length = ys.length) (hv : value xs = value ys) :
    xs = ys := by
  induction xs generalizing ys with
  | nil => simpa using hl.symm
  | cons c xs ih =>
    cases ys with
    | nil => simp at hl
    | cons d ys =>
      have hl : xs.length = ys.length := by simpa using hl
      have hxs : ∀ c ∈ xs, c.isDigit = true := fun c hc => hx c (List.mem_cons_of_mem _ hc)
      have hys : ∀ c ∈ ys, c.isDigit = true := fun c hc => hy c (List.mem_cons_of_mem _ hc)
      have hxv := value_lt hxs
      have hyv := value_lt hys
      rw [hl] at hxv
      rw [← List.singleton_append, ← List.singleton_append (l := ys), value_append, value_append,
        value_singleton, value_singleton, hl] at hv
      have htail : value xs = value ys := by
        have hmod := congrArg (· % 10 ^ ys.length) hv
        simpa only [Nat.mul_add_mod', Nat.mod_eq_of_lt hxv, Nat.mod_eq_of_lt hyv] using hmod
      have hhead : c = d := by
        refine eq_of_digit_value (hx c List.mem_cons_self) (hy d List.mem_cons_self) ?_
        have hpos : 0 < 10 ^ ys.length := Nat.pow_pos (by decide)
        exact Nat.eq_of_mul_eq_mul_right hpos (by omega)
      rw [hhead, ih hxs hys hl htail]

end DependencyAudit.Text
