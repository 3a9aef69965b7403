/-! Natural numbers in decimal digits. -/
namespace DependencyAudit.Text

def decimal (n : Nat) : List Char := Nat.toDigits 10 n

/-- The value of a run of digits; no digits are zero. -/
def value (digits : List Char) : Nat := Nat.ofDigitChars 10 digits 0

@[simp] theorem value_decimal (n : Nat) : value (decimal n) = n :=
  Nat.ofDigitChars_toDigits (by decide) (by decide)

/-- One more than the largest number that is read. -/
def numberLimit : Nat := 0x10000000000000000

/-- The value of a run of digits below the limit. -/
def number? (digits : List Char) : Option Nat :=
  let n := value digits
  if n < numberLimit then some n else none

theorem number?_eq_some_iff {digits : List Char} {n : Nat} :
    number? digits = some n ↔ value digits = n ∧ n < numberLimit := by
  simp only [number?]
  split
  · rename_i h
    constructor
    · intro e; cases e; exact ⟨rfl, h⟩
    · rintro ⟨rfl, _⟩; rfl
  · rename_i h
    constructor
    · intro e; cases e
    · rintro ⟨rfl, h'⟩; exact absurd h' h

/-- The number after `n` in the range that is read: the largest one is followed by zero. -/
def nextNumber (n : Nat) : Nat := (n + 1) % numberLimit

theorem nextNumber_of_lt {n : Nat} (h : n + 1 < numberLimit) : nextNumber n = n + 1 :=
  Nat.mod_eq_of_lt h

end DependencyAudit.Text
