import DependencyAudit.Decimal.Binary

/-! The fewest decimal digits that read back as a given binary number, and of those the nearest. -/
namespace DependencyAudit.Decimal

/-- The number `digits * 10 ^ place`. -/
structure Digits where
  digits : Nat
  place : Int
deriving DecidableEq

/-- The fractions that round to a number: between two bounds over one denominator, which belong to
them when `closed`. -/
structure Basin where
  low : Nat
  value : Nat
  high : Nat
  den : Nat
  closed : Bool

namespace Basin

def of (f : BinaryFormat) (d : BinaryNumber) : Basin :=
  let below := if d.mantissa = f.leading ∧ d.place > f.least then 1 else 2
  let (p, q) := powerRatio 2 (d.place - 2)
  ⟨(4 * d.mantissa - below) * p, 4 * d.mantissa * p, (4 * d.mantissa + 2) * p, q,
    d.mantissa % 2 = 0⟩

/-- Whether `n * 10 ^ place` rounds to the number. -/
def holds (b : Basin) (n : Nat) (place : Int) : Bool :=
  let (p, q) := powerRatio 10 place
  let x := n * p * b.den
  if b.closed then b.low * q ≤ x && x ≤ b.high * q else b.low * q < x && x < b.high * q

/-- The place of the first decimal digit. -/
def firstPlace (b : Basin) : Int :=
  let e : Int := (Nat.toDigits 10 b.value).length - (Nat.toDigits 10 b.den).length
  let (p, q) := powerRatio 10 e
  if b.den * p ≤ b.value * q then e else e - 1

/-- The nearer of the two neighbours on the grid of `place` that round to the number. -/
def onGrid? (b : Basin) (place : Int) : Option Nat :=
  let (p, q) := powerRatio 10 place
  let num := b.value * q
  let den := b.den * p
  let n := num / den
  let near := roundQuotient num den
  if b.holds near place then some near
  else if b.holds n place then some n
  else if b.holds (n + 1) place then some (n + 1)
  else none

/-- Tries grids of `count`, `count + 1`, … digits. -/
def search (b : Basin) (count : Nat) : Nat → Digits
  | 0 => ⟨b.value, 0⟩
  | fuel + 1 =>
    let place := b.firstPlace - (count - 1)
    match b.onGrid? place with
    | some n => ⟨n, place⟩
    | none => b.search (count + 1) fuel

end Basin

/-- Seventeen digits always suffice. -/
def shortest (f : BinaryFormat) (d : BinaryNumber) : Digits := (Basin.of f d).search 1 17

end DependencyAudit.Decimal
