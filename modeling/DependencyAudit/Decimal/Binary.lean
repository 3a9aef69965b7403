/-! Binary floating-point numbers as exact fractions, and rounding a fraction to the nearest one. -/
namespace DependencyAudit.Decimal

/-- `precision` bits, and the least and greatest place of the last of them. -/
structure BinaryFormat where
  precision : Nat
  least : Int
  greatest : Int

def single : BinaryFormat := ⟨24, -149, 104⟩

def double : BinaryFormat := ⟨53, -1074, 971⟩

/-- The number `mantissa * 2 ^ place`. -/
structure BinaryNumber where
  mantissa : Nat
  place : Int
deriving DecidableEq

/-- `base ^ e` as a fraction. -/
def powerRatio (base : Nat) (e : Int) : Nat × Nat :=
  if e ≥ 0 then (base.pow e.toNat, 1) else (1, base.pow (-e).toNat)

namespace BinaryNumber

def numerator (d : BinaryNumber) : Nat := d.mantissa * (powerRatio 2 d.place).1

def denominator (d : BinaryNumber) : Nat := (powerRatio 2 d.place).2

def isZero (d : BinaryNumber) : Bool := d.mantissa == 0

end BinaryNumber

/-- The nearest natural number; a half goes to the even neighbour. -/
def roundQuotient (num den : Nat) : Nat :=
  let q := num / den
  let twice := 2 * (num % den)
  if twice < den then q
  else if den < twice then q + 1
  else if q % 2 = 0 then q else q + 1

namespace BinaryFormat

/-- The first of the bits that a number may have. -/
def leading (f : BinaryFormat) : Nat := Nat.pow 2 (f.precision - 1)

def zero (f : BinaryFormat) : BinaryNumber := ⟨0, f.least⟩

/-- The place of the highest bit of a positive fraction. -/
def highPlace (num den : Nat) : Int :=
  let e : Int := (num.log2 : Int) - den.log2
  let (p, q) := powerRatio 2 e
  if den * p ≤ num * q then e else e - 1

/-- The nearest number of the format, ties to even; `none` where that is beyond the greatest. -/
def round? (f : BinaryFormat) (num den : Nat) : Option BinaryNumber :=
  if num = 0 then some f.zero
  else
    let place := max (highPlace num den - (f.precision - 1)) f.least
    let (p, q) := powerRatio 2 place
    let m := roundQuotient (num * q) (den * p)
    let d : BinaryNumber := if m = f.leading * 2 then ⟨f.leading, place + 1⟩ else ⟨m, place⟩
    if d.place > f.greatest then none else some d

def mul? (f : BinaryFormat) (a b : BinaryNumber) : Option BinaryNumber :=
  f.round? (a.numerator * b.numerator) (a.denominator * b.denominator)

def div? (f : BinaryFormat) (a b : BinaryNumber) : Option BinaryNumber :=
  f.round? (a.numerator * b.denominator) (a.denominator * b.numerator)

end BinaryFormat
end DependencyAudit.Decimal
