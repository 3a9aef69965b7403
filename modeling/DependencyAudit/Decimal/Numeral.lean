import DependencyAudit.Decimal.Binary
import DependencyAudit.Text.Number

/-! Numerals with an optional fraction and an optional power of ten, and the number one stands for. -/
namespace DependencyAudit.Decimal

/-- A power of ten: whether it is negative, and its digits. -/
structure Exponent where
  negative : Bool
  digits : List Char
deriving DecidableEq

/-- A fraction that is written is not empty. -/
structure Numeral where
  negative : Bool
  whole : List Char
  fraction : List Char
  exponent : Option Exponent
deriving DecidableEq

namespace Exponent

def value (e : Exponent) : Int :=
  if e.negative then -(Text.value e.digits : Int) else Text.value e.digits

/-- An exponent is written with its sign. -/
def chars (e : Exponent) : List Char := 'e' :: (if e.negative then '-' else '+') :: e.digits

end Exponent

/-- What a numeral stands for: a number below 2^64, its negative down to -2^63, or else a
floating-point number of double precision. -/
inductive Amount where
  | natural (n : Nat)
  | negative (n : Nat)
  | real (negative : Bool) (magnitude : BinaryNumber)
  /-- Beyond the greatest number of double precision. -/
  | outOfRange
deriving DecidableEq

/-- Numbers of so many places left or right of the decimal point are beyond the greatest number of
each format, or round to zero. -/
def placeLimit : Int := 400

/-- The number of a format nearest to `digits * 10 ^ e`; `none` where that is beyond the greatest. -/
def BinaryFormat.nearest? (f : BinaryFormat) (digits : List Char) (e : Int) : Option BinaryNumber :=
  let position : Int := (digits.dropWhile (· == '0')).length + e
  if Text.value digits = 0 || position < -placeLimit then some f.zero
  else if position > placeLimit then none
  else
    let (p, q) := powerRatio 10 e
    f.round? (Text.value digits * p) q

namespace Numeral

def ofNat (n : Nat) : Numeral := ⟨false, Text.decimal n, [], none⟩

def chars (n : Numeral) : List Char :=
  (if n.negative then ['-'] else []) ++ n.whole ++
    (if n.fraction.isEmpty then [] else '.' :: n.fraction) ++
    (n.exponent.map (·.chars)).getD []

/-- The number of a format nearest to the absolute value of a numeral. -/
def magnitude? (f : BinaryFormat) (n : Numeral) : Option BinaryNumber :=
  f.nearest? (n.whole ++ n.fraction) ((n.exponent.map (·.value)).getD 0 - n.fraction.length)

/-- Takes up digits as long as the number stays below the limit, and counts those taken. -/
def absorb (sum : Nat) : List Char → Nat × Nat
  | [] => (sum, 0)
  | c :: cs =>
    let next := sum * 10 + (c.toNat - '0'.toNat)
    if next < Text.numberLimit then
      let (total, count) := absorb next cs
      (total, count + 1)
    else (sum, 0)

/-- The greatest power of ten of double precision. -/
def greatestPower : Nat := 308

def powerOfTen (n : Nat) : BinaryNumber := (double.round? (Nat.pow 10 n) 1).getD double.zero

/-- `d * 10 ^ e` in steps that are each rounded; three steps down reach zero. -/
def scale (d : BinaryNumber) (e : Int) : Nat → Option BinaryNumber
  | 0 => some double.zero
  | fuel + 1 =>
    if e.natAbs ≤ greatestPower then
      if e ≥ 0 then double.mul? d (powerOfTen e.natAbs) else double.div? d (powerOfTen e.natAbs)
    else if d.isZero then some d
    else if e ≥ 0 then none
    else match double.div? d (powerOfTen greatestPower) with
      | none => none
      | some d => scale d (e + greatestPower) fuel

/-- The number by its leading digits below the limit; the digits dropped only move the exponent. -/
def real (n : Numeral) : Amount :=
  let (head, taken) := absorb 0 n.whole
  let (sum, places) := absorb head n.fraction
  let e : Int :=
    (n.whole.length - taken : Nat) - (places : Int) + (n.exponent.map (·.value)).getD 0
  match double.round? sum 1 with
  | none => .outOfRange
  | some d =>
    match scale d e 4 with
    | none => .outOfRange
    | some d => .real n.negative d

def amount (n : Numeral) : Amount :=
  let whole := Text.value n.whole
  if n.fraction.isEmpty && n.exponent.isNone && whole < Text.numberLimit then
    if !n.negative then .natural whole
    else if 0 < whole ∧ whole ≤ 0x8000000000000000 then .negative whole
    else n.real
  else n.real

end Numeral
end DependencyAudit.Decimal
