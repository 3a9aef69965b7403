import DependencyAudit.Json.Decoder

/-! Scores: numbers of single precision. -/
namespace DependencyAudit

/-- The bits: sign, eight bits of exponent, twenty-three bits of fraction. -/
structure Score where
  bits : UInt32
deriving DecidableEq

namespace Score

open Decimal

/-- The bit of the sign, above all others. -/
def signBit : Nat := 0x80000000

/-- The bit above those of the fraction: the first bit of a number that has all of them. -/
def firstBit : Nat := 0x800000

def ofBits (negative : Bool) (magnitude : Nat) : Score :=
  ⟨UInt32.ofNat ((if negative then signBit else 0) + magnitude)⟩

def isNegative (s : Score) : Bool := s.bits.toNat ≥ signBit

/-- The bits without the sign; those of numbers are ordered as the numbers are. -/
def magnitude (s : Score) : Nat := s.bits.toNat % signBit

def infinity : Nat := 255 * firstBit

def isFinite (s : Score) : Bool := s.magnitude < infinity

def zero : Score := ⟨0⟩

/-- A number with all its bits of precision in use carries its first bit only in the exponent. -/
def magnitudeOf (d : BinaryNumber) : Nat :=
  if d.mantissa < firstBit then d.mantissa
  else (d.place + 150).toNat * firstBit + (d.mantissa - firstBit)

/-- The nearest score, infinite beyond the greatest number. -/
def round (negative : Bool) (num den : Nat) : Score :=
  match single.round? num den with
  | some d => ofBits negative (magnitudeOf d)
  | none => ofBits negative infinity

def number (s : Score) : BinaryNumber :=
  let field : Nat := s.magnitude / firstBit
  let fraction := s.magnitude % firstBit
  if field = 0 then ⟨fraction, -149⟩ else ⟨firstBit + fraction, (field : Int) - 150⟩

/-- Whether the score is a number of at least `limit`, a positive score given by its bits. -/
def atLeast (s : Score) (limit : Nat) : Bool :=
  !s.isNegative && limit ≤ s.magnitude && s.magnitude ≤ infinity

def ofAmount? : Amount → Option Score
  | .natural n => some (round false n 1)
  | .negative n => some (round true n 1)
  | .real negative d => some (round negative d.numerator d.denominator)
  | .outOfRange => none

def numeral (s : Score) : Numeral := Decimal.numeral single singleLayout s.isNegative s.number

/-- A score that is no finite number has no text. -/
def toJson (s : Score) : Json := if s.isFinite then .number s.numeral else .null

def decoder : Decoder Score := fun _ j =>
  match j with
  | .number n =>
    match ofAmount? n.amount with
    | some s => .ok s
    | none => .error .malformed
  | j => Decoder.mismatch "f32" j

end Score
end DependencyAudit
