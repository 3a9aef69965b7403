import DependencyAudit.Decimal.Numeral
import DependencyAudit.Decimal.Shortest

/-! The shape in which a number is written: positional near one, with an exponent elsewhere. -/
namespace DependencyAudit.Decimal

/-- Positional where the decimal point stands after more than `lowest` and at most `highest`
digits. -/
structure Layout where
  lowest : Int
  highest : Int

def singleLayout : Layout := ⟨-6, 13⟩

def doubleLayout : Layout := ⟨-5, 16⟩

def zeros (n : Nat) : List Char := List.replicate n '0'

def dropZeros (cs : List Char) : List Char := (cs.reverse.dropWhile (· == '0')).reverse

/-- Digits with a point after the first, and a power of ten. -/
def scientific (negative : Bool) (cs : List Char) (e : Int) : Numeral :=
  ⟨negative, cs.take 1, cs.drop 1, some ⟨e < 0, Text.decimal e.natAbs⟩⟩

def Layout.numeral (l : Layout) (negative : Bool) (d : Digits) : Numeral :=
  let all := Text.decimal d.digits
  let point : Int := all.length + d.place
  let cs := dropZeros all
  if l.lowest < point ∧ point ≤ 0 then ⟨negative, ['0'], zeros (-point).toNat ++ cs, none⟩
  else if 0 < point ∧ point ≤ l.highest then
    let whole := point.toNat
    if cs.length ≤ whole then ⟨negative, cs ++ zeros (whole - cs.length), ['0'], none⟩
    else ⟨negative, cs.take whole, cs.drop whole, none⟩
  else scientific negative cs (point - 1)

/-- The shortest numeral of a number, zero included, always with a fraction or an exponent. -/
def numeral (f : BinaryFormat) (l : Layout) (negative : Bool) (d : BinaryNumber) : Numeral :=
  if d.isZero then ⟨negative, ['0'], ['0'], none⟩ else l.numeral negative (shortest f d)

end DependencyAudit.Decimal
