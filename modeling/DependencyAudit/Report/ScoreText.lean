import DependencyAudit.Report.Score
import DependencyAudit.Text.Split

/-! Scores written as text: decimal numerals, infinities, and the score that is no number. -/
namespace DependencyAudit.Score

open Decimal

/-- The positive score that is no number. -/
def quietNaN : Nat := infinity + 0x400000

/-- The score of `digits * 10 ^ e`, rounded once, infinite beyond the greatest number. -/
def ofDecimal (negative : Bool) (digits : List Char) (e : Int) : Score :=
  match single.nearest? digits e with
  | some d => ofBits negative (magnitudeOf d)
  | none => ofBits negative infinity

/-- The power of ten after its letter; there is no letter where there is none. -/
def exponent? : List Char → Option Int
  | [] => some 0
  | c :: cs =>
    if c != 'e' && c != 'E' then none
    else
      let (negative, digits) := match cs with
        | '-' :: digits => (true, digits)
        | '+' :: digits => (false, digits)
        | digits => (false, digits)
      if digits.isEmpty || !digits.all Char.isDigit then none
      else some (Exponent.value ⟨negative, digits⟩)

/-- Digits with a point before, within or after them, and at least one digit. -/
def decimal? (negative : Bool) (cs : List Char) : Option Score := do
  let whole := cs.takeWhile Char.isDigit
  let (fraction, rest) := match cs.dropWhile Char.isDigit with
    | '.' :: cs => (cs.takeWhile Char.isDigit, cs.dropWhile Char.isDigit)
    | cs => ([], cs)
  guard !(whole ++ fraction).isEmpty
  return ofDecimal negative (whole ++ fraction) ((← exponent? rest) - fraction.length)

/-- The words for what has no digits, in any case. -/
def word? (cs : List Char) : Option Nat :=
  let word := String.ofList (cs.map Char.toLower)
  if word = "inf" || word = "infinity" then some infinity
  else if word = "nan" then some quietNaN
  else none

def unsigned? (negative : Bool) (cs : List Char) : Option Score :=
  match word? cs with
  | some magnitude => some (ofBits negative magnitude)
  | none => decimal? negative cs

def ofText? (s : String) : Option Score :=
  match s.toList with
  | '-' :: cs => unsigned? true cs
  | '+' :: cs => unsigned? false cs
  | cs => unsigned? false cs

end DependencyAudit.Score
