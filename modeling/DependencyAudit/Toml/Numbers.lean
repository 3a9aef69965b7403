import DependencyAudit.Decimal.Numeral
import DependencyAudit.Timestamp
import DependencyAudit.Toml.Basic
import DependencyAudit.Toml.Strings

/-! Numbers and dates of TOML. Of floats and dates only the form is checked. -/
namespace DependencyAudit.Toml

def isHexDigit (c : Char) : Bool := (hexValue? c).isSome

def isOctalDigit (c : Char) : Bool := '0' ≤ c && c ≤ '7'

def isBinaryDigit (c : Char) : Bool := c == '0' || c == '1'

/-- Digits, with single underscores between them. -/
def digitRun (isDigit : Char → Bool) : Reader (List Char)
  | [] => none
  | c :: cs =>
    if isDigit c then
      match cs with
      | '_' :: d :: more =>
        if isDigit d then add c (digitRun isDigit (d :: more)) else some ([c], cs)
      | d :: more => if isDigit d then add c (digitRun isDigit (d :: more)) else some ([c], cs)
      | [] => some ([c], [])
    else none

def greatestInteger : Int := 0x7fffffffffffffff

def leastInteger : Int := -0x8000000000000000

def inRange (n : Int) : Bool := leastInteger ≤ n && n ≤ greatestInteger

def based (base : Nat) (digits : List Char) : Nat :=
  digits.foldl (fun n c => base * n + (hexValue? c).getD 0) 0

def basedInteger? (base : Nat) (isDigit : Char → Bool) : Reader Node := fun cs => do
  let (digits, rest) ← digitRun isDigit cs
  let n := based base digits
  if inRange n then some (.integer n, rest) else none

/-- The sign and the digits of a decimal number, without needless zeros. -/
def signedWhole : Reader (Bool × List Char) := fun cs => do
  let (negative, cs) := match cs with
    | '+' :: cs => (false, cs)
    | '-' :: cs => (true, cs)
    | cs => (false, cs)
  let (digits, rest) ← digitRun Char.isDigit cs
  if digits.head? == some '0' && digits.length > 1 then none else some ((negative, digits), rest)

def integer : Reader Node
  | '0' :: 'x' :: cs => basedInteger? 16 isHexDigit cs
  | '0' :: 'o' :: cs => basedInteger? 8 isOctalDigit cs
  | '0' :: 'b' :: cs => basedInteger? 2 isBinaryDigit cs
  | cs => do
    let ((negative, digits), rest) ← signedWhole cs
    let n : Int := if negative then -(Text.value digits) else Text.value digits
    if inRange n then some (.integer n, rest) else none

def fraction? : Reader (List Char)
  | '.' :: cs => digitRun Char.isDigit cs
  | _ => none

def exponent? : Reader Decimal.Exponent
  | e :: cs =>
    if e = 'e' ∨ e = 'E' then do
      let (negative, cs) := match cs with
        | '+' :: cs => (false, cs)
        | '-' :: cs => (true, cs)
        | cs => (false, cs)
      let (digits, rest) ← digitRun Char.isDigit cs
      some (⟨negative, digits⟩, rest)
    else none
  | [] => none

/-- A fraction or an exponent makes a float; a positive one must not round to infinity. -/
def float : Reader Node := fun cs => do
  let ((negative, whole), cs) ← signedWhole cs
  let (fraction, cs) := (fraction? cs).getD ([], cs)
  let (exponent, rest) := match exponent? cs with
    | some (e, rest) => (some e, rest)
    | none => (none, cs)
  if fraction.isEmpty && exponent.isNone then none
  else match (Decimal.Numeral.mk negative whole fraction exponent).magnitude? Decimal.double with
    | none => if negative then some (.float, rest) else none
    | some _ => some (.float, rest)

def specialFloat : Reader Node := fun cs =>
  let cs := match cs with
    | '+' :: cs => cs
    | '-' :: cs => cs
    | cs => cs
  match cs with
  | 'i' :: 'n' :: 'f' :: rest => some (.float, rest)
  | 'n' :: 'a' :: 'n' :: rest => some (.float, rest)
  | _ => none

def fixedDigits (count : Nat) : Reader Nat := fun cs =>
  let digits := cs.take count
  if digits.length = count && digits.all Char.isDigit then
    some (Text.value digits, cs.drop count)
  else none

def expect (c : Char) : Reader Unit
  | d :: cs => if c = d then some ((), cs) else none
  | [] => none

def fullDate : Reader Unit := fun cs => do
  let (year, cs) ← fixedDigits 4 cs
  let (_, cs) ← expect '-' cs
  let (month, cs) ← fixedDigits 2 cs
  let (_, cs) ← expect '-' cs
  let (day, cs) ← fixedDigits 2 cs
  if (Date.mk year month day).isValid then some ((), cs) else none

def secondFraction : List Char → Option (List Char)
  | '.' :: cs =>
    if (cs.takeWhile Char.isDigit).isEmpty then none else some (cs.dropWhile Char.isDigit)
  | cs => some cs

def partialTime : Reader Unit := fun cs => do
  let (hour, cs) ← fixedDigits 2 cs
  let (_, cs) ← expect ':' cs
  let (minute, cs) ← fixedDigits 2 cs
  let (_, cs) ← expect ':' cs
  let (second, cs) ← fixedDigits 2 cs
  let cs ← secondFraction cs
  if hour ≤ 23 ∧ minute ≤ 59 ∧ second ≤ 60 then some ((), cs) else none

def offset (cs : List Char) : Option (List Char) :=
  match cs with
  | 'Z' :: cs => some cs
  | 'z' :: cs => some cs
  | c :: rest =>
    if c = '+' ∨ c = '-' then do
      let (hour, rest) ← fixedDigits 2 rest
      let (_, rest) ← expect ':' rest
      let (minute, rest) ← fixedDigits 2 rest
      if hour ≤ 23 ∧ minute ≤ 59 then some rest else none
    else some cs
  | [] => some []

/-- A date, a time, or both with or without an offset. -/
def dateTime : Reader Node := fun cs =>
  match fullDate cs with
  | some (_, rest) =>
    match rest with
    | c :: more =>
      if c = 'T' ∨ c = 't' ∨ c = ' ' then
        match partialTime more with
        | some (_, rest) => (offset rest).map (.dateTime, ·)
        | none => if c = ' ' then some (.dateTime, rest) else none
      else some (.dateTime, rest)
    | [] => some (.dateTime, [])
  | none => (partialTime cs).map fun (_, rest) => (.dateTime, rest)

def number : Reader Node := fun cs =>
  dateTime cs <|> float cs <|> specialFloat cs <|> integer cs

end DependencyAudit.Toml
