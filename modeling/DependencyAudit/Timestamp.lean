import DependencyAudit.Json.Decoder
import DependencyAudit.Text.Blank

/-! Points in time, their RFC 3339 text, and the time between two of them. -/
namespace DependencyAudit

/-- A day of the proleptic Gregorian calendar. -/
structure Date where
  year : Int
  month : Nat
  day : Nat
deriving DecidableEq

namespace Date

def isLeap (year : Int) : Bool := year % 4 == 0 && (year % 100 != 0 || year % 400 == 0)

def daysIn (year : Int) (month : Nat) : Nat :=
  if month = 2 then if isLeap year then 29 else 28
  else if month = 4 ∨ month = 6 ∨ month = 9 ∨ month = 11 then 30
  else 31

def firstYear : Int := -262143

def lastYear : Int := 262142

def isValid (d : Date) : Bool :=
  firstYear ≤ d.year && d.year ≤ lastYear && 1 ≤ d.month && d.month ≤ 12 && 1 ≤ d.day &&
    d.day ≤ daysIn d.year d.month

def next (d : Date) : Date :=
  if d.day < daysIn d.year d.month then { d with day := d.day + 1 }
  else if d.month < 12 then ⟨d.year, d.month + 1, 1⟩
  else ⟨d.year + 1, 1, 1⟩

def previous (d : Date) : Date :=
  if d.day > 1 then { d with day := d.day - 1 }
  else if d.month > 1 then ⟨d.year, d.month - 1, daysIn d.year (d.month - 1)⟩
  else ⟨d.year - 1, 12, 31⟩

/-- The days of a year before a month. -/
def daysBefore (year : Int) : Nat → Nat
  | 0 => 0
  | month + 1 => (if month = 0 then 0 else daysBefore year month + daysIn year month)

/-- The days since the first day of the year zero. -/
def number (d : Date) : Int :=
  let y := d.year - 1
  365 * d.year + (y / 4 - y / 100 + y / 400 + 1) + daysBefore d.year d.month + (d.day - 1 : Nat)

end Date

/-- Coordinated universal time: a day, a second of it, and nanoseconds, which go past a thousand
million within a leap second. -/
structure Timestamp where
  date : Date
  second : Nat
  nano : Nat
deriving DecidableEq

inductive TimestampFault where
  | outOfRange
  | impossible
  | tooShort
  | invalid
  | trailing
deriving DecidableEq

def TimestampFault.message : TimestampFault → String
  | .outOfRange => "input is out of range"
  | .impossible => "no possible date and time matching input"
  | .tooShort => "premature end of input"
  | .invalid => "input contains invalid characters"
  | .trailing => "trailing input"

namespace Timestamp

def secondsPerDay : Nat := 86400

def nanosPerSecond : Nat := 1000000000

/-- A day within the range and a second of it; only the last second of a minute can be a leap
second. -/
def IsValid (t : Timestamp) : Prop :=
  t.date.isValid = true ∧ t.second < secondsPerDay ∧ t.nano < 2 * nanosPerSecond ∧
    (nanosPerSecond ≤ t.nano → t.second % 60 = 59)

instance (t : Timestamp) : Decidable t.IsValid :=
  inferInstanceAs (Decidable (_ ∧ _ ∧ _ ∧ (_ → _)))

/-- The nanoseconds from `earlier` to `later`. A leap second between the two times of day counts. -/
def since (earlier later : Timestamp) : Int :=
  let days := later.date.number - earlier.date.number
  let seconds : Int := later.second - earlier.second
  let leap : Int :=
    if later.second > earlier.second ∧ earlier.nano ≥ nanosPerSecond then 1
    else if later.second < earlier.second ∧ later.nano ≥ nanosPerSecond then -1
    else 0
  (days * secondsPerDay + seconds + leap) * nanosPerSecond + (later.nano - earlier.nano : Int)

/-- So many seconds later, or earlier when the number is negative. -/
def plus (t : Timestamp) (seconds : Int) : Timestamp :=
  let total : Int := t.second + seconds
  let days := total / secondsPerDay
  let date :=
    if days ≥ 0 then days.toNat.repeat Date.next t.date else (-days).toNat.repeat Date.previous t.date
  { t with date := date, second := (total % secondsPerDay).toNat }

/-- A number in at least `width` digits. -/
def padded (width n : Nat) : List Char :=
  let cs := Text.decimal n
  List.replicate (width - cs.length) '0' ++ cs

/-- Years of other than four digits carry a sign. -/
def yearChars (y : Int) : List Char :=
  if 0 ≤ y ∧ y ≤ 9999 then padded 4 y.toNat
  else (if y < 0 then '-' else '+') :: padded 4 y.natAbs

/-- None, three, six or nine digits, the fewest that lose nothing. -/
def fractionChars (nano : Nat) : List Char :=
  if nano = 0 then []
  else if nano % 1000000 = 0 then '.' :: padded 3 (nano / 1000000)
  else if nano % 1000 = 0 then '.' :: padded 6 (nano / 1000)
  else '.' :: padded 9 nano

def chars (t : Timestamp) : List Char :=
  let leap := t.nano / nanosPerSecond
  yearChars t.date.year ++ '-' :: padded 2 t.date.month ++ '-' :: padded 2 t.date.day ++
    'T' :: padded 2 (t.second / 3600) ++ ':' :: padded 2 (t.second / 60 % 60) ++
    ':' :: padded 2 (t.second % 60 + leap) ++ fractionChars (t.nano % nanosPerSecond) ++ ['Z']

def text (t : Timestamp) : String := String.ofList t.chars

abbrev Step := Except TimestampFault

/-- At least one and at most `width` digits. -/
def digits (width : Nat) (cs : List Char) : Step (Nat × List Char) :=
  match cs with
  | [] => .error .tooShort
  | c :: _ =>
    if !c.isDigit then .error .invalid
    else
      let ds := (cs.takeWhile Char.isDigit).take width
      .ok (Text.value ds, cs.drop ds.length)

/-- A number after blanks, within bounds. -/
def field (low high : Nat) (cs : List Char) : Step (Nat × List Char) := do
  let (n, cs) ← digits 2 (Text.trimStart cs)
  if low ≤ n ∧ n ≤ high then return (n, cs) else throw .outOfRange

def signedYearLimit : Nat := 0x80000000

/-- Four digits, or after a sign any number of them. -/
def year (cs : List Char) : Step (Int × List Char) := do
  match Text.trimStart cs with
  | '-' :: cs =>
    let (n, cs) ← digits cs.length cs
    if n ≤ signedYearLimit then return (-(n : Int), cs) else throw .outOfRange
  | '+' :: cs =>
    let (n, cs) ← digits cs.length cs
    if n < signedYearLimit then return ((n : Int), cs) else throw .outOfRange
  | cs =>
    let (n, cs) ← digits 4 cs
    return ((n : Int), cs)

/-- A mark after blanks. -/
def mark (c : Char) (cs : List Char) : Step (List Char) :=
  match Text.trimStart cs with
  | [] => .error .tooShort
  | d :: cs => if c = d then .ok cs else .error .invalid

/-- Digits past the ninth are dropped. -/
def nanos (cs : List Char) : Step (Nat × List Char) :=
  match cs with
  | '.' :: cs => do
    let (n, rest) ← digits 9 cs
    let used := cs.length - rest.length
    return (n * Nat.pow 10 (9 - used), rest.dropWhile Char.isDigit)
  | cs => .ok (0, cs)

def byteLength (cs : List Char) : Nat := (String.ofList cs).utf8ByteSize

/-- Two digits, the first at most `tens`; a greater one is out of range. -/
def twoDigits (tens : Nat) (cs : List Char) : Step (Nat × List Char) :=
  match cs with
  | a :: b :: rest =>
    if a.isDigit ∧ b.isDigit then
      if a.toNat - '0'.toNat ≤ tens then .ok (Text.value [a, b], rest) else .error .outOfRange
    else .error .invalid
  | cs => if byteLength cs < 2 then .error .tooShort else .error .invalid

def isOffsetSeparator (c : Char) : Bool := c == ':' || Text.isBlank c

/-- The seconds east of universal time. -/
def offset (cs : List Char) : Step (Int × List Char) :=
  let signed (east : Bool) (cs : List Char) : Step (Int × List Char) := do
    let (hours, cs) ← twoDigits 9 cs
    let (minutes, cs) ← twoDigits 5 (cs.dropWhile isOffsetSeparator)
    let seconds : Int := hours * 3600 + minutes * 60
    return (if east then seconds else -seconds, cs)
  match cs with
  | [] => .error .tooShort
  | c :: rest =>
    if (cs.take 3).map Char.toUpper = ['U', 'T', 'C'] then .ok (0, cs.drop 3)
    else if c = 'Z' ∨ c = 'z' then .ok (0, rest)
    else if c = '+' then signed true rest
    else if c = '-' ∨ c = '−' then signed false rest
    else .error .invalid

def dateTimeGap (cs : List Char) : Step (List Char) :=
  match cs with
  | [] => .error .tooShort
  | c :: cs => if c = 'T' ∨ c = 't' ∨ c = ' ' then .ok cs else .error .invalid

/-- The same point in time on the universal clock. -/
def fromOffset (date : Date) (second nano : Nat) (east : Int) : Step Timestamp :=
  if !date.isValid then .error .outOfRange
  else if east.natAbs ≥ secondsPerDay then .error .outOfRange
  else
    let t := (Timestamp.mk date second nano).plus (-east)
    if t.date.isValid then .ok t else .error .impossible

def ofChars (cs : List Char) : Step Timestamp := do
  let (year, cs) ← year cs
  let (month, cs) ← field 1 12 (← mark '-' cs)
  let (day, cs) ← field 1 31 (← mark '-' cs)
  let (hour, cs) ← field 0 23 (← dateTimeGap cs)
  let (minute, cs) ← field 0 59 (← mark ':' cs)
  let (second, cs) ← field 0 60 (← mark ':' cs)
  let (nano, cs) ← nanos cs
  let (east, cs) ← offset (Text.trimStart cs)
  if !(Text.trimStart cs).isEmpty then throw .trailing
  let leap := second / 60
  fromOffset ⟨year, month, day⟩ (hour * 3600 + minute * 60 + (second - leap))
    (nano + leap * nanosPerSecond) east

def ofText (s : String) : Step Timestamp := ofChars s.toList

def decoder : Decoder Timestamp := fun _ j =>
  match j with
  | .string s => do
    match ofText (← s.read) with
    | .ok t => return t
    | .error fault => throw (.invalidText fault.message)
  | j => Decoder.mismatch "an RFC 3339 formatted date and time string" j

def toJson (t : Timestamp) : Json := .ofString t.text

end Timestamp
end DependencyAudit
