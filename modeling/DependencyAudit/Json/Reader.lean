import DependencyAudit.Json.Basic

/-! Reading JSON text. -/
namespace DependencyAudit.Json.Reader

def isSpace (c : Char) : Bool := c == ' ' || c == '\t' || c == '\n' || c == '\r'

def skipSpace (cs : List Char) : List Char := cs.dropWhile isSpace

def hexValue? (c : Char) : Option Nat :=
  if '0' ≤ c ∧ c ≤ '9' then some (c.toNat - '0'.toNat)
  else if 'a' ≤ c ∧ c ≤ 'f' then some (c.toNat - 'a'.toNat + 10)
  else if 'A' ≤ c ∧ c ≤ 'F' then some (c.toNat - 'A'.toNat + 10)
  else none

def hexUnit? (a b c d : Char) : Option Nat := do
  return (((← hexValue? a) * 16 + (← hexValue? b)) * 16 + (← hexValue? c)) * 16 + (← hexValue? d)

def unitPart (unit : Nat) : StringPart :=
  if RawString.isHigh unit || RawString.isLow unit then .half unit else .char (Char.ofNat unit)

def simpleEscape? (c : Char) : Option Char :=
  match c with
  | '"' => some '"'
  | '\\' => some '\\'
  | '/' => some '/'
  | 'b' => some '\x08'
  | 'f' => some '\x0c'
  | 'n' => some '\n'
  | 'r' => some '\r'
  | 't' => some '\t'
  | _ => none

/-- Fewer than four bytes are left for the digits of an escape. -/
def isShort (cs : List Char) : Bool := (String.ofList cs).utf8ByteSize < 4

def addPart (p : StringPart) (r : RawString × List Char) : RawString × List Char :=
  (⟨p :: r.1.parts, r.1.flaw⟩, r.2)

/-- The string after an opening quote, and the text after its closing quote. -/
def string : List Char → RawString × List Char
  | [] => (⟨[], some .ended⟩, [])
  | '"' :: cs => (⟨[], none⟩, cs)
  | ['\\'] => (⟨[], some .ended⟩, [])
  | '\\' :: 'u' :: a :: b :: c :: d :: cs =>
    match hexUnit? a b c d with
    | some unit => addPart (unitPart unit) (string cs)
    | none =>
      (⟨[], some (if isShort (a :: b :: c :: d :: cs) then .ended else .malformed)⟩, [])
  | '\\' :: 'u' :: cs => (⟨[], some (if isShort cs then .ended else .malformed)⟩, [])
  | '\\' :: c :: cs =>
    match simpleEscape? c with
    | some e => addPart (.char e) (string cs)
    | none => (⟨[], some .malformed⟩, [])
  | c :: cs =>
    if c.toNat < 0x20 then (⟨[], some .malformed⟩, []) else addPart (.char c) (string cs)

/-- The flaw of a numeral that lacks digits where `cs` goes on. -/
def noDigits (cs : List Char) : Flaw := if cs.isEmpty then .cutNumeral else .malformed

def exponent (cs : List Char) : Except Flaw (Option Decimal.Exponent × List Char) :=
  match cs with
  | e :: cs =>
    if e = 'e' ∨ e = 'E' then
      let (negative, cs) := match cs with
        | '+' :: cs => (false, cs)
        | '-' :: cs => (true, cs)
        | cs => (false, cs)
      let digits := cs.takeWhile Char.isDigit
      let rest := cs.dropWhile Char.isDigit
      if digits.isEmpty then .error (noDigits rest) else .ok (some ⟨negative, digits⟩, rest)
    else .ok (none, e :: cs)
  | [] => .ok (none, [])

def fraction (cs : List Char) : Except Flaw (List Char × List Char) :=
  match cs with
  | '.' :: cs =>
    let digits := cs.takeWhile Char.isDigit
    let rest := cs.dropWhile Char.isDigit
    if digits.isEmpty then .error (noDigits rest) else .ok (digits, rest)
  | cs => .ok ([], cs)

/-- The digits before a point: a single zero, or digits that start with none. -/
def whole (cs : List Char) : Except Flaw (List Char × List Char) :=
  let digits := cs.takeWhile Char.isDigit
  let rest := cs.dropWhile Char.isDigit
  if digits.isEmpty then .error (noDigits rest)
  else if digits.head? == some '0' && digits.length > 1 then .error .malformed
  else .ok (digits, rest)

def numeral (negative : Bool) (cs : List Char) : Except Flaw (Decimal.Numeral × List Char) := do
  let (whole, cs) ← whole cs
  let (fraction, cs) ← fraction cs
  let (exponent, cs) ← exponent cs
  return (⟨negative, whole, fraction, exponent⟩, cs)

def number (negative : Bool) (cs : List Char) : Json × List Char :=
  match numeral negative cs with
  | .ok (n, rest) => (.number n, rest)
  | .error f => (.flawed f, [])

/-- `result`, where the text goes on with the letters of its name. -/
def literal (result : Json) : List Char → List Char → Json × List Char
  | [], cs => (result, cs)
  | _ :: _, [] => (.flawed .ended, [])
  | w :: ws, c :: cs => if w = c then literal result ws cs else (.flawed .malformed, [])

mutual

def value : Nat → List Char → Json × List Char
  | 0, _ => (.flawed .ended, [])
  | fuel + 1, cs =>
    match skipSpace cs with
    | [] => (.flawed .ended, [])
    | c :: cs =>
      match c with
      | 'n' => literal .null ['u', 'l', 'l'] cs
      | 't' => literal (.bool true) ['r', 'u', 'e'] cs
      | 'f' => literal (.bool false) ['a', 'l', 's', 'e'] cs
      | '"' =>
        let (s, rest) := string cs
        (.string s, rest)
      | '[' =>
        let (is, rest) := items fuel true cs
        (.array is, rest)
      | '{' =>
        let (ms, rest) := members fuel true cs
        (.object ms, rest)
      | '-' => number true cs
      | c => if c.isDigit then number false (c :: cs) else (.flawed .malformed, [])

/-- The items up to the closing bracket; `first` while none has been read. -/
def items : Nat → Bool → List Char → Items × List Char
  | 0, _, _ => (.flawed .ended, [])
  | fuel + 1, first, cs =>
    match skipSpace cs with
    | [] => (.flawed .ended, [])
    | c :: cs =>
      if c = ']' then (.closed, cs)
      else if first ∨ c = ',' then
        let (head, rest) := value fuel (if first then c :: cs else cs)
        let (more, rest) := items fuel false rest
        (.item head more, rest)
      else (.flawed .malformed, [])

/-- The members up to the closing brace; `first` while none has been read. -/
def members : Nat → Bool → List Char → Members × List Char
  | 0, _, _ => (.flawed .ended, [])
  | fuel + 1, first, cs =>
    match skipSpace cs with
    | [] => (.flawed .ended, [])
    | c :: cs =>
      if c = '}' then (.closed, cs)
      else if first ∨ c = ',' then
        match skipSpace (if first then c :: cs else cs) with
        | [] => (.flawed .ended, [])
        | '"' :: cs =>
          let (key, rest) := string cs
          match skipSpace rest with
          | ':' :: rest =>
            let (v, rest) := value fuel rest
            let (more, rest) := members fuel false rest
            (.member key v more, rest)
          | [] => (.member key (.flawed .ended) .closed, [])
          | _ :: _ => (.member key (.flawed .malformed) .closed, [])
        | _ :: _ => (.flawed .malformed, [])
      else (.flawed .malformed, [])

end

/-- A value, and whether something other than space follows it. Every step of the reading takes at
least one character, or is the first of a list. -/
def document (s : String) : Json × Bool :=
  let cs := s.toList
  let (v, rest) := value (2 * cs.length + 2) cs
  (v, !(skipSpace rest).isEmpty)

end DependencyAudit.Json.Reader
