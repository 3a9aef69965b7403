import DependencyAudit.Decimal.Numeral

/-! JSON values as they are read from a text. A text that is no JSON gives the value up to its first
flaw, which stands where it was met. -/
namespace DependencyAudit

/-- What stops the reading of a text. -/
inductive Flaw where
  /-- The text ends too early. -/
  | ended
  | malformed
  /-- The text ends inside a numeral. -/
  | cutNumeral
deriving DecidableEq

/-- A character of a string, or one half of an escaped surrogate pair. -/
inductive StringPart where
  | char (c : Char)
  | half (unit : Nat)
deriving DecidableEq

/-- The parts of a string up to its closing quote or its first flaw. -/
structure RawString where
  parts : List StringPart
  flaw : Option Flaw
deriving DecidableEq

mutual

inductive Json where
  | null
  | bool (b : Bool)
  | number (n : Decimal.Numeral)
  | string (s : RawString)
  | array (items : Items)
  | object (members : Members)
  | flawed (flaw : Flaw)

inductive Items where
  | closed
  | flawed (flaw : Flaw)
  | item (head : Json) (rest : Items)

inductive Members where
  | closed
  | flawed (flaw : Flaw)
  | member (key : RawString) (value : Json) (rest : Members)

end

namespace RawString

def ofString (s : String) : RawString := ⟨s.toList.map .char, none⟩

def isHigh (unit : Nat) : Bool := 0xD800 ≤ unit && unit ≤ 0xDBFF

def isLow (unit : Nat) : Bool := 0xDC00 ≤ unit && unit ≤ 0xDFFF

def pair (high low : Nat) : Char :=
  Char.ofNat (0x10000 + (high - 0xD800) * 0x400 + (low - 0xDC00))

/-- The characters, where every high half is followed by a low one. -/
def decode (flaw : Option Flaw) : List StringPart → Except Flaw (List Char)
  | [] => match flaw with
    | none => .ok []
    | some f => .error f
  | .char c :: rest => (decode flaw rest).map (c :: ·)
  | [.half unit] => .error (if isHigh unit && flaw == some .ended then .ended else .malformed)
  | .half _ :: .char _ :: _ => .error .malformed
  | .half high :: .half low :: rest =>
    if isHigh high && isLow low then (decode flaw rest).map (pair high low :: ·)
    else .error .malformed

def text (s : RawString) : Except Flaw String := (decode s.flaw s.parts).map String.ofList

theorem decode_map_char (cs : List Char) : decode none (cs.map .char) = .ok cs := by
  induction cs with
  | nil => rfl
  | cons c cs ih => simp [decode, ih, Except.map]

@[simp] theorem text_ofString (s : String) : (ofString s).text = .ok s := by
  simp [text, ofString, decode_map_char, Except.map]

end RawString

namespace Items

def ofList : List Json → Items
  | [] => .closed
  | j :: js => .item j (ofList js)

end Items

namespace Members

def ofList : List (String × Json) → Members
  | [] => .closed
  | (key, value) :: rest => .member (.ofString key) value (ofList rest)

end Members

namespace Json

def ofString (s : String) : Json := .string (.ofString s)

def ofNat (n : Nat) : Json := .number (.ofNat n)

def ofList (js : List Json) : Json := .array (.ofList js)

def record (fields : List (String × Json)) : Json := .object (.ofList fields)

/-- A field that is left out when there is nothing to write. -/
def optional (name : String) : Option Json → List (String × Json)
  | none => []
  | some j => [(name, j)]

end Json
end DependencyAudit
