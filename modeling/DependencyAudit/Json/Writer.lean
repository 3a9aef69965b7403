import DependencyAudit.Json.Basic

/-! Writing JSON: compact, or with one item a line and two spaces a level. Characters other than
quotes, backslashes and controls are written as they are. -/
namespace DependencyAudit.Json

def hexDigit (n : Nat) : Char := Nat.digitChar n

def escaped (c : Char) : List Char :=
  match c with
  | '"' => ['\\', '"']
  | '\\' => ['\\', '\\']
  | '\x08' => ['\\', 'b']
  | '\x0c' => ['\\', 'f']
  | '\n' => ['\\', 'n']
  | '\r' => ['\\', 'r']
  | '\t' => ['\\', 't']
  | c =>
    if c.toNat < 0x20 then
      ['\\', 'u', '0', '0', hexDigit (c.toNat / 16), hexDigit (c.toNat % 16)]
    else [c]

def unitDigits (unit : Nat) : List Char :=
  [hexDigit (unit / 4096 % 16), hexDigit (unit / 256 % 16), hexDigit (unit / 16 % 16),
    hexDigit (unit % 16)]

def partChars : StringPart → List Char
  | .char c => escaped c
  | .half unit => '\\' :: 'u' :: unitDigits unit

def stringChars (s : RawString) : List Char := '"' :: s.parts.flatMap partChars ++ ['"']

def literalChars : Bool → List Char
  | true => ['t', 'r', 'u', 'e']
  | false => ['f', 'a', 'l', 's', 'e']

mutual

def compactChars : Json → List Char
  | .null => ['n', 'u', 'l', 'l']
  | .bool b => literalChars b
  | .number n => n.chars
  | .string s => stringChars s
  | .array is => '[' :: compactItems true is
  | .object ms => '{' :: compactMembers true ms
  | .flawed _ => []

def compactItems (first : Bool) : Items → List Char
  | .closed => [']']
  | .flawed _ => []
  | .item head rest => (if first then [] else [',']) ++ compactChars head ++ compactItems false rest

def compactMembers (first : Bool) : Members → List Char
  | .closed => ['}']
  | .flawed _ => []
  | .member key v rest =>
    (if first then [] else [',']) ++ stringChars key ++ ':' :: compactChars v ++
      compactMembers false rest

end

def newline (level : Nat) : List Char := '\n' :: List.replicate (2 * level) ' '

mutual

/-- `level` is that of the line on which the value starts. -/
def prettyChars (level : Nat) : Json → List Char
  | .null => ['n', 'u', 'l', 'l']
  | .bool b => literalChars b
  | .number n => n.chars
  | .string s => stringChars s
  | .array is => '[' :: prettyItems level true is
  | .object ms => '{' :: prettyMembers level true ms
  | .flawed _ => []

def prettyItems (level : Nat) (first : Bool) : Items → List Char
  | .closed => (if first then [] else newline level) ++ [']']
  | .flawed _ => []
  | .item head rest =>
    (if first then [] else [',']) ++ newline (level + 1) ++ prettyChars (level + 1) head ++
      prettyItems level false rest

def prettyMembers (level : Nat) (first : Bool) : Members → List Char
  | .closed => (if first then [] else newline level) ++ ['}']
  | .flawed _ => []
  | .member key v rest =>
    (if first then [] else [',']) ++ newline (level + 1) ++ stringChars key ++ ':' :: ' ' ::
      prettyChars (level + 1) v ++ prettyMembers level false rest

end

def compact (j : Json) : String := String.ofList j.compactChars

def pretty (j : Json) : String := String.ofList (j.prettyChars 0)

end DependencyAudit.Json
