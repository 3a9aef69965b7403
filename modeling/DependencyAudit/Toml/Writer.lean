import DependencyAudit.Toml.Strings
import DependencyAudit.Text.Number

/-! Writing TOML text. Strings are written in the plainest kind that needs no escapes. -/
namespace DependencyAudit.Toml

/-- The longest run of a character. -/
def longestRun (c : Char) (current longest : Nat) : List Char → Nat
  | [] => max current longest
  | d :: cs =>
    if c = d then longestRun c (current + 1) longest cs
    else longestRun c 0 (max current longest) cs

/-- Controls that need an escape in every kind of string. -/
def needsEscape (c : Char) : Bool := isControl c && c != '\t' && c != '\n'

def upperHex (n : Nat) : Char := (Nat.digitChar n).toUpper

/-- `quotes` counts the quotes right before that are not escaped; `long` strings hold up to two in
a row, and line breaks. -/
def escapeFrom (long : Bool) (quotes : Nat) : List Char → List Char
  | [] => []
  | c :: cs =>
    match c with
    | '"' =>
      if quotes < (if long then 2 else 0) then '"' :: escapeFrom long (quotes + 1) cs
      else '\\' :: '"' :: escapeFrom long 0 cs
    | '\x08' => '\\' :: 'b' :: escapeFrom long 0 cs
    | '\t' => '\\' :: 't' :: escapeFrom long 0 cs
    | '\n' => (if long then ['\n'] else ['\\', 'n']) ++ escapeFrom long 0 cs
    | '\x0c' => '\\' :: 'f' :: escapeFrom long 0 cs
    | '\r' => '\\' :: 'r' :: escapeFrom long 0 cs
    | '\\' => '\\' :: '\\' :: escapeFrom long 0 cs
    | c =>
      if isControl c then
        ['\\', 'u', '0', '0', upperHex (c.toNat / 16), upperHex (c.toNat % 16)] ++
          escapeFrom long 0 cs
      else c :: escapeFrom long 0 cs

def basicChars (cs : List Char) : List Char := '"' :: escapeFrom false 0 cs ++ ['"']

/-- Three quotes on each side; a text with line breaks starts on a line of its own. -/
def longChars (quote : Char) (cs content : List Char) : List Char :=
  let marks := [quote, quote, quote]
  marks ++ (if cs.contains '\n' then ['\n'] else []) ++ content ++ marks

def stringChars (cs : List Char) : List Char :=
  let hidden := cs.any needsEscape
  let backslash := cs.contains '\\'
  let line := cs.contains '\n'
  let double := longestRun '"' 0 0 cs
  let single := longestRun '\'' 0 0 cs
  if !hidden && !backslash && double = 0 && !line then basicChars cs
  else if !hidden && single = 0 && !line then '\'' :: cs ++ ['\'']
  else if !hidden && !backslash && double ≤ 2 then longChars '"' cs (escapeFrom true 0 cs)
  else if !hidden && single ≤ 2 then longChars '\'' cs cs
  else if line then longChars '"' cs (escapeFrom true 0 cs)
  else basicChars cs

def boolChars : Bool → List Char
  | true => ['t', 'r', 'u', 'e']
  | false => ['f', 'a', 'l', 's', 'e']

/-- Two items or more stand on lines of their own. -/
def arrayChars (items : List (List Char)) : List Char :=
  match items with
  | [] => ['[', ']']
  | [item] => '[' :: item ++ [']']
  | items =>
    '[' :: '\n' :: items.flatMap (fun item => [' ', ' ', ' ', ' '] ++ item ++ [',', '\n']) ++ [']']

def pairChars (name : List Char) (value : List Char) : List Char :=
  name ++ [' ', '=', ' '] ++ value ++ ['\n']

def tableHeader (name : List Char) : List Char := ['\n', '['] ++ name ++ [']', '\n']

def elementHeader (name : List Char) : List Char := ['\n', '[', '['] ++ name ++ [']', ']', '\n']

end DependencyAudit.Toml
