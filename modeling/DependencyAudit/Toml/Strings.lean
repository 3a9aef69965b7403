/-! The four kinds of strings of TOML. A line break is read as a line feed. -/
namespace DependencyAudit.Toml

def isControl (c : Char) : Bool := c.toNat < 0x20 || c.toNat == 0x7F

/-- Characters that may stand in comments and in strings on one line. -/
def isPlain (c : Char) : Bool := c == '\t' || !isControl c

def isGap (c : Char) : Bool := c == ' ' || c == '\t'

abbrev Reader (α : Type) := List Char → Option (α × List Char)

def hexValue? (c : Char) : Option Nat :=
  if '0' ≤ c ∧ c ≤ '9' then some (c.toNat - '0'.toNat)
  else if 'a' ≤ c ∧ c ≤ 'f' then some (c.toNat - 'a'.toNat + 10)
  else if 'A' ≤ c ∧ c ≤ 'F' then some (c.toNat - 'A'.toNat + 10)
  else none

def hexNumber? (cs : List Char) : Option Nat :=
  cs.foldlM (fun n c => (hexValue? c).map (16 * n + ·)) 0

def scalar? (digits : List Char) : Option Char := do
  let n ← hexNumber? digits
  if Nat.isValidChar n then some (Char.ofNat n) else none

def simpleEscape? (c : Char) : Option Char :=
  match c with
  | 'b' => some '\x08'
  | 't' => some '\t'
  | 'n' => some '\n'
  | 'f' => some '\x0c'
  | 'r' => some '\r'
  | '"' => some '"'
  | '\\' => some '\\'
  | _ => none

def add (c : Char) (r : Option (List Char × List Char)) : Option (List Char × List Char) :=
  r.map fun (cs, rest) => (c :: cs, rest)

/-- A string in double quotes, after the opening one. -/
def basicString : Reader (List Char)
  | '"' :: cs => some ([], cs)
  | '\\' :: 'u' :: a :: b :: c :: d :: cs => do add (← scalar? [a, b, c, d]) (basicString cs)
  | '\\' :: 'U' :: a :: b :: c :: d :: e :: f :: g :: h :: cs => do
    add (← scalar? [a, b, c, d, e, f, g, h]) (basicString cs)
  | '\\' :: c :: cs => do add (← simpleEscape? c) (basicString cs)
  | c :: cs => if isPlain c && c != '\\' then add c (basicString cs) else none
  | [] => none

/-- A string in single quotes, after the opening one. -/
def literalString : Reader (List Char)
  | '\'' :: cs => some ([], cs)
  | c :: cs => if isPlain c then add c (literalString cs) else none
  | [] => none

/-- Only gaps stand before the end of the line. -/
def endsLine (cs : List Char) : Bool :=
  match cs.dropWhile isGap with
  | '\n' :: _ => true
  | '\r' :: '\n' :: _ => true
  | _ => false

/-- A string in three double quotes, after the opening ones. Up to two quotes may stand before the
closing ones; `joining` while gaps and line breaks after a backslash are passed over. -/
def longBasic (joining : Bool) : Reader (List Char)
  | '"' :: '"' :: '"' :: '"' :: '"' :: cs => some (['"', '"'], cs)
  | '"' :: '"' :: '"' :: '"' :: cs => some (['"'], cs)
  | '"' :: '"' :: '"' :: cs => some ([], cs)
  | '\\' :: 'u' :: a :: b :: c :: d :: cs => do add (← scalar? [a, b, c, d]) (longBasic false cs)
  | '\\' :: 'U' :: a :: b :: c :: d :: e :: f :: g :: h :: cs => do
    add (← scalar? [a, b, c, d, e, f, g, h]) (longBasic false cs)
  | '\\' :: c :: cs =>
    match simpleEscape? c with
    | some e => add e (longBasic false cs)
    | none => if (isGap c || c == '\n' || c == '\r') && endsLine (c :: cs) then
        longBasic true (c :: cs) else none
  | '\r' :: '\n' :: cs => if joining then longBasic true cs else add '\n' (longBasic false cs)
  | '\n' :: cs => if joining then longBasic true cs else add '\n' (longBasic false cs)
  | c :: cs =>
    if joining && isGap c then longBasic true cs
    else if isPlain c && c != '\\' then add c (longBasic false cs) else none
  | [] => none

/-- A string in three single quotes, after the opening ones. -/
def longLiteral : Reader (List Char)
  | '\'' :: '\'' :: '\'' :: '\'' :: '\'' :: cs => some (['\'', '\''], cs)
  | '\'' :: '\'' :: '\'' :: '\'' :: cs => some (['\''], cs)
  | '\'' :: '\'' :: '\'' :: cs => some ([], cs)
  | '\r' :: '\n' :: cs => add '\n' (longLiteral cs)
  | '\n' :: cs => add '\n' (longLiteral cs)
  | c :: cs => if isPlain c then add c (longLiteral cs) else none
  | [] => none

/-- A line break right after the opening quotes does not count. -/
def dropLineBreak : List Char → List Char
  | '\n' :: cs => cs
  | '\r' :: '\n' :: cs => cs
  | cs => cs

def string : Reader String := fun cs =>
  let found := match cs with
    | '"' :: '"' :: '"' :: cs => longBasic false (dropLineBreak cs)
    | '\'' :: '\'' :: '\'' :: cs => longLiteral (dropLineBreak cs)
    | '"' :: cs => basicString cs
    | '\'' :: cs => literalString cs
    | _ => none
  found.map fun (s, rest) => (String.ofList s, rest)

end DependencyAudit.Toml
