import DependencyAudit.Toml.Numbers

/-! Reading TOML text. -/
namespace DependencyAudit.Toml

def skipGaps (cs : List Char) : List Char := cs.dropWhile isGap

/-- The text after a comment, up to its line break. -/
def comment (cs : List Char) : Option (List Char) :=
  match cs.dropWhile isPlain with
  | [] => some []
  | '\n' :: cs => some ('\n' :: cs)
  | '\r' :: '\n' :: cs => some ('\r' :: '\n' :: cs)
  | _ => none

/-- Gaps and perhaps a comment, and the end of the line or of the text. -/
def lineEnd (cs : List Char) : Option (List Char) := do
  let cs ← match skipGaps cs with
    | '#' :: cs => comment cs
    | cs => some cs
  match cs with
  | [] => some []
  | '\n' :: cs => some cs
  | '\r' :: '\n' :: cs => some cs
  | _ => none

/-- Gaps, line breaks and comments, as they may stand between the items of an array. -/
def skipLines : Nat → List Char → Option (List Char)
  | 0, _ => none
  | fuel + 1, cs =>
    match skipGaps cs with
    | '\n' :: cs => skipLines fuel cs
    | '\r' :: '\n' :: cs => skipLines fuel cs
    | '#' :: cs => comment cs >>= skipLines fuel
    | cs => some cs

def isBare (c : Char) : Bool := c.isAlphanum || c == '_' || c == '-'

def simpleKey : Reader String := fun cs =>
  match cs with
  | '"' :: cs => (basicString cs).map fun (s, rest) => (String.ofList s, rest)
  | '\'' :: cs => (literalString cs).map fun (s, rest) => (String.ofList s, rest)
  | cs =>
    let name := cs.takeWhile isBare
    if name.isEmpty then none else some (String.ofList name, cs.dropWhile isBare)

/-- Names joined by points; gaps may stand around each. -/
def dottedKey : Nat → Reader (List String)
  | 0, _ => none
  | fuel + 1, cs => do
    let (name, cs) ← simpleKey (skipGaps cs)
    match skipGaps cs with
    | '.' :: cs =>
      let (names, rest) ← dottedKey fuel cs
      return (name :: names, rest)
    | rest => return ([name], rest)

/-- Values and keys go less deep than this. -/
def depthLimit : Nat := 80

def key : Reader (List String) := dottedKey (depthLimit - 1)

def literal (n : Node) (name : List Char) : Reader Node := fun cs =>
  if name.isPrefixOf cs then some (n, cs.drop name.length) else none

mutual

/-- `depth` counts the arrays and tables in braces that the value may still hold. -/
def value : Nat → Nat → Reader Node
  | 0, _, _ => none
  | fuel + 1, depth, cs =>
    match cs with
    | [] => none
    | '[' :: cs =>
      match depth with
      | 0 => none
      | depth + 1 => (items fuel depth cs).map fun (is, rest) => (.array is, rest)
    | '{' :: cs =>
      match depth with
      | 0 => none
      | depth + 1 => do
        let (pairs, rest) ← match skipGaps cs with
          | '}' :: rest => some ([], rest)
          | cs => inlinePairs fuel depth cs
        return (.table .inline (← addPairs pairs []), rest)
    | 't' :: _ => literal (.bool true) ['t', 'r', 'u', 'e'] cs
    | 'f' :: _ => literal (.bool false) ['f', 'a', 'l', 's', 'e'] cs
    | '"' :: _ => (string cs).map fun (s, rest) => (.string s, rest)
    | '\'' :: _ => (string cs).map fun (s, rest) => (.string s, rest)
    | _ => number cs

/-- The items of an array and its closing bracket; the last may have a comma after it. -/
def items : Nat → Nat → Reader (List Node)
  | 0, _, _ => none
  | fuel + 1, depth, cs => do
    match ← skipLines (cs.length + 1) cs with
    | ']' :: rest => return ([], rest)
    | cs =>
      let (head, cs) ← value fuel depth cs
      match ← skipLines (cs.length + 1) cs with
      | ',' :: cs =>
        let (more, rest) ← items fuel depth cs
        return (head :: more, rest)
      | ']' :: rest => return ([head], rest)
      | _ => none

/-- The pairs of a table in braces, on one line, and its closing brace. -/
def inlinePairs : Nat → Nat → Reader (List Pair)
  | 0, _, _ => none
  | fuel + 1, depth, cs => do
    let (name, cs) ← key cs
    match skipGaps cs with
    | '=' :: cs =>
      let (v, cs) ← value fuel depth (skipGaps cs)
      match skipGaps cs with
      | ',' :: cs =>
        let (more, rest) ← inlinePairs fuel depth cs
        return ((name, v) :: more, rest)
      | '}' :: rest => return ([(name, v)], rest)
      | _ => none
    | _ => none

end

/-- A line of a document. -/
inductive Line where
  | pair (p : Pair)
  | header (path : List String) (isElement : Bool)

/-- A pair, up to the end of its last line. -/
def pairLine (cs : List Char) : Option (Line × List Char) := do
  let (name, cs) ← key cs
  match skipGaps cs with
  | '=' :: cs =>
    let (v, cs) ← value (2 * cs.length + 2) (depthLimit - 1) (skipGaps cs)
    return (.pair (name, v), ← lineEnd cs)
  | _ => none

def headerLine (cs : List Char) : Option (Line × List Char) :=
  match cs with
  | '[' :: '[' :: cs => do
    let (path, cs) ← key cs
    match cs with
    | ']' :: ']' :: cs => return (.header path true, ← lineEnd cs)
    | _ => none
  | '[' :: cs => do
    let (path, cs) ← key cs
    match cs with
    | ']' :: cs => return (.header path false, ← lineEnd cs)
    | _ => none
  | _ => none

def lines : Nat → List Char → Option (List Line)
  | 0, _ => none
  | fuel + 1, cs => do
    match ← skipLines (cs.length + 1) cs with
    | [] => return []
    | '[' :: cs =>
      let (line, rest) ← headerLine ('[' :: cs)
      return line :: (← lines fuel rest)
    | cs =>
      let (line, rest) ← pairLine cs
      return line :: (← lines fuel rest)

/-- The pairs before the first header, and the sections. -/
def group : List Line → List Pair × List Section
  | [] => ([], [])
  | .pair p :: rest =>
    let (pairs, sections) := group rest
    (p :: pairs, sections)
  | .header path isElement :: rest =>
    let (pairs, sections) := group rest
    ([], ⟨path, isElement, pairs⟩ :: sections)

/-- A byte order mark may stand before the text. -/
def dropMark : List Char → List Char
  | c :: cs => if c.toNat = 0xFEFF then cs else c :: cs
  | [] => []

def ofText (s : String) : Option Entries := do
  let cs := dropMark s.toList
  let (pairs, sections) := group (← lines (cs.length + 1) cs)
  assemble pairs sections

end DependencyAudit.Toml
