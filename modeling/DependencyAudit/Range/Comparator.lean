import DependencyAudit.Range.Fault
import DependencyAudit.Range.Interval

/-! Comparators, sets of comparators that must all hold, and hyphen ranges. -/
namespace DependencyAudit

inductive Relation where
  | same
  | above
  | atLeast
  | below
  | atMost
  | caret
  | tilde
deriving DecidableEq

namespace Relation

/-- The relation written in front of a version; none is written for `same`. -/
def split : List Char → Relation × List Char
  | '>' :: '=' :: cs => (.atLeast, cs)
  | '<' :: '=' :: cs => (.atMost, cs)
  | '=' :: '=' :: cs => (.same, cs)
  | '>' :: cs => (.above, cs)
  | '<' :: cs => (.below, cs)
  | '=' :: cs => (.same, cs)
  | '^' :: cs => (.caret, cs)
  | '~' :: cs => (.tilde, cs)
  | cs => (.same, cs)

def isMark (c : Char) : Bool := c == '<' || c == '>' || c == '=' || c == '^' || c == '~'

end Relation

namespace Interval

/-- A version without a relation: itself, or all that its wildcard stands for. -/
def ofWritten (w : WrittenVersion) : Interval :=
  if w.wildcard then
    match w.next? with
    | some next => halfOpen w.version next
    | none => any
  else exactly w.version

/-- Below the next change of the leftmost number that is not zero. -/
def caretLimit (v : Version) : Version :=
  if v.major > 0 then .release (Text.nextNumber v.major) 0 0
  else if v.minor > 0 then .release 0 (Text.nextNumber v.minor) 0
  else .release 0 0 (Text.nextNumber v.patch)

def tildeLimit (w : WrittenVersion) : Version :=
  if w.given ≥ 2 then .release w.version.major (Text.nextNumber w.version.minor) 0
  else .release (Text.nextNumber w.version.major) 0 0

/-- The first version past the wildcard, if there is one. -/
def pastWildcard? (w : WrittenVersion) : Option Version := if w.wildcard then w.next? else none

def ofRelation (r : Relation) (w : WrittenVersion) : Interval :=
  if w.given = 0 then any
  else match r with
    | .same => ofWritten w
    | .atLeast => atLeast w.version true
    | .above =>
      match pastWildcard? w with
      | some next => atLeast next true
      | none => atLeast w.version false
    | .below => atMost w.version false
    | .atMost =>
      match pastWildcard? w with
      | some next => atMost next false
      | none => atMost w.version true
    | .caret => halfOpen w.version (caretLimit w.version)
    | .tilde => halfOpen w.version (tildeLimit w)

def ofComparator (cs : List Char) : Except RangeFault Interval :=
  let (r, rest) := Relation.split cs
  match WrittenVersion.ofChars rest with
  | .error fault => .error (.version fault)
  | .ok w => .ok (ofRelation r w)

/-- The versions in `acc` that satisfy every comparator; `pending` holds the marks that wait for
their version. Reading stops at the first comparator that leaves nothing. -/
def ofTokens (acc : Interval) (pending : List Char) :
    List (List Char) → Except RangeFault (Option Interval)
  | [] => if pending.isEmpty then .ok (some acc) else .error (.missingVersion (String.ofList pending))
  | token :: rest =>
    if token.all Relation.isMark then ofTokens acc (pending ++ token) rest
    else match ofComparator (pending ++ token) with
      | .error fault => .error fault
      | .ok i =>
        match acc.intersect? i with
        | none => .ok none
        | some next => ofTokens next [] rest

/-- The text before and after the first hyphen between spaces. -/
def splitHyphen? : List Char → Option (List Char × List Char)
  | [] => none
  | c :: cs =>
    match c, cs with
    | ' ', '-' :: ' ' :: rest => some ([], rest)
    | _, _ => (splitHyphen? cs).map fun (a, b) => (c :: a, b)

/-- From `low` up to `high`, and with a wildcard up to all that it stands for. -/
def ofHyphen (low high : List Char) : Except RangeFault (Option Interval) :=
  match WrittenVersion.ofChars low, WrittenVersion.ofChars high with
  | .error fault, _ => .error (.version fault)
  | _, .error fault => .error (.version fault)
  | .ok low, .ok high =>
    let upper :=
      if high.wildcard then
        match high.next? with
        | some next => atMost next false
        | none => any
      else atMost high.version true
    .ok ((atLeast low.version true).intersect? upper)

def isEverything (cs : List Char) : Bool :=
  cs.isEmpty || Version.isWildcard cs || cs == ['l', 'a', 't', 'e', 's', 't']

def isSeparator (c : Char) : Bool := c == ',' || Text.isBlank c

/-- One alternative; `none` when its comparators contradict each other. -/
def ofAlternative (cs : List Char) : Except RangeFault (Option Interval) :=
  if isEverything cs then .ok (some any)
  else match splitHyphen? cs with
    | some (low, high) => ofHyphen low high
    | none => ofTokens any [] (Text.words isSeparator cs)

end Interval
end DependencyAudit
