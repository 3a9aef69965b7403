import DependencyAudit.Text.Blank
import DependencyAudit.Version.Identifiers

/-! Reading a version: the strict grammar first, then the looser shapes in use, where components may
be missing, the last may be a wildcard, and what follows the numbers is a qualifier. -/
namespace DependencyAudit

inductive VersionFault where
  | empty
  | noNumber
  | tooLarge (segment : String)
  | identifiers (part : VersionPart) (text : String) (fault : IdentifierFault)
deriving DecidableEq

namespace VersionFault

/-- A pre-release with a number that has a needless zero in front. -/
abbrev leadingZero (qualifier : String) : VersionFault :=
  .identifiers .preRelease qualifier .leadingZero

def message : VersionFault → String
  | .empty => "empty version"
  | .noNumber => "no numeric version component"
  | .tooLarge segment =>
    s!"bad numeric component '{segment}': number too large to fit in target type"
  | .identifiers .preRelease text fault =>
    s!"bad pre-release '{text}': {fault.message .preRelease}"
  | .identifiers .build text fault => s!"bad qualifier '{text}': {fault.message .build}"

end VersionFault

/-- A written version: `given` of its numbers are there (three when it is read strictly), and a
wildcard may stand for the rest. -/
structure WrittenVersion where
  version : Version
  given : Nat
  wildcard : Bool
deriving DecidableEq

namespace Version

def strictNumber? (cs : List Char) : Option Nat :=
  if cs.isEmpty || !cs.all Char.isDigit || (cs.length > 1 && cs.head? == some '0') then none
  else Text.number? cs

def strictNumbers? (cs : List Char) : Option (Nat × Nat × Nat) :=
  match Text.pieces (· == '.') cs with
  | [a, b, c] => do return (← strictNumber? a, ← strictNumber? b, ← strictNumber? c)
  | _ => none

def identifiers (cs : List Char) : List Identifier := (Text.pieces (· == '.') cs).map .mk

/-- The identifiers after a mark, none when the mark is missing. -/
def marked? : Option (List Char) → Option (List Identifier)
  | none => some []
  | some cs => if (identifiers cs).all (·.isValid) then some (identifiers cs) else none

/-- The text up to `mark`, and the text after it. -/
def upTo (mark : Char) (cs : List Char) : List Char × Option (List Char) :=
  match Text.splitOnce? mark cs with
  | some (a, b) => (a, some b)
  | none => (cs, none)

def strict? (cs : List Char) : Option Version := do
  let (core, build) := upTo '+' cs
  let (numbers, pre) := upTo '-' core
  let (major, minor, patch) ← strictNumbers? numbers
  let pre ← marked? pre
  let build ← marked? build
  if pre.any (·.hasLeadingZero) then none
  else some ⟨major, minor, patch, pre, build⟩

def isWildcard (cs : List Char) : Bool := cs == ['x'] || cs == ['X'] || cs == ['*']

/-- What ends the numbers of a loosely written version. -/
inductive Ending where
  | done
  | wildcard
  /-- A qualifier, set off by a hyphen or not. -/
  | qualifier (hyphen : Bool) (chars : List Char)
deriving DecidableEq

def scan : List (List Char) → Except VersionFault (List Nat × Ending)
  | [] => .ok ([], .done)
  | segment :: rest =>
    if isWildcard segment then .ok ([], .wildcard)
    else
      let digits := segment.takeWhile Char.isDigit
      let tail := segment.dropWhile Char.isDigit
      if digits.isEmpty then .ok ([], .qualifier false (Text.joinWith '.' (segment :: rest)))
      else match Text.number? digits with
        | none => .error (.tooLarge (String.ofList segment))
        | some n =>
          if tail.isEmpty then (scan rest).map fun (numbers, ending) => (n :: numbers, ending)
          else
            .ok ([n], .qualifier (tail.head? == some '-') (Text.joinWith '.' (tail :: rest)))

def isQualifierMark (c : Char) : Bool := c == '-' || c == '_' || c == '.' || c == '+'

/-- The identifiers of a free-form qualifier: leading marks are dropped, foreign characters become
hyphens, and empty identifiers are left out. -/
def sanitize (qualifier : List Char) : List Identifier :=
  let cleaned := (qualifier.dropWhile isQualifierMark).map fun c =>
    if c.isAlphanum || c == '-' || c == '.' then c else '-'
  (Text.words (· == '.') cleaned).map .mk

theorem isValid_of_mem_sanitize {q : List Char} {i : Identifier} (h : i ∈ sanitize q) :
    i.chars ≠ [] := by
  simp only [sanitize, Text.words, List.mem_map, List.mem_filter] at h
  obtain ⟨w, ⟨_, hw⟩, rfl⟩ := h
  simpa using hw

/-- The numbers past the third, as identifiers. -/
def extraNumbers (numbers : List Nat) : List Identifier :=
  (numbers.drop 3).map fun n => ⟨Text.decimal n⟩

/-- The text of build metadata: the numbers past the third, and a qualifier if there is one. -/
def buildChars (numbers : List Nat) (qualifier : List Char) : List Char :=
  Text.joinWith '.' <|
    (extraNumbers numbers).map (·.chars) ++ if qualifier.isEmpty then [] else [qualifier]

def readPart (part : VersionPart) (cs : List Char) : Except VersionFault (List Identifier) :=
  (part.ofChars cs).mapError (.identifiers part (String.ofList cs))

def ofNumbers (numbers : List Nat) (pre build : List Identifier) : Version :=
  ⟨numbers.getD 0 0, numbers.getD 1 0, numbers.getD 2 0, pre, build⟩

def loose (cs : List Char) : Except VersionFault WrittenVersion := do
  let (numbers, ending) ← scan (Text.pieces (· == '.') cs)
  if numbers.isEmpty then throw .noNumber
  let given := min numbers.length 3
  match ending with
  | .wildcard => return ⟨ofNumbers numbers [] [], given, true⟩
  | .done =>
    let build ← readPart .build (buildChars numbers [])
    return ⟨ofNumbers numbers [] build, given, false⟩
  | .qualifier false q =>
    let build ← readPart .build (buildChars numbers (dotted (sanitize q)))
    return ⟨ofNumbers numbers [] build, given, false⟩
  | .qualifier true q =>
    let pre ← readPart .preRelease (dotted (sanitize q))
    let build ← readPart .build (buildChars numbers [])
    return ⟨ofNumbers numbers pre build, given, false⟩

end Version

namespace WrittenVersion

def isVersionMark (c : Char) : Bool := c == 'v' || c == 'V'

def ofChars (raw : List Char) : Except VersionFault WrittenVersion :=
  let cs := (Text.trim raw).dropWhile isVersionMark
  if cs.isEmpty then .error .empty
  else if Version.isWildcard cs then .ok ⟨.release 0 0 0, 0, true⟩
  else match Version.strict? cs with
    | some v => .ok ⟨v, 3, false⟩
    | none => Version.loose cs

/-- The first version past everything that is given, unless the last given number is the largest one:
the sum has 64 bits. -/
def next? (w : WrittenVersion) : Option Version :=
  match w.given with
  | 0 => none
  | 1 => some (.release (Text.nextNumber w.version.major) 0 0)
  | 2 => some (.release w.version.major (Text.nextNumber w.version.minor) 0)
  | _ => some (.release w.version.major w.version.minor (Text.nextNumber w.version.patch))

end WrittenVersion
end DependencyAudit
