import DependencyAudit.Coordinate.Basic
import DependencyAudit.Text.Split

/-! Reading a coordinate from its canonical text or from a package URL. -/
namespace DependencyAudit.Coordinate

/-- The ecosystem and the rest: up to the first slash of a package URL, or else to the first
colon. -/
def splitEcosystem? : List Char → Option (List Char × List Char)
  | 'p' :: 'k' :: 'g' :: ':' :: cs => Text.splitOnce? '/' cs
  | cs => Text.splitOnce? ':' cs

/-- The group is all up to the last slash. -/
def splitGroup (cs : List Char) : Option (List Char) × List Char :=
  match Text.splitLast? '/' cs with
  | some (group, rest) => (some group, rest)
  | none => (none, cs)

/-- The version is all past the first at sign. -/
def splitVersion (cs : List Char) : List Char × Option (List Char) :=
  match Text.splitOnce? '@' cs with
  | some (name, version) => (name, some version)
  | none => (cs, none)

def presentChars? (cs : Option (List Char)) : Option String :=
  cs.bind fun cs => Text.present? (String.ofList cs)

def ofText (s : String) : Except CoordinateError Coordinate :=
  match splitEcosystem? (Text.trim s.toList) with
  | none => .error (.malformed s)
  | some (ecosystem, rest) =>
    let (group, rest) := splitGroup rest
    let (name, version) := splitVersion rest
    CoordinateDraft.build ⟨presentChars? (some ecosystem), presentChars? group,
      presentChars? (some name), presentChars? version⟩

end DependencyAudit.Coordinate
