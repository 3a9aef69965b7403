import DependencyAudit.Json.Decoder
import DependencyAudit.Text.Blank
import DependencyAudit.Text.Lowercase
import DependencyAudit.Text.Order

/-! Names of packages: an ecosystem, a group, a name, and a version or a range of versions. -/
namespace DependencyAudit

structure Coordinate where
  ecosystem : String
  group : Option String
  name : String
  version : Option String
deriving DecidableEq

/-- The identity of a package without its version. -/
structure CoordinateKey where
  ecosystem : String
  group : Option String
  name : String
deriving DecidableEq

namespace CoordinateKey

/-- A missing group stands before all others. -/
def groupOrder : Option String → Option String → Ordering
  | none, none => .eq
  | none, some _ => .lt
  | some _, none => .gt
  | some a, some b => Text.order a b

def order (a b : CoordinateKey) : Ordering :=
  (Text.order a.ecosystem b.ecosystem).then <|
    (groupOrder a.group b.group).then (Text.order a.name b.name)

end CoordinateKey

inductive CoordinateError where
  | missing (field : String)
  | malformed (text : String)
  | emptyPath
deriving DecidableEq

def CoordinateError.message : CoordinateError → String
  | .missing field => s!"package coordinate is missing its {field}"
  | .malformed text => s!"invalid package coordinate '{text}'"
  | .emptyPath => "an inclusion path must contain at least one package"

namespace Coordinate

def key (c : Coordinate) : CoordinateKey := ⟨c.ecosystem, c.group, c.name⟩

/-- The group with the slash after it, the name, and the version with the at sign before it. -/
def packageText (c : Coordinate) : String :=
  (c.group.map (· ++ "/")).getD "" ++ c.name ++ (c.version.map ("@" ++ ·)).getD ""

/-- The canonical text. -/
def text (c : Coordinate) : String := c.ecosystem ++ ":" ++ c.packageText

/-- The package URL, by which the vulnerability service is asked. -/
def purl (c : Coordinate) : String := "pkg:" ++ c.ecosystem ++ "/" ++ c.packageText

/-- The canonical text in lower case: coordinates with one cache key count as one package. -/
def cacheKey (c : Coordinate) : String := Text.lowercase c.text

def blank : Coordinate := ⟨"", none, "", none⟩

open Decoder in
def fields : List (Decoder.Field Coordinate) :=
  [required "ecosystem" string fun x c => { c with ecosystem := x },
    defaulted "namespace" (option string) fun x c => { c with group := x },
    required "name" string fun x c => { c with name := x },
    defaulted "version" (option string) fun x c => { c with version := x }]

def decoder : Decoder Coordinate := Decoder.record "PackageCoordinate" fields blank

def toJson (c : Coordinate) : Json :=
  .record <|
    [("ecosystem", .ofString c.ecosystem)] ++
    Json.optional "namespace" (c.group.map .ofString) ++
    [("name", .ofString c.name)] ++
    Json.optional "version" (c.version.map .ofString)

end Coordinate

/-- The parts of a coordinate that is put together; a blank part counts as missing. -/
structure CoordinateDraft where
  ecosystem : Option String
  group : Option String
  name : Option String
  version : Option String
deriving DecidableEq

namespace CoordinateDraft

def empty : CoordinateDraft := ⟨none, none, none, none⟩

def ofCoordinate (c : Coordinate) : CoordinateDraft := ⟨c.ecosystem, c.group, c.name, c.version⟩

def withEcosystem (d : CoordinateDraft) (s : String) : CoordinateDraft :=
  { d with ecosystem := Text.present? s }

def withGroup (d : CoordinateDraft) (s : String) : CoordinateDraft :=
  { d with group := Text.present? s }

def withName (d : CoordinateDraft) (s : String) : CoordinateDraft :=
  { d with name := Text.present? s }

def withVersion (d : CoordinateDraft) (s : String) : CoordinateDraft :=
  { d with version := Text.present? s }

def anyVersion (d : CoordinateDraft) : CoordinateDraft := { d with version := none }

def build (d : CoordinateDraft) : Except CoordinateError Coordinate :=
  match d.ecosystem, d.name with
  | none, _ => .error (.missing "ecosystem")
  | _, none => .error (.missing "name")
  | some e, some n => .ok ⟨e, d.group, n, d.version⟩

end CoordinateDraft
end DependencyAudit
