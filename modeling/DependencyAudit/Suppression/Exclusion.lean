import DependencyAudit.Suppression.Rule

/-! Suppressions as the settings list them. -/
namespace DependencyAudit

/-- The ecosystem of all audited dependencies. -/
def auditedEcosystem : String := "maven"

/-- Without `vid` every finding of the packages is meant. `packages` is a chain of entries
`group:name` or `group:name:version`. -/
structure Exclusion where
  vid : Option String
  packages : List String
deriving DecidableEq

namespace Exclusion

def blank : Exclusion := ⟨none, []⟩

/-- A group and a name, and a version if there is a third field; further fields are passed over. -/
def entry? (s : String) : Option Coordinate :=
  let draft (group name : List Char) (version : Option (List Char)) : Option Coordinate :=
    (CoordinateDraft.build ⟨some auditedEcosystem, Coordinate.presentChars? (some group),
      Coordinate.presentChars? (some name), Coordinate.presentChars? version⟩).toOption
  match Text.pieces (· == ':') s.toList with
  | group :: name :: version :: _ => draft group name (some version)
  | [group, name] => draft group name none
  | _ => none

/-- The rule that is meant. A malformed entry makes it void, for without the entry the rule would
mean more than was written. -/
def rule? (e : Exclusion) : Option Rule := do
  let pattern ← e.packages.mapM entry?
  return match e.vid with
    | none => .ignorePackage pattern
    | some vid => .ignoreVulnerability (if pattern.isEmpty then none else some pattern) vid

open Decoder in
def fields : List (Decoder.Field Exclusion) :=
  [defaulted "vid" (option string) fun x e => { e with vid := x },
    defaulted "packages" (list string) fun x e => { e with packages := x }]

def decoder : Decoder Exclusion := Decoder.record "Exclusion" fields blank

def toJson (e : Exclusion) : Json :=
  .record <|
    Json.optional "vid" (e.vid.map .ofString) ++
    [("packages", .ofList (e.packages.map .ofString))]

end Exclusion
end DependencyAudit
