import DependencyAudit.Suppression.Exclusion

/-! Resolved dependencies: trees of artifacts, each with the artifacts that it depends on. -/
namespace DependencyAudit

inductive Dependency where
  | node (group name version : String) (children : List Dependency)

abbrev Forest := List Dependency

namespace Dependency

def group : Dependency → String
  | node group _ _ _ => group

def name : Dependency → String
  | node _ name _ _ => name

def version : Dependency → String
  | node _ _ version _ => version

def children : Dependency → List Dependency
  | node _ _ _ children => children

def coordinate (d : Dependency) : Except CoordinateError Coordinate :=
  CoordinateDraft.build
    ⟨some auditedEcosystem, Text.present? d.group, Text.present? d.name, Text.present? d.version⟩

mutual

/-- The artifact itself, then those below it, in order. -/
def preorder : Dependency → List Dependency
  | node group name version children => node group name version children :: forestPreorder children

def forestPreorder : List Dependency → List Dependency
  | [] => []
  | d :: ds => preorder d ++ forestPreorder ds

end

mutual

def toJson : Dependency → Json
  | node group name version children =>
    .record <|
      [("group", .ofString group), ("name", .ofString name), ("version", .ofString version)] ++
      if children.isEmpty then [] else [("children", .ofList (forestJson children))]

def forestJson : List Dependency → List Json
  | [] => []
  | d :: ds => toJson d :: forestJson ds

end

def blank : Dependency := node "" "" "" []

open Decoder in
def fields (child : Decoder Dependency) : List (Decoder.Field Dependency) :=
  [required "group" string fun x d => node x d.name d.version d.children,
    required "name" string fun x d => node d.group x d.version d.children,
    required "version" string fun x d => node d.group d.name x d.children,
    defaulted "children" (list child) fun x d => node d.group d.name d.version x]

/-- Reads trees of at most so many generations. -/
def decoderTo : Nat → Decoder Dependency
  | 0 => fun _ _ => .error .malformed
  | generations + 1 => Decoder.record "DependencyNode" (fields (decoderTo generations)) blank

end Dependency

namespace Forest

/-- The nesting of the text runs out before the generations do. -/
def decoder : Decoder Forest := Decoder.list (Dependency.decoderTo Decoder.greatestDepth)

def ofText (s : String) : Except DecodeError Forest := decoder.decode s

def toJson (f : Forest) : Json := .ofList (Dependency.forestJson f)

end Forest
end DependencyAudit
