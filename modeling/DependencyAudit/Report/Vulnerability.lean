import DependencyAudit.Report.Severity

/-! A finding of the vulnerability service. -/
namespace DependencyAudit

structure Vulnerability where
  id : String
  title : String
  description : String
  score : Score
  vector : Option String
  cwe : Option String
  reference : Option String
deriving DecidableEq

namespace Vulnerability

def blank : Vulnerability := ⟨"", "", "", .zero, none, none, none⟩

/-- By the score, and without a usable one by the vector. -/
def severity (v : Vulnerability) : Severity :=
  match Severity.ofScore v.score with
  | .unknown => (v.vector.map Severity.ofVector).getD .unknown
  | s => s

open Decoder in
def fields : List (Decoder.Field Vulnerability) :=
  [required "id" string fun x v => { v with id := x },
    defaulted "title" string fun x v => { v with title := x },
    defaulted "description" string fun x v => { v with description := x },
    defaulted "cvssScore" Score.decoder fun x v => { v with score := x },
    defaulted "cvssVector" (option string) fun x v => { v with vector := x },
    defaulted "cwe" (option string) fun x v => { v with cwe := x },
    defaulted "reference" (option string) fun x v => { v with reference := x }]

def decoder : Decoder Vulnerability := Decoder.record "Vulnerability" fields blank

def toJson (v : Vulnerability) : Json :=
  .record <|
    [("id", .ofString v.id), ("title", .ofString v.title),
      ("description", .ofString v.description), ("cvssScore", v.score.toJson)] ++
    Json.optional "cvssVector" (v.vector.map .ofString) ++
    Json.optional "cwe" (v.cwe.map .ofString) ++
    Json.optional "reference" (v.reference.map .ofString)

end Vulnerability
end DependencyAudit
