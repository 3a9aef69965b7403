import DependencyAudit.Report.Basic

/-! The vulnerability service as seen from here: it answers a list of package URLs with reports. -/
namespace DependencyAudit

structure Credentials where
  username : String
  token : String
deriving DecidableEq

/-- Text for messages, where the token does not show. -/
def Credentials.shown (c : Credentials) : String :=
  "Credentials \x7b username: " ++ Text.quoted c.username ++ ", token: " ++
    Text.quoted "<redacted>" ++ " \x7d"

/-- Both parts must be there for the credentials to be used. -/
def Credentials.isUsable (c : Credentials) : Bool := c.username != "" && c.token != ""

inductive TransportError where
  | rateLimited
  | status (code : Nat) (reason : String)
  | http
  | decode (e : DecodeError)
deriving DecidableEq

def TransportError.message : TransportError → String
  | .rateLimited =>
    "too many requests (429): the vulnerability service is rate limiting this client"
  | .status code reason => s!"vulnerability service returned {reason} ({code})"
  | .http => "request to vulnerability service failed"
  | .decode e => s!"could not decode vulnerability service response: {e.message}"

structure Request where
  coordinates : List String
  credentials : Option Credentials
deriving DecidableEq

/-- A service over states `τ`. -/
structure Transport (τ : Type) where
  send : Request → τ → Except TransportError (List PackageReport) × τ

/-- One answer of a service whose answers are fixed beforehand. -/
inductive Answer where
  /-- A report for every requested package, each with these findings. -/
  | echo (ids : List String)
  | reports (ps : List PackageReport)
  | failure (e : TransportError)
deriving DecidableEq

namespace Answer

/-- The score of the findings of an echo: five. -/
def echoScore : Score := .round false 5 1

def echoed (ids : List String) (coordinate : String) : PackageReport :=
  { PackageReport.blank with
    coordinates := coordinate
    vulnerabilities := ids.map fun id => { Vulnerability.blank with id := id, score := echoScore } }

def result (r : Request) : Answer → Except TransportError (List PackageReport)
  | echo ids => .ok (r.coordinates.map (echoed ids))
  | reports ps => .ok ps
  | failure e => .error e

end Answer

/-- Gives the answers in turn; the last one is repeated, and without any the packages are echoed. -/
def scriptedTransport : Transport (List Answer) where
  send r answers :=
    match answers with
    | [] => ((Answer.echo []).result r, [])
    | [a] => (a.result r, [a])
    | a :: rest => (a.result r, rest)

end DependencyAudit
