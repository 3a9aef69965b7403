import DependencyAudit.Json.Writer
import DependencyAudit.Lookup.Transport
import DependencyAudit.Remote.Base64
import DependencyAudit.Remote.Status
import DependencyAudit.Text.Unicode

/-! The vulnerability service behind HTTP: how a list of package URLs is posted, and how the response
is read. -/
namespace DependencyAudit

namespace Remote

/-- What is posted. -/
structure Post where
  url : String
  accept : String
  contentType : String
  authorization : Option String
  userAgent : String
  body : String
deriving DecidableEq

structure Response where
  status : Nat
  body : ByteArray

/-- A network over states `ν`: the response to a request, if there is one. -/
abbrev Exchange (ν : Type) := Post → ν → Option Response × ν

/-- A network that no request gets through. -/
def unreachable {ν : Type} : Exchange ν := fun _ network => (none, network)

def mediaType : String := "application/json"

def userAgent : String := "ossaudit/0.1.0"

/-- Slashes at the end of the base URL do not count. -/
def endpoint (baseUrl : String) : String :=
  String.ofList (baseUrl.toList.reverse.dropWhile (· == '/')).reverse ++ "/component-report"

def authorization (c : Credentials) : String :=
  let account := c.username ++ ":" ++ c.token
  "Basic " ++ String.ofList (Base64.encode account.toUTF8.toList)

def requestJson (coordinates : List String) : Json :=
  .record [("coordinates", .ofList (coordinates.map .ofString))]

def post (baseUrl : String) (r : Request) : Post :=
  ⟨endpoint baseUrl, mediaType, mediaType, r.credentials.map authorization, userAgent,
    (requestJson r.coordinates).compact⟩

def reportsDecoder : Decoder (List PackageReport) := Decoder.list PackageReport.decoder

def read (r : Response) : Except TransportError (List PackageReport) :=
  if r.status = tooManyRequests then .error .rateLimited
  else if !isSuccess r.status then .error (.status r.status (phrase r.status))
  else match reportsDecoder.decode (Text.ofBytes r.body) with
    | .ok reports => .ok reports
    | .error e => .error (.decode e)

end Remote

/-- For no packages nothing is sent. -/
def remoteTransport {ν : Type} (baseUrl : String) (exchange : Remote.Exchange ν) : Transport ν where
  send r network :=
    if r.coordinates.isEmpty then (.ok [], network)
    else match exchange (Remote.post baseUrl r) network with
      | (none, network) => (.error .http, network)
      | (some response, network) => (Remote.read response, network)

end DependencyAudit
