import DependencyAudit.Audit
import DependencyAudit.CommandLine.Arguments
import DependencyAudit.Remote.Client
import DependencyAudit.Settings.File

/-! The program behind the command line, over a disk and a network as values. -/
namespace DependencyAudit

/-- Why a command was not carried out. -/
inductive CommandFailure where
  | settings (e : SettingsError)
  | unreadableGraph (path : String)
  | invalidGraph (path : String)
  | audit (e : AuditError)
  | unwritableReport (path : String)
  | cache (e : CacheError)
  | disk (fault : DiskFault)
  | unsaved (e : SaveFailure)
deriving DecidableEq

def CommandFailure.message : CommandFailure → String
  | .settings e => e.message
  | .unreadableGraph path => s!"failed to read {path}"
  | .invalidGraph path => s!"invalid dependency graph in {path}"
  | .audit e => e.message
  | .unwritableReport path => s!"failed to write report to {path}"
  | .cache e => e.message
  | .disk fault => fault.message
  | .unsaved e => e.message

/-- What a command leaves: its exit code, its output, the lines of its messages, and the rest of the
world. -/
structure Outcome (ν : Type) where
  code : Nat
  output : String
  messages : List String
  disk : Disk
  network : ν

namespace Outcome

def success : Nat := 0

def failed : Nat := 1

/-- Findings were left, and the command was to fail then. -/
def vulnerable : Nat := 2

/-- The words of the command line are at fault. -/
def misused : Nat := 2

end Outcome

/-- Where a command runs. -/
structure Host (ν : Type) where
  directories : Directories
  exchange : Remote.Exchange ν
  clock : Clock

namespace Host

variable {ν : Type}

def failure (e : CommandFailure) (d : Disk) (n : ν) : Outcome ν :=
  ⟨Outcome.failed, "", ["Error: " ++ e.message], d, n⟩

def done (output : String) (d : Disk) (n : ν) : Outcome ν := ⟨Outcome.success, output, [], d, n⟩

def exitCode (o : AuditOptions) (r : AuditReport) : Nat :=
  if o.failOnVulnerabilities && r.hasVulnerabilities then Outcome.vulnerable else Outcome.success

/-- Writes the report to its file, or to the output. -/
def deliver (o : AuditOptions) (r : AuditReport) (d : Disk) (n : ν) : Outcome ν :=
  match o.report with
  | none => ⟨exitCode o r, r.text ++ "\n", [], d, n⟩
  | some path =>
    match d.writeText (.ofText path) r.text with
    | .error _ => failure (.unwritableReport path) d n
    | .ok d => ⟨exitCode o r, "", ["Report written to: " ++ path], d, n⟩

def runAudit (h : Host ν) (o : AuditOptions) (settings : Settings) (f : Forest) (d : Disk) (n : ν) :
    Outcome ν :=
  match Auditor.new settings d with
  | (.error e, d) => failure (.audit e) d n
  | (.ok (auditor : Auditor Unit), d) =>
    match auditor.addForest f with
    | (.error e, _) => failure (.audit (.coordinate e)) d n
    | (.ok (), auditor) =>
      let r := auditor.run (remoteTransport settings.apiUrl h.exchange) h.clock ⟨d, ()⟩ n
      match r.record.result with
      | .error e => failure (.audit e) r.world.disk r.transport
      | .ok report => deliver o report r.world.disk r.transport

def audit (h : Host ν) (o : AuditOptions) (d : Disk) (n : ν) : Outcome ν :=
  match Settings.load h.directories d with
  | .error e => failure (.settings e) d n
  | .ok settings =>
    let settings := if o.noCache then { settings with cacheFile := none } else settings
    match d.readText (.ofText o.graph) with
    | .error _ => failure (.unreadableGraph o.graph) d n
    | .ok text =>
      match Forest.ofText text with
      | .error _ => failure (.invalidGraph o.graph) d n
      | .ok f => h.runAudit o settings f d n

/-- Writes the default settings, unless there is a settings file. -/
def createSettings (h : Host ν) (path : String) (d : Disk) (n : ν) : Outcome ν :=
  if d.holds (.ofText path) then done s!"Config file already exists at: {path}\n" d n
  else
    let settings := Settings.default h.directories
    match settings.save h.directories d with
    | (.error e, d) => failure (.unsaved e) d n
    | (.ok (), d) =>
      let text := settings.text?.getD ""
      done s!"Created config file at: {path}\n\n{text}\n" d n

def showSettings (path : String) (d : Disk) (n : ν) : Outcome ν :=
  if d.holds (.ofText path) then
    match d.readText (.ofText path) with
    | .error fault => failure (.disk fault) d n
    | .ok text => done s!"Config file: {path}\n\n{text}\n" d n
  else
    done ("No config file found.\nRun 'ossaudit config --init' to create one.\n\n" ++
      s!"Config path: {path}\n") d n

def config (h : Host ν) (init pathOnly : Bool) (d : Disk) (n : ν) : Outcome ν :=
  let path := h.directories.settingsFile
  if pathOnly then done (path ++ "\n") d n
  else if init then h.createSettings path d n
  else showSettings path d n

def clearCache (h : Host ν) (d : Disk) (n : ν) : Outcome ν :=
  match Settings.load h.directories d with
  | .error e => failure (.settings e) d n
  | .ok settings =>
    match settings.cacheLocation with
    | none => done "Caching is disabled.\n" d n
    | some path =>
      match FileStore.openAt path settings.cacheTtlHours d with
      | (.error e, d) => failure (.cache e) d n
      | (.ok f, d) =>
        match f.clear d with
        | (.error e, d) => failure (.cache e) d n
        | (.ok (), d) => done "Cache cleared.\n" d n

def versionLine : String := "ossaudit 0.1.0\n"

def usage : String :=
  "Audit a dependency graph against the OSS Index vulnerability database\n\n" ++
  "Usage: ossaudit <COMMAND>\n\n" ++
  "Commands:\n" ++
  "  audit <GRAPH>  Audit the dependency tree described by a JSON file\n" ++
  "  config         Show or create config file\n" ++
  "  clear-cache    Clear the cache\n" ++
  "  help           Print this message\n\n" ++
  "Options of audit:\n" ++
  "  -o, --output <OUTPUT>      Write the report to a file instead of the output\n" ++
  "  --no-cache                 Do not read or write the persistent cache\n" ++
  "  --fail-on-vulnerabilities  Exit with code 2 if any vulnerability survives filtering\n\n" ++
  "Options of config:\n" ++
  "  --init  Generate default config file\n" ++
  "  --path  Show config file path\n\n" ++
  "Options:\n" ++
  "  -h, --help     Print help\n" ++
  "  -V, --version  Print version\n"

def carryOut (h : Host ν) (c : Command) (d : Disk) (n : ν) : Outcome ν :=
  match c with
  | .audit o => h.audit o d n
  | .config init path => h.config init path d n
  | .clearCache => h.clearCache d n

def run (h : Host ν) (arguments : List String) (d : Disk) (n : ν) : Outcome ν :=
  match Invocation.ofArguments arguments with
  | .help => done usage d n
  | .version => done versionLine d n
  | .misuse => ⟨Outcome.misused, "", [usage], d, n⟩
  | .command c => h.carryOut c d n

end Host
end DependencyAudit
