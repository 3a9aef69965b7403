/-! The words of the command line and what they ask for. They are read from left to right, and the
first one that asks for help, or that is at fault, decides. -/
namespace DependencyAudit

structure AuditOptions where
  graph : String
  /-- Where the report goes, in place of the output. -/
  report : Option String
  noCache : Bool
  failOnVulnerabilities : Bool
deriving DecidableEq

inductive Command where
  | audit (options : AuditOptions)
  | config (init path : Bool)
  | clearCache
deriving DecidableEq

inductive Invocation where
  | help
  | version
  | misuse
  | command (c : Command)
deriving DecidableEq

namespace Invocation

/-- A single dash is a name, not an option. -/
def isOption (word : String) : Bool :=
  match word.toList with
  | '-' :: _ :: _ => true
  | _ => false

/-- A value that stands alone after its option. -/
def isValue (word : String) : Bool := word != "" && !isOption word

/-- What has been read of the words of an audit. -/
structure AuditDraft where
  graph : Option String
  report : Option String
  noCache : Bool
  failOnVulnerabilities : Bool
deriving DecidableEq

namespace AuditDraft

def empty : AuditDraft := ⟨none, none, false, false⟩

/-- No option may be given twice. -/
def setGraph? (d : AuditDraft) (word : String) : Option AuditDraft :=
  if d.graph.isSome || word == "" then none else some { d with graph := some word }

def setReport? (d : AuditDraft) (word : String) : Option AuditDraft :=
  if d.report.isSome || word == "" then none else some { d with report := some word }

def setNoCache? (d : AuditDraft) : Option AuditDraft :=
  if d.noCache then none else some { d with noCache := true }

def setFailing? (d : AuditDraft) : Option AuditDraft :=
  if d.failOnVulnerabilities then none else some { d with failOnVulnerabilities := true }

def finish (d : AuditDraft) : Invocation :=
  match d.graph with
  | none => .misuse
  | some graph => .command (.audit ⟨graph, d.report, d.noCache, d.failOnVulnerabilities⟩)

/-- Words that are not options, whatever they look like. -/
def names (d : AuditDraft) : List String → Invocation
  | [] => d.finish
  | word :: words =>
    match d.setGraph? word with
    | none => .misuse
    | some d => names d words

end AuditDraft

/-- What one word of an audit is. -/
inductive AuditWord where
  | help
  | noCache
  | failing
  /-- The option for the report, whose value is the next word. -/
  | report
  | reportIs (value : String)
  | endOfOptions
  | name
  | unknown
deriving DecidableEq

/-- The value of a short option, with or without an equals sign before it. -/
def attached (cs : List Char) : AuditWord :=
  match cs with
  | [] => .report
  | '=' :: value => .reportIs (String.ofList value)
  | value => .reportIs (String.ofList value)

def longReport : List Char := "--output=".toList

def auditWord (word : String) : AuditWord :=
  if word = "--help" then .help
  else if word = "--no-cache" then .noCache
  else if word = "--fail-on-vulnerabilities" then .failing
  else if word = "--output" then .report
  else if word = "--" then .endOfOptions
  else if longReport.isPrefixOf word.toList then
    .reportIs (String.ofList (word.toList.drop longReport.length))
  else match word.toList with
    | '-' :: 'h' :: _ => .help
    | '-' :: 'o' :: cs => attached cs
    | '-' :: _ :: _ => .unknown
    | _ => .name

def continueWith (next : AuditDraft → Invocation) : Option AuditDraft → Invocation
  | none => .misuse
  | some d => next d

/-- `awaiting`: the word before was an option whose value comes next. -/
def audit (awaiting : Bool) (d : AuditDraft) : List String → Invocation
  | [] => if awaiting then .misuse else d.finish
  | word :: words =>
    if awaiting then
      if isValue word then continueWith (audit false · words) (d.setReport? word) else .misuse
    else match auditWord word with
      | .help => .help
      | .noCache => continueWith (audit false · words) d.setNoCache?
      | .failing => continueWith (audit false · words) d.setFailing?
      | .report => audit true d words
      | .reportIs value => continueWith (audit false · words) (d.setReport? value)
      | .endOfOptions => d.names words
      | .name => continueWith (audit false · words) (d.setGraph? word)
      | .unknown => .misuse

def asksHelp (word : String) : Bool := word == "--help" || ['-', 'h'].isPrefixOf word.toList

def asksVersion (word : String) : Bool := word == "--version" || ['-', 'V'].isPrefixOf word.toList

def config (init path : Bool) : List String → Invocation
  | [] => .command (.config init path)
  | "--init" :: words => if init then .misuse else config true path words
  | "--path" :: words => if path then .misuse else config init true words
  | ["--"] => .command (.config init path)
  | word :: _ => if asksHelp word then .help else .misuse

def clearCache : List String → Invocation
  | [] => .command .clearCache
  | ["--"] => .command .clearCache
  | word :: _ => if asksHelp word then .help else .misuse

def topics : List String := ["audit", "config", "clear-cache", "help"]

/-- Help is given on all commands or on one. -/
def helpOn : List String → Invocation
  | [] => .help
  | [topic] => if topics.contains topic then .help else .misuse
  | _ => .misuse

def ofArguments : List String → Invocation
  | [] => .misuse
  | "audit" :: words => audit false .empty words
  | "config" :: words => config false false words
  | "clear-cache" :: words => clearCache words
  | "help" :: words => helpOn words
  | word :: _ => if asksHelp word then .help else if asksVersion word then .version else .misuse

end Invocation
end DependencyAudit
