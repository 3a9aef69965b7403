import DependencyAudit.Version.Reading

/-! Why an expression is no range of versions. -/
namespace DependencyAudit

inductive RangeFault where
  | version (fault : VersionFault)
  | wildcardVersion
  | wildcardBound (bound : String)
  | missingVersion (operator : String)
  | missingBracket (rest : String)
  | unterminated
  | looseSingle (body : String)
deriving DecidableEq

def RangeFault.message : RangeFault → String
  | .version fault => fault.message
  | .wildcardVersion => "wildcards are not a single version"
  | .wildcardBound bound => s!"wildcard '{bound}' is not allowed inside an interval"
  | .missingVersion operator => s!"operator '{operator}' has no version"
  | .missingBracket rest => s!"expected '[' or '(' at '{rest}'"
  | .unterminated => "unterminated interval"
  | .looseSingle body => s!"single version '{body}' must be written as [v]"

/-- The expression as it was given, and what is wrong with it. -/
structure RangeError where
  expression : String
  fault : RangeFault
deriving DecidableEq

def RangeError.message (e : RangeError) : String :=
  s!"invalid version range '{e.expression}': {e.fault.message}"

/-- Reads one version; a wildcard is none. -/
def Version.ofText (raw : String) : Except RangeError Version :=
  match WrittenVersion.ofChars raw.toList with
  | .error fault => .error ⟨raw, .version fault⟩
  | .ok w => if w.wildcard then .error ⟨raw, .wildcardVersion⟩ else .ok w.version

end DependencyAudit
