import DependencyAudit.Settings.Basic
import DependencyAudit.Text.Split

/-! Patterns of artifacts, in which a star stands for any text. -/
namespace DependencyAudit

namespace Glob

/-- Whether the parts occur one after another. -/
def inOrder : List (List Char) → List Char → Bool
  | [], _ => true
  | part :: parts, cs =>
    match Text.afterFirst? part cs with
    | none => false
    | some rest => inOrder parts rest

/-- The text starts with the part before the first star and ends with that after the last; the other
parts occur in between, each at the first place that is left. -/
def accepts (pattern cs : List Char) : Bool :=
  match Text.pieces (· == '*') pattern with
  | [] => false
  | [only] => only == cs
  | first :: rest =>
    let last := rest.getLastD []
    first.length + last.length ≤ cs.length && first.isPrefixOf cs && last.isSuffixOf cs &&
      inOrder rest.dropLast ((cs.take (cs.length - last.length)).drop first.length)

end Glob

namespace Settings

/-- A pattern means an artifact as a whole, or one version of it. -/
def isIgnored (s : Settings) (group name version : String) : Bool :=
  let artifact := group.toList ++ ':' :: name.toList
  let versioned := artifact ++ ':' :: version.toList
  s.ignored.any fun pattern =>
    Glob.accepts pattern.toList artifact || Glob.accepts pattern.toList versioned

end Settings
end DependencyAudit
