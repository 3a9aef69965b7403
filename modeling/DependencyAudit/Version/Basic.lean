import DependencyAudit.Text.Number
import DependencyAudit.Text.Split

/-! A version: three numbers, the identifiers of a pre-release and those of build metadata. -/
namespace DependencyAudit

structure Identifier where
  chars : List Char
deriving DecidableEq

namespace Identifier

def isNumeric (i : Identifier) : Bool := i.chars.all Char.isDigit

def isIdentifierChar (c : Char) : Bool := c.isAlphanum || c == '-'

/-- Identifiers are not empty and hold letters, digits and hyphens. -/
def isValid (i : Identifier) : Bool := !i.chars.isEmpty && i.chars.all isIdentifierChar

/-- A number with a needless zero in front, which no pre-release may hold. -/
def hasLeadingZero (i : Identifier) : Bool :=
  i.isNumeric && i.chars.length > 1 && i.chars.head? == some '0'

end Identifier

structure Version where
  major : Nat
  minor : Nat
  patch : Nat
  /-- No identifier: not a pre-release. -/
  pre : List Identifier
  build : List Identifier
deriving DecidableEq

namespace Version

def release (major minor patch : Nat) : Version := ⟨major, minor, patch, [], []⟩

def dotted (ids : List Identifier) : List Char := Text.joinWith '.' (ids.map (·.chars))

def preText : List Identifier → List Char
  | [] => []
  | ids => '-' :: dotted ids

def buildText : List Identifier → List Char
  | [] => []
  | ids => '+' :: dotted ids

def chars (v : Version) : List Char :=
  Text.joinWith '.' [Text.decimal v.major, Text.decimal v.minor, Text.decimal v.patch] ++
    preText v.pre ++ buildText v.build

def text (v : Version) : String := String.ofList v.chars

end Version
end DependencyAudit
