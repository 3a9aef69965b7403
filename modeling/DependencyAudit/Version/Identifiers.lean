import DependencyAudit.Version.Basic

/-! The text of a pre-release or of build metadata, and what is wrong with one that is refused. -/
namespace DependencyAudit

/-- The parts of a version that are made of identifiers. -/
inductive VersionPart where
  | preRelease
  | build
deriving DecidableEq

def VersionPart.name : VersionPart → String
  | .preRelease => "pre-release identifier"
  | .build => "build metadata"

inductive IdentifierFault where
  | emptySegment
  | illegalCharacter
  | leadingZero
deriving DecidableEq

def IdentifierFault.message (part : VersionPart) : IdentifierFault → String
  | .emptySegment => s!"empty identifier segment in {part.name}"
  | .illegalCharacter => s!"unexpected character in {part.name}"
  | .leadingZero => s!"invalid leading zero in {part.name}"

namespace VersionPart

/-- The identifiers between the dots, up to the first fault. A segment is looked at up to a foreign
character before that is refused. -/
def ofSegments (part : VersionPart) : List (List Char) → Except IdentifierFault (List Identifier)
  | [] => .ok []
  | segment :: rest =>
    let i : Identifier := ⟨segment.takeWhile Identifier.isIdentifierChar⟩
    if i.chars.isEmpty then .error .emptySegment
    else if part = .preRelease ∧ i.hasLeadingZero then .error .leadingZero
    else if i.chars.length < segment.length then .error .illegalCharacter
    else (part.ofSegments rest).map (i :: ·)

/-- Reads the text of a part; the empty text has no identifier. -/
def ofChars (part : VersionPart) : List Char → Except IdentifierFault (List Identifier)
  | [] => .ok []
  | c :: cs =>
    if Identifier.isIdentifierChar c || c == '.' then
      part.ofSegments (Text.pieces (· == '.') (c :: cs))
    else .error .illegalCharacter

end VersionPart
end DependencyAudit
