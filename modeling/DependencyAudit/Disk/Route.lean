import DependencyAudit.Text.Split

/-! Paths of files, as the names on the way to them. -/
namespace DependencyAudit

/-- `slash`: the path ends in a slash or a single dot, and so can only mean a directory. -/
structure Route where
  absolute : Bool
  names : List String
  slash : Bool
deriving DecidableEq

namespace Route

def isName (cs : List Char) : Bool := cs != [] && cs != ['.']

/-- Empty names and single dots lead nowhere and are left out. -/
def ofText (s : String) : Route :=
  let cs := s.toList
  let pieces := Text.pieces (· == '/') cs
  ⟨cs.head? == some '/', (pieces.filter isName).map .ofList,
    !cs.isEmpty && !isName (pieces.getLastD [])⟩

/-- No name on a disk holds a zero character. -/
def isNameable (r : Route) : Bool := r.names.all fun name => !name.toList.contains '\x00'

/-- The octets of the path, with one slash before each name. -/
def byteSize (r : Route) : Nat :=
  (r.names.map (·.utf8ByteSize + 1)).foldr (· + ·) 0 - (if r.absolute then 0 else 1)

/-- The directory of the path, unless the path has only one name or none. -/
def parent? (r : Route) : Option Route :=
  match r.names.dropLast with
  | [] => if r.absolute && !r.names.isEmpty then some ⟨true, [], false⟩ else none
  | names => some ⟨r.absolute, names, false⟩

def fileName? (r : Route) : Option String :=
  match r.names.getLast? with
  | some name => if name = ".." then none else some name
  | none => none

/-- The path beside this one whose name is longer by `ending`. -/
def withEnding (r : Route) (ending : String) : Route :=
  match r.fileName? with
  | some name => ⟨r.absolute, r.names.dropLast ++ [name ++ ending], false⟩
  | none => ⟨r.absolute, r.names ++ [ending], false⟩

/-- The text of the path beside the one that a text means. What leads nowhere is kept where it stands
first or between directories. -/
def besideText (s ending : String) : String :=
  let cs := s.toList
  match (ofText s).fileName? with
  | some name =>
    let pieces := Text.pieces (· == '/') cs
    let lead := (pieces.take 1).filter (!isName ·)
    let body := (pieces.drop lead.length).reverse.dropWhile (!isName ·)
    let parent := (body.tail.dropWhile (!isName ·)).reverse
    .ofList (Text.joinWith '/' (lead ++ parent ++ [(name ++ ending).toList]))
  | none => s ++ (if cs.isEmpty || cs.getLast? == some '/' then "" else "/") ++ ending

end Route
end DependencyAudit
