/-! TOML documents as trees of tables, and how headers and dotted keys extend them. -/
namespace DependencyAudit.Toml

/-- How a table came about; only tables that no header and no value has defined can be extended. -/
inductive TableKind where
  /-- Named on the way to another header. -/
  | implicit
  /-- Made by a dotted key. -/
  | dotted
  /-- Defined by its own header. -/
  | header
  /-- A value in braces. -/
  | inline
deriving DecidableEq

inductive Node where
  | string (s : String)
  | integer (n : Int)
  | float
  | bool (b : Bool)
  | dateTime
  | array (items : List Node)
  | table (kind : TableKind) (entries : List (String × Node))
  /-- A table for each header in double brackets. -/
  | tables (elements : List (List (String × Node)))

abbrev Entries := List (String × Node)

namespace Entries

def get? (es : Entries) (key : String) : Option Node := (es.find? (·.1 == key)).map (·.2)

def put (es : Entries) (key : String) (n : Node) : Entries :=
  if es.any (·.1 == key) then es.map fun (k, x) => if k == key then (k, n) else (k, x)
  else es ++ [(key, n)]

def remove (es : Entries) (key : String) : Entries := es.filter (·.1 != key)

/-- Puts a value under a dotted key. The last name is new in a table made by such keys; on the way
there tables named in headers may be passed, though not those defined there. -/
def addDotted (value : Node) : List String → Entries → Option Entries
  | [], _ => none
  | [key], es => if (es.get? key).isSome then none else some (es.put key value)
  | key :: path, es =>
    match es.get? key with
    | none => (addDotted value path []).map fun inner => es.put key (.table .dotted inner)
    | some (.table .dotted inner) =>
      (addDotted value path inner).map fun inner => es.put key (.table .dotted inner)
    | some (.table .implicit inner) =>
      match path with
      | _ :: _ :: _ =>
        (addDotted value path inner).map fun inner => es.put key (.table .implicit inner)
      | _ => none
    | some (.tables elements) =>
      match path, elements.getLast? with
      | _ :: _ :: _, some last =>
        (addDotted value path last).map fun last =>
          es.put key (.tables (elements.dropLast ++ [last]))
      | _, _ => none
    | some _ => none

/-- Changes the table that a header's path leads to; missing tables on the way become implicit, and
of tables in double brackets the last is meant. -/
def under (change : Entries → Option Entries) : List String → Entries → Option Entries
  | [], es => change es
  | key :: path, es =>
    match es.get? key with
    | none => (under change path []).map fun inner => es.put key (.table .implicit inner)
    | some (.table .inline _) => none
    | some (.table kind inner) =>
      (under change path inner).map fun inner => es.put key (.table kind inner)
    | some (.tables elements) =>
      match elements.getLast? with
      | none => none
      | some last =>
        (under change path last).map fun last => es.put key (.tables (elements.dropLast ++ [last]))
    | some _ => none

end Entries

/-- A dotted key with its value. -/
abbrev Pair := List String × Node

def addPairs (pairs : List Pair) (es : Entries) : Option Entries :=
  pairs.foldlM (fun es (key, value) => es.addDotted value key) es

/-- A header and the pairs below it. -/
structure Section where
  path : List String
  isElement : Bool
  pairs : List Pair

namespace Section

/-- A header in brackets defines a table once. -/
def defineTable (key : String) (pairs : List Pair) (es : Entries) : Option Entries :=
  match es.get? key with
  | none => (addPairs pairs []).map fun inner => es.put key (.table .header inner)
  | some (.table .implicit inner) =>
    (addPairs pairs inner).map fun inner => (es.remove key).put key (.table .header inner)
  | some _ => none

/-- A header in double brackets adds an element. -/
def addElement (key : String) (pairs : List Pair) (es : Entries) : Option Entries :=
  match es.get? key with
  | none => (addPairs pairs []).map fun inner => es.put key (.tables [inner])
  | some (.tables elements) =>
    (addPairs pairs []).map fun inner => es.put key (.tables (elements ++ [inner]))
  | some _ => none

def addTo (s : Section) (es : Entries) : Option Entries :=
  match s.path.getLast? with
  | none => none
  | some key =>
    es.under ((if s.isElement then addElement else defineTable) key s.pairs) s.path.dropLast

end Section

/-- The document of the pairs before the first header and the sections after them. -/
def assemble (pairs : List Pair) (sections : List Section) : Option Entries := do
  let es ← addPairs pairs []
  sections.foldlM (fun es s => s.addTo es) es

end DependencyAudit.Toml
