import DependencyAudit.Json.Writer
import DependencyAudit.Report.Basic
import DependencyAudit.Text.Order
import DependencyAudit.Timestamp

/-! Cached reports and how long they stay valid. -/
namespace DependencyAudit

/-- How long an entry stays valid, in nanoseconds. -/
structure Lifetime where
  nanos : Int
deriving DecidableEq

namespace Lifetime

def ofMilliseconds (n : Int) : Lifetime := ⟨n * 1000000⟩

/-- The greatest span of time that is counted, in milliseconds. -/
def greatest : Int := 0x7fffffffffffffff

def longest : Lifetime := ofMilliseconds greatest

/-- A number, unless it takes more than 64 bits with a sign. -/
def word? (n : Int) : Option Int :=
  if -0x8000000000000000 ≤ n ∧ n ≤ 0x7fffffffffffffff then some n else none

/-- A span of whole seconds, unless it is longer than is counted. -/
def ofSeconds? (seconds : Int) : Option Lifetime :=
  if -(greatest / 1000) ≤ seconds ∧ seconds ≤ greatest / 1000 then
    some (ofMilliseconds (seconds * 1000))
  else none

/-- A span of hours, unless one of the numbers on the way to it is too large. -/
def ofHours? (hours : Nat) : Option Lifetime := do
  let hours ← word? hours
  let seconds ← word? (hours * 3600)
  ofSeconds? seconds

/-- A number of hours, cut down to the greatest span. -/
def ofHours (hours : Nat) : Lifetime := (ofHours? hours).getD longest

end Lifetime

/-- The text of a report and the time at which it was fetched. -/
structure Entry where
  value : String
  createdAt : Timestamp
deriving DecidableEq

namespace Entry

def ofReport (p : PackageReport) (now : Timestamp) : Entry := ⟨p.toJson.compact, now⟩

def report (e : Entry) : Except DecodeError PackageReport := PackageReport.decoder.decode e.value

def isExpired (e : Entry) (lifetime : Lifetime) (now : Timestamp) : Bool :=
  e.createdAt.since now > lifetime.nanos

def blank : Entry := ⟨"", ⟨⟨1970, 1, 1⟩, 0, 0⟩⟩

open Decoder in
def fields : List (Decoder.Field Entry) :=
  [required "value" string fun x e => { e with value := x },
    required "createdAt" Timestamp.decoder fun x e => { e with createdAt := x }]

def decoder : Decoder Entry := Decoder.record "CacheEntry" fields blank

def toJson (e : Entry) : Json :=
  .record [("value", .ofString e.value), ("createdAt", e.createdAt.toJson)]

end Entry

/-- Entries by key, in the order of the keys, each key once. -/
structure Entries where
  pairs : List (String × Entry)
deriving DecidableEq

namespace Entries

def empty : Entries := ⟨[]⟩

def get? (es : Entries) (key : String) : Option Entry :=
  (es.pairs.find? (·.1 == key)).map (·.2)

def insert (key : String) (e : Entry) : List (String × Entry) → List (String × Entry)
  | [] => [(key, e)]
  | (k, x) :: rest =>
    match Text.order key k with
    | .lt => (key, e) :: (k, x) :: rest
    | .eq => (key, e) :: rest
    | .gt => (k, x) :: insert key e rest

def put (es : Entries) (key : String) (e : Entry) : Entries := ⟨insert key e es.pairs⟩

theorem find?_insert (key : String) (e : Entry) (k : String) (ps : List (String × Entry)) :
    (insert key e ps).find? (·.1 == k) =
      if key = k then some (key, e) else ps.find? (·.1 == k) := by
  induction ps with
  | nil => by_cases h : key = k <;> simp [insert, h]
  | cons p ps ih =>
    obtain ⟨j, x⟩ := p
    simp only [insert]
    split
    · by_cases h : key = k <;> simp [h]
    · rename_i ho
      rw [Text.order_eq_eq_iff] at ho
      subst ho
      by_cases h : key = k <;> simp [h]
    · rename_i ho
      by_cases hj : j = k
      · subst hj
        have hne : key ≠ j := by
          rintro rfl
          rw [Text.order_eq_eq_iff.2 rfl] at ho
          cases ho
        simp [hne]
      · simp [hj, ih]

theorem get?_put (es : Entries) (key : String) (e : Entry) (k : String) :
    (es.put key e).get? k = if key = k then some e else es.get? k := by
  by_cases h : key = k <;> simp [get?, put, find?_insert, h]

/-- Puts in every pair; of two with one key the later stays. -/
def putAll (es : Entries) (pairs : List (String × Entry)) : Entries :=
  pairs.foldl (fun es (key, e) => es.put key e) es

def live (es : Entries) (lifetime : Lifetime) (now : Timestamp) : Entries :=
  ⟨es.pairs.filter fun (_, e) => !e.isExpired lifetime now⟩

def getLive? (es : Entries) (lifetime : Lifetime) (now : Timestamp) (key : String) :
    Option Entry :=
  (es.get? key).filter fun e => !e.isExpired lifetime now

/-- The live entries among the keys. -/
def getMany (es : Entries) (lifetime : Lifetime) (now : Timestamp) (keys : List String) : Entries :=
  empty.putAll <| keys.filterMap fun key => (es.getLive? lifetime now key).map (key, ·)

def remove (es : Entries) (key : String) : Entries := ⟨es.pairs.filter (·.1 != key)⟩

/-- The live entries under the keys in turn. Each entry is taken out as it is read. -/
def takeLive (lifetime : Lifetime) (now : Timestamp) : Entries → List String → List (String × Entry)
  | _, [] => []
  | es, key :: keys =>
    let rest := takeLive lifetime now (es.remove key) keys
    match es.getLive? lifetime now key with
    | some e => (key, e) :: rest
    | none => rest

/-- The live entries among the keys, for entries that are given up: none is copied. -/
def takeMany (es : Entries) (lifetime : Lifetime) (now : Timestamp) (keys : List String) : Entries :=
  empty.putAll (takeLive lifetime now es keys)

def keys (es : Entries) : List String := es.pairs.map (·.1)

def size (es : Entries) : Nat := es.pairs.length

/-- The document in which entries are kept on disk. -/
def documentDecoder : Decoder Entries :=
  Decoder.record "CacheDocument"
    [Decoder.defaulted "entries" (Decoder.dictionary Entry.decoder)
      fun pairs _ => empty.putAll pairs] empty

def documentJson (es : Entries) : Json :=
  .record [("entries", .record (es.pairs.map fun (key, e) => (key, e.toJson)))]

/-- The entries of a document; of a text that is none, no entries. -/
def ofDocument (text : String) : Entries :=
  if (Text.trim text.toList).isEmpty then empty
  else match documentDecoder.decode text with
    | .ok es => es
    | .error _ => empty

def document (es : Entries) : String := es.documentJson.compact

end Entries
end DependencyAudit
