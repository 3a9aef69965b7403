import DependencyAudit.Decimal.Layout
import DependencyAudit.Json.Reader
import DependencyAudit.Text.Quoted

/-! Decoding JSON into a type. Of several errors the first in reading order counts: a value is looked
at before what follows it, and a flaw of the text where it stands. -/
namespace DependencyAudit

inductive DecodeError where
  | ended
  | malformed
  | missingField (name : String)
  | duplicateField (name : String)
  | invalidType (found expected : String)
  | invalidValue (found expected : String)
  | invalidLength (length : Nat) (expected : String)
  /-- The text of a value is not of the form that it should have. -/
  | invalidText (reason : String)
deriving DecidableEq

def DecodeError.message : DecodeError → String
  | .ended => "eof"
  | .malformed => "syntax"
  | .missingField name => s!"missing field `{name}`"
  | .duplicateField name => s!"duplicate field `{name}`"
  | .invalidType found expected => s!"invalid type: {found}, expected {expected}"
  | .invalidValue found expected => s!"invalid value: {found}, expected {expected}"
  | .invalidLength length expected => s!"invalid length {length}, expected {expected}"
  | .invalidText reason => reason

namespace Flaw

def whenRead : Flaw → DecodeError
  | .ended | .cutNumeral => .ended
  | .malformed => .malformed

/-- Where a value is only passed over, a numeral that is cut short counts as malformed. -/
def whenSkipped : Flaw → DecodeError
  | .ended => .ended
  | .malformed | .cutNumeral => .malformed

end Flaw

namespace RawString

def read (s : RawString) : Except DecodeError String :=
  match s.text with
  | .ok t => .ok t
  | .error f => .error f.whenRead

end RawString

mutual

/-- The first flaw of a value that is passed over; halves of pairs are not looked at. -/
def Json.flaw? : Json → Option Flaw
  | .null => none
  | .bool _ => none
  | .number _ => none
  | .string s => s.flaw
  | .array is => is.flaw?
  | .object ms => ms.flaw?
  | .flawed f => some f

def Items.flaw? : Items → Option Flaw
  | .closed => none
  | .flawed f => some f
  | .item head rest => head.flaw? <|> rest.flaw?

def Members.flaw? : Members → Option Flaw
  | .closed => none
  | .flawed f => some f
  | .member key value rest => key.flaw <|> value.flaw? <|> rest.flaw?

end

/-- How deep values may be nested, arrays and objects together. -/
abbrev Depth := Nat

abbrev Decoder (α : Type) := Depth → Json → Except DecodeError α

namespace Decoder

open Decimal

def amountFound : Amount → Except DecodeError String
  | .natural n => .ok s!"integer `{n}`"
  | .negative n => .ok s!"integer `-{n}`"
  | .real negative d =>
    .ok s!"floating point `{String.ofList (numeral double doubleLayout negative d).chars}`"
  | .outOfRange => .error .malformed

/-- A value as messages name it; a scalar is read to its end, an array or object is not. -/
def found : Json → Except DecodeError String
  | .null => .ok "null"
  | .bool b => .ok s!"boolean `{b}`"
  | .number n => amountFound n.amount
  | .string s => s.read.map fun t => "string " ++ Text.quoted t
  | .array _ => .ok "sequence"
  | .object _ => .ok "map"
  | .flawed f => .error f.whenRead

def mismatch (expected : String) (j : Json) : Except DecodeError α := do
  throw (.invalidType (← found j) expected)

def string : Decoder String := fun _ j =>
  match j with
  | .string s => s.read
  | j => mismatch "a string" j

def bool : Decoder Bool := fun _ j =>
  match j with
  | .bool b => .ok b
  | j => mismatch "a boolean" j

/-- A number below 2^64; `expected` is the name of its type in messages. -/
def natural (expected : String) : Decoder Nat := fun _ j =>
  match j with
  | .number n =>
    match n.amount with
    | .natural n => .ok n
    | .negative n => .error (.invalidValue s!"integer `-{n}`" expected)
    | _ => mismatch expected j
  | j => mismatch expected j

/-- Null, or a value. -/
def option (d : Decoder α) : Decoder (Option α) := fun depth j =>
  match j with
  | .null => .ok none
  | j => (d depth j).map some

def items (d : Decoder α) (depth : Depth) : Items → Except DecodeError (List α)
  | .closed => .ok []
  | .flawed f => .error f.whenRead
  | .item head rest => do
    let x ← d depth head
    let xs ← items d depth rest
    return x :: xs

def list (d : Decoder α) : Decoder (List α) := fun depth j =>
  match depth, j with
  | 0, .array _ => .error .malformed
  | depth + 1, .array is => items d depth is
  | _, j => mismatch "a sequence" j

def pairs (d : Decoder α) (depth : Depth) : Members → Except DecodeError (List (String × α))
  | .closed => .ok []
  | .flawed f => .error f.whenRead
  | .member key value rest => do
    let k ← key.read
    let x ← d depth value
    let xs ← pairs d depth rest
    return (k, x) :: xs

/-- The members of an object under any names, in order. -/
def dictionary (d : Decoder α) : Decoder (List (String × α)) := fun depth j =>
  match depth, j with
  | 0, .object _ => .error .malformed
  | depth + 1, .object ms => pairs d depth ms
  | _, j => mismatch "a map" j

/-- A field of a record and how its value is put in. -/
structure Field (ρ : Type) where
  name : String
  required : Bool
  put : Depth → Json → ρ → Except DecodeError ρ

def required (name : String) (d : Decoder α) (set : α → ρ → ρ) : Field ρ :=
  ⟨name, true, fun depth j r => (d depth j).map (set · r)⟩

def defaulted (name : String) (d : Decoder α) (set : α → ρ → ρ) : Field ρ :=
  ⟨name, false, fun depth j r => (d depth j).map (set · r)⟩

/-- Puts in the members by name; `seen` holds the names met before. Unknown members are passed
over. -/
def members (fields : List (Field ρ)) (depth : Depth) (seen : List String) (r : ρ) :
    Members → Except DecodeError (List String × ρ)
  | .closed => .ok (seen, r)
  | .flawed f => .error f.whenRead
  | .member key value rest => do
    let k ← key.read
    match fields.find? (·.name == k) with
    | some field =>
      if k ∈ seen then throw (.duplicateField k)
      let r ← field.put depth value r
      members fields depth (k :: seen) r rest
    | none =>
      match value.flaw? with
      | some f => throw f.whenSkipped
      | none => members fields depth seen r rest

/-- Puts in the items in the order of the fields; missing ones at the end must have defaults. -/
def sequence (label : String) (count : Nat) (depth : Depth) (r : ρ) :
    List (Field ρ) → Items → Except DecodeError ρ
  | [], .closed => .ok r
  | [], .flawed f => .error f.whenRead
  | [], .item _ _ => .error .malformed
  | _ :: _, .flawed f => .error f.whenRead
  | field :: fields, .closed =>
    if field.required then .error (.invalidLength count label)
    else sequence label (count + 1) depth r fields .closed
  | field :: fields, .item head rest => do
    let r ← field.put depth head r
    sequence label (count + 1) depth r fields rest

/-- A record as messages name it when its items do not fit. -/
def shape (label : String) (fields : List (Field ρ)) : String :=
  let noun := if fields.length = 1 then "element" else "elements"
  s!"struct {label} with {fields.length} {noun}"

/-- A record by the names of its fields, or as an array in their order. -/
def record (label : String) (fields : List (Field ρ)) (blank : ρ) : Decoder ρ := fun depth j =>
  match depth, j with
  | 0, .object _ => .error .malformed
  | 0, .array _ => .error .malformed
  | depth + 1, .object ms => do
    let (seen, r) ← members fields depth [] blank ms
    match fields.find? fun field => field.required && !seen.contains field.name with
    | some field => throw (.missingField field.name)
    | none => return r
  | depth + 1, .array is => sequence (shape label fields) 0 depth blank fields is
  | _, j => mismatch s!"struct {label}" j

def greatestDepth : Depth := 127

/-- Decodes a whole text: nothing but space may follow the value. -/
def decode (d : Decoder α) (text : String) : Except DecodeError α :=
  let (j, trailing) := Json.Reader.document text
  match d greatestDepth j with
  | .error e => .error e
  | .ok x => if trailing then .error .malformed else .ok x

end Decoder
end DependencyAudit
