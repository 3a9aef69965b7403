import DependencyAudit.Settings.Basic
import DependencyAudit.Toml.Reader
import DependencyAudit.Toml.Writer

/-! The settings as TOML text. -/
namespace DependencyAudit

namespace Settings

open Toml (Node)

namespace FromToml

def string? : Node → Option String
  | .string s => some s
  | _ => none

def natural? : Node → Option Nat
  | .integer (.ofNat n) => some n
  | _ => none

def bool? : Node → Option Bool
  | .bool b => some b
  | _ => none

/-- The items of an array, or the tables under headers in double brackets. -/
def items? : Node → Option (List Node)
  | .array items => some items
  | .tables elements => some (elements.map (.table .header))
  | _ => none

def list? {α : Type} (f : Node → Option α) (n : Node) : Option (List α) := do (← items? n).mapM f

/-- The fields of a record, by name or as an array in order. A date has a field of its own, which
belongs to no record. -/
def fields? (names : List String) : Node → Option (String → Option Node)
  | .table _ entries => some fun name => Toml.Entries.get? entries name
  | .array items => some fun name => ((names.zip items).find? (·.1 == name)).map (·.2)
  | .dateTime => some fun _ => none
  | _ => none

def credentials? (n : Node) : Option Credentials := do
  let field ← fields? ["username", "token"] n
  return ⟨← field "username" >>= string?, ← field "token" >>= string?⟩

/-- A field that may be missing, but not be of another type. -/
def optional? {α : Type} (f : Node → Option α) : Option Node → Option (Option α)
  | none => some none
  | some n => (f n).map some

def exclusion? (n : Node) : Option Exclusion := do
  let field ← fields? ["vid", "packages"] n
  let vid ← optional? string? (field "vid")
  let packages ← optional? (list? string?) (field "packages")
  return ⟨vid, packages.getD []⟩

end FromToml

open FromToml in
/-- Entries of other names are passed over. -/
def ofEntries (base : Settings) (es : Toml.Entries) : Option Settings := do
  let field := Toml.Entries.get? es
  let cacheFile ← optional? string? (field "cache_file")
  let ttl ← optional? natural? (field "cache_ttl_hours")
  let batchSize ← optional? natural? (field "max_packages_per_batch")
  let apiUrl ← optional? string? (field "api_url")
  let rateLimitAsError ← optional? bool? (field "rate_limit_as_error")
  let ignored ← optional? (list? string?) (field "ignore")
  let credentials ← optional? credentials? (field "credentials")
  let exclusions ← optional? (list? exclusion?) (field "exclusions")
  return {
    cacheFile := cacheFile <|> base.cacheFile
    cacheTtlHours := ttl.getD base.cacheTtlHours
    batchSize := batchSize.getD base.batchSize
    apiUrl := apiUrl.getD base.apiUrl
    rateLimitAsError := rateLimitAsError.getD base.rateLimitAsError
    ignored := ignored.getD base.ignored
    credentials := credentials <|> base.credentials
    exclusions := exclusions.getD base.exclusions }

/-- Settings that the text leaves out are those of `base`. -/
def ofText (base : Settings) (text : String) : Option Settings :=
  (Toml.ofText text).bind base.ofEntries

def stringPair (name value : String) : List Char :=
  Toml.pairChars name.toList (Toml.stringChars value.toList)

def stringsPair (name : String) (values : List String) : List Char :=
  Toml.pairChars name.toList (Toml.arrayChars (values.map fun s => Toml.stringChars s.toList))

def numberPair (name : String) (n : Nat) : List Char := Toml.pairChars name.toList (Text.decimal n)

def credentialsChars (c : Credentials) : List Char :=
  Toml.tableHeader "credentials".toList ++ stringPair "username" c.username ++
    stringPair "token" c.token

def exclusionChars (e : Exclusion) : List Char :=
  Toml.elementHeader "exclusions".toList ++ (e.vid.map (stringPair "vid")).getD [] ++
    stringsPair "packages" e.packages

/-- An empty list of exclusions is a value, and stands before all tables. -/
def chars (s : Settings) : List Char :=
  (s.cacheFile.map (stringPair "cache_file")).getD [] ++
    numberPair "cache_ttl_hours" s.cacheTtlHours ++
    numberPair "max_packages_per_batch" s.batchSize ++
    stringPair "api_url" s.apiUrl ++
    Toml.pairChars "rate_limit_as_error".toList (Toml.boolChars s.rateLimitAsError) ++
    stringsPair "ignore" s.ignored ++
    (if s.exclusions.isEmpty then stringsPair "exclusions" [] else []) ++
    (s.credentials.map credentialsChars).getD [] ++
    s.exclusions.flatMap exclusionChars

/-- Numbers past the greatest integer of the format cannot be written. -/
def text? (s : Settings) : Option String :=
  if (s.cacheTtlHours : Int) ≤ Toml.greatestInteger ∧ (s.batchSize : Int) ≤ Toml.greatestInteger then
    some (String.ofList s.chars)
  else none

end Settings
end DependencyAudit
