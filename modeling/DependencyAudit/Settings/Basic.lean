import DependencyAudit.Lookup.Transport
import DependencyAudit.Suppression.Exclusion
import DependencyAudit.Json.Writer

/-! The settings of an audit and their defaults. -/
namespace DependencyAudit

/-- The directories in which settings and cached reports are kept. -/
structure Directories where
  settings : String
  cache : String
deriving DecidableEq

namespace Directories

/-- A path below a directory. -/
def join (directory name : String) : String :=
  if directory.toList.getLast? == some '/' then directory ++ name else directory ++ "/" ++ name

def settingsFile (d : Directories) : String := join (join d.settings "ossaudit") "config.toml"

def cacheFile (d : Directories) : String := join (join d.cache "ossaudit") "audit-cache.json"

/-- A directory that is given by an absolute path, or else a directory below the home directory. -/
def choose (given home : Option String) (usual fallback : String) : String :=
  match given.filter fun path => path.toList.head? == some '/' with
  | some path => path
  | none => ((home.filter (· != "")).map (join · usual)).getD fallback

/-- The directories of an environment. Without any the settings are kept in the working directory,
and cached reports with the temporary files. -/
def ofEnvironment (settings cache home : Option String) : Directories :=
  ⟨choose settings home ".config" ".", choose cache home ".cache" "/tmp"⟩

end Directories

structure Settings where
  cacheFile : Option String
  cacheTtlHours : Nat
  batchSize : Nat
  apiUrl : String
  rateLimitAsError : Bool
  /-- Patterns of artifacts that are not audited. -/
  ignored : List String
  credentials : Option Credentials
  exclusions : List Exclusion
deriving DecidableEq

namespace Credentials

open Decoder in
def fields : List (Decoder.Field Credentials) :=
  [required "username" string fun x c => { c with username := x },
    required "token" string fun x c => { c with token := x }]

def decoder : Decoder Credentials := Decoder.record "Credentials" fields ⟨"", ""⟩

end Credentials

namespace Settings

def defaultApiUrl : String := "https://ossindex.sonatype.org/api/v3"

def default (d : Directories) : Settings :=
  ⟨some d.cacheFile, 12, 128, defaultApiUrl, true, [], none, []⟩

/-- The cache file to use; an empty path switches the cache off. -/
def cacheLocation (s : Settings) : Option String := s.cacheFile.filter (· != "")

/-- The credentials to use, if they are complete. -/
def usableCredentials (s : Settings) : Option Credentials := s.credentials.filter (·.isUsable)

def pathDecoder : Decoder String := fun _ j =>
  match j with
  | .string s => s.read
  | j => Decoder.mismatch "path string" j

open Decoder in
def fields : List (Decoder.Field Settings) :=
  [defaulted "cache_file" (option pathDecoder) fun x s => { s with cacheFile := x },
    defaulted "cache_ttl_hours" (natural "u64") fun x s => { s with cacheTtlHours := x },
    defaulted "max_packages_per_batch" (natural "usize") fun x s => { s with batchSize := x },
    defaulted "api_url" string fun x s => { s with apiUrl := x },
    defaulted "rate_limit_as_error" bool fun x s => { s with rateLimitAsError := x },
    defaulted "ignore" (list string) fun x s => { s with ignored := x },
    defaulted "credentials" (option Credentials.decoder) fun x s => { s with credentials := x },
    defaulted "exclusions" (list Exclusion.decoder) fun x s => { s with exclusions := x }]

/-- Fields that are missing are those of `base`. -/
def decoder (base : Settings) : Decoder Settings := Decoder.record "Config" fields base

end Settings
end DependencyAudit
