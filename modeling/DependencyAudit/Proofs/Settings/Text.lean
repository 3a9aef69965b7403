import DependencyAudit.Proofs.Toml.Tables
import DependencyAudit.Settings.Text

/-! Settings are read back from their text, except that a setting that is not there becomes that of the
defaults. -/
namespace DependencyAudit

open Toml

def Credentials.entries (c : Credentials) : Toml.Entries :=
  [("username", .string c.username), ("token", .string c.token)]

def Exclusion.entries (e : Exclusion) : Toml.Entries :=
  (e.vid.map fun vid => ("vid", .string vid)).toList ++
    [("packages", .array (e.packages.map .string))]

namespace Settings

/-- What stands before all tables. -/
def topEntries (s : Settings) : Toml.Entries :=
  (s.cacheFile.map fun path => ("cache_file", .string path)).toList ++
  [("cache_ttl_hours", .integer s.cacheTtlHours),
    ("max_packages_per_batch", .integer s.batchSize), ("api_url", .string s.apiUrl),
    ("rate_limit_as_error", .bool s.rateLimitAsError), ("ignore", .array (s.ignored.map .string))] ++
  if s.exclusions.isEmpty then [("exclusions", .array [])] else []

def sections (s : Settings) : List Section :=
  (s.credentials.map fun c => ⟨["credentials"], false, pairsOf c.entries⟩).toList ++
    s.exclusions.map fun e => ⟨["exclusions"], true, pairsOf e.entries⟩

/-- The document of the settings. -/
def entries (s : Settings) : Toml.Entries :=
  s.topEntries ++
  (s.credentials.map fun c => ("credentials", .table .header c.entries)).toList ++
  if s.exclusions.isEmpty then []
  else [("exclusions", .tables (s.exclusions.map (·.entries)))]

/-- Whether a name can stand without quotes. -/
def isBareName (name : String) : Bool := !name.toList.isEmpty && name.toList.all isBare

theorem isName_of_isBareName (name : String) (h : isBareName name = true) : IsName name.toList := by
  simp only [isBareName, Bool.and_eq_true, Bool.not_eq_true', List.isEmpty_eq_false_iff,
    List.all_eq_true] at h
  exact ⟨h.1, h.2⟩

theorem spells_pair (name : String) (hn : isBareName name = true) {text : List Char} {n : Node}
    (ht : IsText n text) : Spells (pairChars name.toList text) [.pair ([name], n)] := by
  simpa using Spells.pair (isName_of_isBareName name hn) ht .nil

theorem spells_stringPair (name : String) (hn : isBareName name = true) (value : String) :
    Spells (stringPair name value) [.pair ([name], .string value)] :=
  spells_pair name hn (isText_stringChars value)

theorem spells_stringsPair (name : String) (hn : isBareName name = true) (values : List String) :
    Spells (stringsPair name values) [.pair ([name], .array (values.map .string))] :=
  spells_pair name hn (isText_arrayChars values)

theorem spells_numberPair (name : String) (hn : isBareName name = true) {n : ℕ}
    (h : (n : Int) ≤ greatestInteger) : Spells (numberPair name n) [.pair ([name], .integer n)] :=
  spells_pair name hn (isText_decimal h)

theorem spells_credentialsChars (c : Credentials) :
    Spells (credentialsChars c) (sectionLines ⟨["credentials"], false, pairsOf c.entries⟩) := by
  have hheader : Spells (tableHeader "credentials".toList) [.header ["credentials"] false] := by
    simpa using Spells.table (isName_of_isBareName "credentials" (by decide)) .nil
  exact (hheader.append (spells_stringPair "username" (by decide) c.username)).append
    (spells_stringPair "token" (by decide) c.token)

theorem spells_exclusionChars (e : Exclusion) :
    Spells (exclusionChars e) (sectionLines ⟨["exclusions"], true, pairsOf e.entries⟩) := by
  have hheader : Spells (elementHeader "exclusions".toList) [.header ["exclusions"] true] := by
    simpa using Spells.element (isName_of_isBareName "exclusions" (by decide)) .nil
  have hpackages := spells_stringsPair "packages" (by decide) e.packages
  obtain ⟨vid, packages⟩ := e
  cases vid with
  | none => exact (hheader.append .nil).append hpackages
  | some vid => exact (hheader.append (spells_stringPair "vid" (by decide) vid)).append hpackages

theorem spells_exclusions (es : List Exclusion) :
    Spells (es.flatMap exclusionChars)
      ((es.map fun e => Section.mk ["exclusions"] true (pairsOf e.entries)).flatMap sectionLines) := by
  induction es with
  | nil => exact .nil
  | cons e es ih => exact (spells_exclusionChars e).append ih

/-- The numbers are those that a settings file can hold. -/
structure Writable (s : Settings) : Prop where
  cacheTtlHours_le : (s.cacheTtlHours : Int) ≤ greatestInteger
  batchSize_le : (s.batchSize : Int) ≤ greatestInteger

theorem spells_chars {s : Settings} (h : s.Writable) :
    Spells s.chars ((pairsOf s.topEntries).map .pair ++ s.sections.flatMap sectionLines) := by
  have hcache : Spells ((s.cacheFile.map (stringPair "cache_file")).getD [])
      ((pairsOf (s.cacheFile.map fun path => ("cache_file", Node.string path)).toList).map .pair) := by
    cases s.cacheFile with
    | none => exact .nil
    | some path => exact spells_stringPair "cache_file" (by decide) path
  have httl := spells_numberPair "cache_ttl_hours" (by decide) h.cacheTtlHours_le
  have hsize := spells_numberPair "max_packages_per_batch" (by decide) h.batchSize_le
  have hurl := spells_stringPair "api_url" (by decide) s.apiUrl
  have hlimit := spells_pair "rate_limit_as_error" (by decide) (isText_boolChars s.rateLimitAsError)
  have hignored := spells_stringsPair "ignore" (by decide) s.ignored
  have hnone : Spells (if s.exclusions.isEmpty then stringsPair "exclusions" [] else [])
      ((pairsOf (if s.exclusions.isEmpty then [("exclusions", Node.array [])] else [])).map .pair) := by
    split
    · exact spells_stringsPair "exclusions" (by decide) []
    · exact .nil
  have hcredentials : Spells ((s.credentials.map credentialsChars).getD [])
      ((s.credentials.map fun c =>
        Section.mk ["credentials"] false (pairsOf c.entries)).toList.flatMap sectionLines) := by
    cases s.credentials with
    | none => exact .nil
    | some c => simpa using spells_credentialsChars c
  have hall := (((((((hcache.append httl).append hsize).append hurl).append hlimit).append
    hignored).append hnone).append hcredentials).append (spells_exclusions s.exclusions)
  simpa [chars, topEntries, sections, pairsOf] using hall

theorem nodup_topEntries (s : Settings) : (s.topEntries.map (·.1)).Nodup := by
  unfold topEntries
  cases s.cacheFile <;> cases s.exclusions.isEmpty <;> simp

theorem nodup_entries_exclusion (e : Exclusion) : (e.entries.map (·.1)).Nodup := by
  unfold Exclusion.entries
  cases e.vid <;> simp

theorem foldlM_sections (s : Settings) :
    s.sections.foldlM (fun es sec => sec.addTo es) s.topEntries = some s.entries := by
  have htables : (s.credentials.map fun c =>
      Section.mk ["credentials"] false (pairsOf c.entries)).toList.foldlM
        (fun es sec => sec.addTo es) s.topEntries =
      some (s.topEntries ++
        (s.credentials.map fun c => ("credentials", Node.table .header c.entries)).toList) := by
    have hnew : "credentials" ∉ s.topEntries.map (·.1) := by
      unfold topEntries
      cases s.cacheFile <;> cases s.exclusions.isEmpty <;> simp
    cases s.credentials with
    | none => simp
    | some c =>
      have hnames : (c.entries.map (·.1)).Nodup := by simp [Credentials.entries]
      simp [addTo_table hnew hnames]
  rw [sections, List.foldlM_append, htables, Option.bind_eq_bind, Option.bind_some]
  by_cases hx : s.exclusions = []
  · simp [entries, hx]
  · have hnew : "exclusions" ∉ (s.topEntries ++
        (s.credentials.map fun c => ("credentials", Node.table .header c.entries)).toList).map (·.1) := by
      unfold topEntries
      cases s.cacheFile <;> cases s.credentials <;> simp [hx]
    have hnames : ∀ inner ∈ s.exclusions.map (·.entries), (inner.map (·.1)).Nodup := by
      intro inner hm
      obtain ⟨e, -, rfl⟩ := List.mem_map.mp hm
      exact nodup_entries_exclusion e
    have hadd := addTo_elements_new hnew hnames (by simpa using hx)
    rw [List.map_map] at hadd
    simpa [entries, hx, Function.comp_def] using hadd

theorem ofText_chars {s : Settings} (h : s.Writable) :
    Toml.ofText (String.ofList s.chars) = some s.entries := by
  have hmark : dropMark s.chars = s.chars := by
    unfold chars
    cases s.cacheFile <;> rfl
  rw [ofText_of_spells (spells_chars h) hmark (nodup_topEntries s), foldlM_sections]

section Fields

open FromToml

theorem mapM_map {α : Type} {f : Node → Option α} {g : α → Node} (h : ∀ x, f (g x) = some x)
    (xs : List α) : (xs.map g).mapM f = some xs := by
  induction xs with
  | nil => rfl
  | cons x xs ih =>
    rw [List.map_cons, List.mapM_cons, h, ih]
    rfl

theorem optional?_some {α : Type} (f : Node → Option α) (n : Node) :
    optional? f (some n) = (f n).map some := rfl

theorem optional?_map {α : Type} {f : Node → Option α} {g : α → Node} (h : ∀ x, f (g x) = some x)
    (x : Option α) : optional? f (x.map g) = some x := by
  cases x with
  | none => rfl
  | some x => simp [optional?, h]

theorem list?_strings (values : List String) :
    list? string? (.array (values.map .string)) = some values := by
  simp [list?, items?, mapM_map (f := string?) (g := .string) fun _ => rfl]

theorem credentials?_entries (c : Credentials) :
    credentials? (.table .header c.entries) = some c := by
  rfl

theorem exclusion?_entries (e : Exclusion) : exclusion? (.table .header e.entries) = some e := by
  obtain ⟨vid, packages⟩ := e
  cases vid <;>
    simp [exclusion?, Exclusion.entries, fields?, Toml.Entries.get?, optional?, string?, list?_strings]

theorem list?_exclusions (es : List Exclusion) :
    list? exclusion? (.tables (es.map (·.entries))) = some es := by
  have h := mapM_map (f := exclusion?) (g := fun e => .table .header e.entries) exclusion?_entries es
  simp [list?, items?, Function.comp_def, h]

/-- What stands under each name. -/
theorem get?_entries (s : Settings) :
    let field := Toml.Entries.get? s.entries
    field "cache_file" = s.cacheFile.map .string ∧
    field "cache_ttl_hours" = some (.integer s.cacheTtlHours) ∧
    field "max_packages_per_batch" = some (.integer s.batchSize) ∧
    field "api_url" = some (.string s.apiUrl) ∧
    field "rate_limit_as_error" = some (.bool s.rateLimitAsError) ∧
    field "ignore" = some (.array (s.ignored.map .string)) ∧
    field "credentials" = s.credentials.map (fun c => .table .header c.entries) ∧
    field "exclusions" = some (if s.exclusions.isEmpty then .array [] else
      .tables (s.exclusions.map (·.entries))) := by
  unfold entries topEntries
  cases s.cacheFile <;> cases s.credentials <;> cases s.exclusions <;> simp [Toml.Entries.get?]

/-- Every setting of the document is taken over, and those that are not there are the base's. -/
theorem ofEntries_entries (base s : Settings) :
    base.ofEntries s.entries = some { s with
      cacheFile := s.cacheFile <|> base.cacheFile
      credentials := s.credentials <|> base.credentials } := by
  obtain ⟨hcache, httl, hsize, hurl, hlimit, hignored, hcredentials, hexclusions⟩ := get?_entries s
  have hcache' : optional? string? (s.cacheFile.map .string) = some s.cacheFile :=
    optional?_map (g := .string) (fun _ => rfl) s.cacheFile
  have hcredentials' := optional?_map credentials?_entries s.credentials
  have hexclusions' : list? exclusion? (if s.exclusions.isEmpty then .array [] else
      .tables (s.exclusions.map (·.entries))) = some s.exclusions := by
    cases hx : s.exclusions with
    | nil => rfl
    | cons e es => simpa using list?_exclusions (e :: es)
  simp only [ofEntries, hcache, httl, hsize, hurl, hlimit, hignored, hcredentials, hexclusions,
    hcache', hcredentials', optional?_some, natural?, string?, bool?, list?_strings, hexclusions',
    Option.bind_eq_bind, Option.bind_some, Option.map_some, Option.getD_some]
  rfl

end Fields

/-- Settings that are written and read again are the same, but for a cache file and credentials that
are not there, which the base may have. -/
theorem ofText_text {s : Settings} (h : s.Writable) (base : Settings) :
    ∃ text, s.text? = some text ∧ base.ofText text = some { s with
      cacheFile := s.cacheFile <|> base.cacheFile
      credentials := s.credentials <|> base.credentials } := by
  refine ⟨_, if_pos ⟨h.cacheTtlHours_le, h.batchSize_le⟩, ?_⟩
  rw [ofText, ofText_chars h]
  exact ofEntries_entries base s

end Settings
end DependencyAudit
