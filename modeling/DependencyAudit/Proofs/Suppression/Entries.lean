import Mathlib.Data.List.Forall2
import DependencyAudit.Proofs.Text.Pieces
import DependencyAudit.Suppression.Exclusion

/-! Which entries of an exclusion are read, and as what: those of the grammar `group:name[:version]`,
and besides these some that were mistyped. -/
namespace DependencyAudit

section mapM

variable {α β : Type} {f : α → Option β} {x : α} {xs ys : List α} {zs : List β}

theorem mapM_cons_eq_some_iff :
    (x :: xs).mapM f = some zs ↔ ∃ b bs, f x = some b ∧ xs.mapM f = some bs ∧ zs = b :: bs := by
  simp [List.mapM_cons, Option.bind_eq_some_iff, eq_comm (a := zs)]

theorem mapM_append_eq_some_iff : (xs ++ ys).mapM f = some zs ↔
    ∃ as bs, xs.mapM f = some as ∧ ys.mapM f = some bs ∧ zs = as ++ bs := by
  simp [List.mapM_append, Option.bind_eq_some_iff, eq_comm (a := zs)]

theorem mapM_eq_some_iff : xs.mapM f = some zs ↔ List.Forall₂ (fun x z => f x = some z) xs zs := by
  induction xs generalizing zs with
  | nil => cases zs <;> simp
  | cons x xs ih =>
    rw [mapM_cons_eq_some_iff, List.forall₂_cons_left_iff]
    simp only [ih]

theorem mapM_eq_none_iff : xs.mapM f = none ↔ ∃ x ∈ xs, f x = none := by
  induction xs with
  | nil => simp
  | cons x xs ih =>
    rw [List.mapM_cons]
    cases hx : f x with
    | none => simp [hx]
    | some b => cases hxs : xs.mapM f <;> simp [hx, hxs, ← ih]

end mapM

namespace Exclusion

open Coordinate (presentChars?)

variable {entry : String} {group name : List Char} {more : List (List Char)}

/-- The fields of an entry. -/
def parts (entry : String) : List (List Char) := Text.pieces (· == ':') entry.toList

theorem entry?_of_parts {entry : String} {group name : List Char} {rest : List (List Char)}
    (h : parts entry = group :: name :: rest) :
    entry? entry = (presentChars? (some name)).map fun n =>
      ⟨auditedEcosystem, presentChars? (some group), n, presentChars? rest.head?⟩ := by
  rw [parts] at h
  cases rest <;> cases hn : presentChars? (some name) <;>
    simp [h, hn, entry?, CoordinateDraft.build, Except.toOption]

/-- The text is these fields with a colon between each two. -/
structure HasFields (entry : String) (fields : List (List Char)) : Prop where
  ne_nil : fields ≠ []
  no_colon : ∀ field ∈ fields, ':' ∉ field
  text : entry.toList = Text.joinWith ':' fields

theorem hasFields_iff {fields : List (List Char)} :
    HasFields entry fields ↔ parts entry = fields := by
  constructor
  · rintro ⟨hne, hcolon, htext⟩
    rw [parts, htext, Text.pieces_joinWith hne hcolon]
  · rintro rfl
    refine ⟨Text.pieces_ne_nil _ _, fun field hfield hcolon => ?_, (Text.joinWith_pieces ':' _).symm⟩
    have hsep := (Text.of_mem_pieces hfield ':' hcolon).2
    simp at hsep

/-- There is something in the field besides blanks. -/
def IsFilled (field : List Char) : Prop := ∃ c ∈ field, Text.isBlank c = false

instance (field : List Char) : Decidable (IsFilled field) :=
  decidable_of_iff (field.any (!Text.isBlank ·) = true) (by simp [IsFilled])

/-- The text in a field without the blanks around it; in a blank field there is none. -/
def fieldText (field : List Char) : Option String :=
  if IsFilled field then some (String.ofList (Text.trim field)) else none

theorem fieldText_eq_some_iff {field : List Char} {s : String} :
    fieldText field = some s ↔ IsFilled field ∧ s = String.ofList (Text.trim field) := by
  rw [fieldText]
  split <;> simp_all [eq_comm]

theorem presentChars?_eq (field : Option (List Char)) :
    presentChars? field = field.bind fieldText := by
  refine congrArg field.bind (funext fun field => ?_)
  rw [fieldText]
  split
  · rename_i h
    obtain ⟨c, hc, hb⟩ := h
    have hc' : c ∈ (String.ofList field).toList := by rwa [String.toList_ofList]
    rw [Text.present?_of_not_blank hc' hb, String.toList_ofList]
  · rename_i h
    rw [Text.present?_eq_none_iff, String.toList_ofList]
    simpa [IsFilled] using h

/-- What an entry means that has a name, whatever its other fields are. -/
inductive Denotes (entry : String) : Coordinate → Prop
  | intro {group name : List Char} {more : List (List Char)}
      (h : HasFields entry (group :: name :: more)) (hn : IsFilled name) :
      Denotes entry ⟨auditedEcosystem, fieldText group, String.ofList (Text.trim name),
        more.head?.bind fieldText⟩

/-- The grammar: a group and a name, and behind them a version or nothing. -/
def IsEntry (entry : String) : Prop :=
  ∃ group name more, HasFields entry (group :: name :: more) ∧ IsFilled group ∧ IsFilled name ∧
    more.length ≤ 1

/-- The group is blank, or there are more than three fields, but there is a name. -/
def IsMistyped (entry : String) : Prop :=
  ∃ group name more, HasFields entry (group :: name :: more) ∧ IsFilled name ∧
    (¬IsFilled group ∨ 1 < more.length)

section Fields

variable {P : List Char → List Char → List (List Char) → Prop}

/-- What is said of the fields of an entry is said of its parts. -/
theorem exists_hasFields_iff (h : parts entry = group :: name :: more) :
    (∃ group name more, HasFields entry (group :: name :: more) ∧ P group name more) ↔
      P group name more := by
  constructor
  · rintro ⟨g, n, ms, hfields, hp⟩
    rw [hasFields_iff, h] at hfields
    cases hfields
    exact hp
  · exact fun hp => ⟨group, name, more, hasFields_iff.mpr h, hp⟩

theorem not_exists_hasFields {fields : List (List Char)} (h : parts entry = fields)
    (hlen : fields.length < 2) :
    ¬∃ group name more, HasFields entry (group :: name :: more) ∧ P group name more := by
  rintro ⟨group, name, more, hfields, -⟩
  rw [← h, hasFields_iff.mp hfields, List.length_cons, List.length_cons] at hlen
  omega

instance [∀ group name more, Decidable (P group name more)] :
    Decidable (∃ group name more, HasFields entry (group :: name :: more) ∧ P group name more) :=
  match h : parts entry with
  | [] => isFalse (not_exists_hasFields h Nat.zero_lt_two)
  | [_] => isFalse (not_exists_hasFields h Nat.one_lt_two)
  | _ :: _ :: _ => decidable_of_iff _ (exists_hasFields_iff h).symm

instance (entry : String) : Decidable (IsEntry entry) :=
  inferInstanceAs (Decidable (∃ group name more, HasFields entry (group :: name :: more) ∧
    IsFilled group ∧ IsFilled name ∧ more.length ≤ 1))

instance (entry : String) : Decidable (IsMistyped entry) :=
  inferInstanceAs (Decidable (∃ group name more, HasFields entry (group :: name :: more) ∧
    IsFilled name ∧ (¬IsFilled group ∨ 1 < more.length)))

end Fields

theorem exists_denotes_iff : (∃ c, Denotes entry c) ↔ IsEntry entry ∨ IsMistyped entry := by
  constructor
  · rintro ⟨_, @⟨group, name, more, h, hn⟩⟩
    by_cases hg : IsFilled group ∧ more.length ≤ 1
    · exact Or.inl ⟨group, name, more, h, hg.1, hn, hg.2⟩
    · rw [Decidable.not_and_iff_not_or_not, Nat.not_le] at hg
      exact Or.inr ⟨group, name, more, h, hn, hg⟩
  · rintro (⟨group, name, more, h, -, hn, -⟩ | ⟨group, name, more, h, hn, -⟩)
    · exact ⟨_, .intro h hn⟩
    · exact ⟨_, .intro h hn⟩

theorem entry?_of_hasFields (h : HasFields entry (group :: name :: more)) :
    entry? entry = (fieldText name).map fun n =>
      ⟨auditedEcosystem, fieldText group, n, more.head?.bind fieldText⟩ := by
  rw [entry?_of_parts (hasFields_iff.mp h), presentChars?_eq, presentChars?_eq, presentChars?_eq,
    Option.bind_some, Option.bind_some]

theorem entry?_eq_some_iff {c : Coordinate} : entry? entry = some c ↔ Denotes entry c := by
  constructor
  · intro h
    match hparts : parts entry with
    | [] => exact absurd hparts (Text.pieces_ne_nil _ _)
    | [field] =>
      rw [parts] at hparts
      simp [hparts, entry?] at h
    | group :: name :: more =>
      have hfields := hasFields_iff.mpr hparts
      rw [entry?_of_hasFields hfields, Option.map_eq_some_iff] at h
      obtain ⟨n, hn, rfl⟩ := h
      obtain ⟨hfilled, rfl⟩ := fieldText_eq_some_iff.mp hn
      exact .intro hfields hfilled
  · rintro ⟨h, hn⟩
    rw [entry?_of_hasFields h, fieldText_eq_some_iff.mpr ⟨hn, rfl⟩, Option.map_some]

theorem entry?_eq_none_iff : entry? entry = none ↔ ¬IsEntry entry ∧ ¬IsMistyped entry := by
  rw [← not_or, ← exists_denotes_iff, not_exists, Option.eq_none_iff_forall_ne_some]
  simp only [Ne, entry?_eq_some_iff]

/-- The rule with the given pattern. -/
def ruleOf (vid : Option String) (pattern : List Coordinate) : Rule :=
  match vid with
  | none => .ignorePackage pattern
  | some vid => .ignoreVulnerability (if pattern.isEmpty then none else some pattern) vid

theorem rule?_eq (e : Exclusion) : e.rule? = (e.packages.mapM entry?).map (ruleOf e.vid) := by
  rw [rule?]
  cases e.packages.mapM entry? <;> cases e.vid <;> rfl

theorem rule?_eq_none_iff {e : Exclusion} :
    e.rule? = none ↔ ∃ entry ∈ e.packages, ¬IsEntry entry ∧ ¬IsMistyped entry := by
  rw [rule?_eq, Option.map_eq_none_iff, mapM_eq_none_iff]
  simp only [entry?_eq_none_iff]

/-- A rule is given exactly if every entry keeps to the grammar or is mistyped so that it still has a
name. Its pattern holds one coordinate for each entry, in their order, with what stands in the first
three fields of the entry. -/
theorem entries_read_iff (e : Exclusion) :
    ((∃ r, e.rule? = some r) ↔ ∀ entry ∈ e.packages, IsEntry entry ∨ IsMistyped entry) ∧
    ∀ r, e.rule? = some r ↔
      ∃ pattern, List.Forall₂ Denotes e.packages pattern ∧ r = ruleOf e.vid pattern := by
  have hrule (r : Rule) : e.rule? = some r ↔
      ∃ pattern, List.Forall₂ Denotes e.packages pattern ∧ r = ruleOf e.vid pattern := by
    simp only [rule?_eq, Option.map_eq_some_iff, mapM_eq_some_iff, entry?_eq_some_iff,
      @eq_comm _ r]
  refine ⟨?_, hrule⟩
  rw [← Option.isSome_iff_exists, Option.isSome_iff_ne_none, Ne, rule?_eq_none_iff]
  simp only [← not_or, not_exists, not_and, not_not]

/-- An entry of a chain has a range of versions, with blanks around its fields. -/
theorem entries_read_iff_chain :
    let e : Exclusion := ⟨some "CVE-1", ["com.example:webapp: ", " org.lib : core : [1,2) "]⟩
    let pattern : List Coordinate := [⟨"maven", some "com.example", "webapp", none⟩,
      ⟨"maven", some "org.lib", "core", some "[1,2)"⟩]
    (∀ entry ∈ e.packages, IsEntry entry) ∧ (∃ r, e.rule? = some r) ∧
      e.rule? = some (.ignoreVulnerability (some pattern) "CVE-1") := by
  intro e pattern
  have hfirst : parts "com.example:webapp: " = ["com.example".toList, "webapp".toList, [' ']] := by
    decide +kernel
  have hsecond : parts " org.lib : core : [1,2) " =
      [" org.lib ".toList, " core ".toList, " [1,2) ".toList] := by
    decide +kernel
  have hentries : ∀ entry ∈ e.packages, IsEntry entry := by decide +kernel
  refine ⟨hentries, (entries_read_iff e).1.mpr fun entry he => Or.inl (hentries entry he), ?_⟩
  exact ((entries_read_iff e).2 _).mpr ⟨pattern, .cons (.intro (hasFields_iff.mpr hfirst)
    (by decide +kernel)) (.cons (.intro (hasFields_iff.mpr hsecond) (by decide +kernel)) .nil), rfl⟩

/-- A packaging before the version is taken for the version, which is passed over; and where the group is
forgotten a package without a group is meant. -/
theorem entries_read_mistyped :
    let packaged : Exclusion := ⟨none, ["org.lib:core:jar:1.0"]⟩
    let ungrouped : Exclusion := ⟨none, [":core:1.0"]⟩
    (packaged.rule? = some (.ignorePackage [⟨"maven", some "org.lib", "core", some "jar"⟩]) ∧
      ¬IsEntry "org.lib:core:jar:1.0") ∧
    ungrouped.rule? = some (.ignorePackage [⟨"maven", none, "core", some "1.0"⟩]) ∧
      ¬IsEntry ":core:1.0" := by
  decide +kernel

end Exclusion
end DependencyAudit
