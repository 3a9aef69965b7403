import Mathlib.Logic.Relation
import DependencyAudit.Proofs.Audit.Reachable
import DependencyAudit.Proofs.Suppression.Entries
import DependencyAudit.Proofs.Suppression.Filtering

/-! A suppression to which something is added means less than before: it is narrowed, never widened,
and with an entry in which no name can be found it means nothing. -/
namespace DependencyAudit

/-- The same package, and its version unless that is left open. -/
structure Coordinate.Narrows (c' c : Coordinate) : Prop where
  key : c'.key = c.key
  version : c.version = c'.version ∨ c.version = none

namespace Coordinate.Narrows

theorem refl (c : Coordinate) : c.Narrows c := ⟨rfl, Or.inl rfl⟩

theorem agrees {c' c d : Coordinate} (h : c'.Narrows c) (hd : c'.agrees d = true) :
    c.agrees d = true := by
  obtain ⟨hkey, hversion⟩ := h
  rw [Coordinate.agrees, Bool.and_eq_true] at hd ⊢
  refine ⟨hkey ▸ hd.1, ?_⟩
  rcases hversion with hversion | hversion
  · rw [hversion]
    exact hd.2
  · rw [hversion]
    rfl

end Coordinate.Narrows

namespace Suppression

/-- Some run of the longer pattern narrows the shorter one. -/
def PatternNarrows (pattern' pattern : List Coordinate) : Prop :=
  ∃ before run after, pattern' = before ++ (run ++ after) ∧
    List.Forall₂ Coordinate.Narrows run pattern

theorem forall₂_narrows_refl (pattern : List Coordinate) :
    List.Forall₂ Coordinate.Narrows pattern pattern :=
  List.forall₂_same.mpr fun c _ => .refl c

theorem PatternNarrows.ne_nil {pattern' pattern : List Coordinate}
    (h : PatternNarrows pattern' pattern) (hne : pattern ≠ []) : pattern' ≠ [] := by
  obtain ⟨before, run, after, rfl, hrun⟩ := h
  intro hnil
  obtain rfl : run = [] := by simp_all
  exact hne (List.forall₂_nil_left_iff.mp hrun)

theorem Agree.of_narrows {run pattern chain : List Coordinate}
    (hn : List.Forall₂ Coordinate.Narrows run pattern) (h : Agree run chain) :
    Agree pattern chain := by
  induction hn generalizing chain with
  | nil => exact h
  | cons hc _ ih =>
    cases h with
    | cons hd hrest => exact .cons (hc.agrees hd) (ih hrest)

theorem Agree.exists_append {xs ys chain : List Coordinate} (h : Agree (xs ++ ys) chain) :
    ∃ left right, chain = left ++ right ∧ Agree xs left ∧ Agree ys right := by
  refine ⟨chain.take xs.length, chain.drop xs.length, (List.take_append_drop _ _).symm, ?_, ?_⟩
  · simpa [Agree] using List.forall₂_take xs.length h
  · simpa [Agree] using List.forall₂_drop xs.length h

/-- Where the longer pattern occurs, the shorter one does. -/
theorem Occurs.of_narrows {pattern' pattern chain : List Coordinate} (hne : pattern ≠ [])
    (hn : PatternNarrows pattern' pattern) (h : Occurs pattern' chain) : Occurs pattern chain := by
  obtain ⟨before, run, after, rfl, hrun⟩ := hn
  obtain ⟨-, left, found, right, rfl, hfound⟩ := h
  -- Of the run that was found, the middle agrees with what narrows the shorter pattern.
  obtain ⟨found₁, found, rfl, -, hfound⟩ := hfound.exists_append
  obtain ⟨found₂, found₃, rfl, hfound₂, -⟩ := hfound.exists_append
  exact ⟨hne, left ++ found₁, found₂, found₃ ++ right, by simp, .of_narrows hrun hfound₂⟩

end Suppression

namespace Rule

open Suppression

/-- A rule about the same findings on fewer chains. -/
inductive Narrows : Rule → Rule → Prop
  | package {pattern' pattern : List Coordinate} (hne : pattern ≠ [])
      (h : PatternNarrows pattern' pattern) :
      Narrows (ignorePackage pattern') (ignorePackage pattern)
  | everywhere (pattern : Option (List Coordinate)) (id : String) :
      Narrows (ignoreVulnerability pattern id) (ignoreVulnerability none id)
  | onPath {pattern' pattern : List Coordinate} (hne : pattern ≠ [])
      (h : PatternNarrows pattern' pattern) (id : String) :
      Narrows (ignoreVulnerability (some pattern') id) (ignoreVulnerability (some pattern) id)

theorem Narrows.suppresses {r' r : Rule} (h : r'.Narrows r) {path : InclusionPath} {id : String}
    (hs : r'.suppresses path id = true) : r.suppresses path id = true := by
  rw [suppresses_iff] at hs ⊢
  cases h with
  | package hne h =>
    cases hs with
    | package hs => exact .package (hs.of_narrows hne h)
  | everywhere pattern ignored =>
    obtain rfl : ignored = id := by cases hs <;> rfl
    exact .everywhere
  | onPath hne h ignored =>
    cases hs with
    | onPath hs => exact .onPath (hs.of_narrows hne h)

end Rule

namespace Exclusion

open Coordinate (presentChars?)

/-- A colon and any text are fields behind those of an entry. -/
theorem parts_append (entry text : String) :
    parts (entry ++ ":" ++ text) = parts entry ++ parts text := by
  simp [parts, Text.pieces_append (p := (· == ':')) (beq_self_eq_true ':')]

theorem exists_parts {entry : String} (h : ':' ∈ entry.toList) :
    ∃ group name rest, parts entry = group :: name :: rest := by
  obtain ⟨a, b, hab⟩ := List.append_of_mem h
  obtain ⟨w, ws, hw⟩ := List.exists_cons_of_ne_nil (Text.pieces_ne_nil (· == ':') a)
  obtain ⟨v, vs, hv⟩ := List.exists_cons_of_ne_nil (Text.pieces_ne_nil (· == ':') b)
  have hcut : parts entry = w :: (ws ++ v :: vs) := by
    rw [parts, hab, Text.pieces_append (p := (· == ':')) (beq_self_eq_true ':'), hw, hv]
    rfl
  cases ws with
  | nil => exact ⟨w, v, vs, hcut⟩
  | cons u us => exact ⟨w, u, us ++ v :: vs, hcut⟩

/-- An entry with a group and a name is narrowed by a colon and any text, if it can still be read. -/
theorem entry?_append {entry text : String} (hcolon : ':' ∈ entry.toList) {c' : Coordinate}
    (h : entry? (entry ++ ":" ++ text) = some c') : ∃ c, entry? entry = some c ∧ c'.Narrows c := by
  obtain ⟨group, name, rest, hparts⟩ := exists_parts hcolon
  have happend := parts_append entry text
  rw [hparts, List.cons_append, List.cons_append] at happend
  rw [entry?_of_parts happend] at h
  obtain ⟨n, hn, rfl⟩ := Option.map_eq_some_iff.mp h
  refine ⟨⟨auditedEcosystem, presentChars? (some group), n, presentChars? rest.head?⟩, ?_, rfl, ?_⟩
  · rw [entry?_of_parts hparts, hn, Option.map_some]
  -- The version stands in the third field, which is the added text only if there was none.
  cases rest with
  | nil => exact Or.inr rfl
  | cons version rest => exact Or.inl rfl

/-- There is a finding or a package that is meant. -/
def NamesSomething (e : Exclusion) : Prop := e.vid ≠ none ∨ e.packages ≠ []

instance (e : Exclusion) : Decidable e.NamesSomething :=
  inferInstanceAs (Decidable (_ ∨ _))

/-- Something is added to an exclusion: an entry before or behind the others, or a field to an entry
that has a group and a name. -/
inductive WritesMore : Exclusion → Exclusion → Prop
  | before (vid : Option String) (packages : List String) (entry : String) :
      WritesMore ⟨vid, packages⟩ ⟨vid, entry :: packages⟩
  | behind (vid : Option String) (packages : List String) (entry : String) :
      WritesMore ⟨vid, packages⟩ ⟨vid, packages ++ [entry]⟩
  | field (vid : Option String) (left right : List String) (entry text : String)
      (h : ':' ∈ entry.toList) :
      WritesMore ⟨vid, left ++ entry :: right⟩ ⟨vid, left ++ (entry ++ ":" ++ text) :: right⟩

theorem WritesMore.namesSomething {e e' : Exclusion} (h : WritesMore e e') : e'.NamesSomething := by
  cases h <;> simp [NamesSomething]

theorem ruleOf_narrows {vid : Option String} {pattern' pattern : List Coordinate}
    (hsome : vid ≠ none ∨ pattern ≠ []) (h : Suppression.PatternNarrows pattern' pattern) :
    (ruleOf vid pattern').Narrows (ruleOf vid pattern) := by
  by_cases hne : pattern = []
  · -- The rule held everywhere, as it names a finding; with any pattern it holds on fewer chains.
    cases vid with
    | none => simp [hne] at hsome
    | some vid =>
      rw [hne]
      exact .everywhere _ vid
  · have hne' := h.ne_nil hne
    cases vid with
    | none => exact .package hne h
    | some vid =>
      rw [ruleOf, ruleOf, List.isEmpty_eq_false_iff.mpr hne, List.isEmpty_eq_false_iff.mpr hne']
      exact .onPath hne h vid

/-- The entries after an addition give a pattern that narrows the one of the entries before it. -/
theorem WritesMore.exists_pattern {e e' : Exclusion} (h : WritesMore e e')
    {pattern' : List Coordinate} (hp : e'.packages.mapM entry? = some pattern') :
    ∃ pattern, e.packages.mapM entry? = some pattern ∧
      Suppression.PatternNarrows pattern' pattern := by
  cases h with
  | before vid packages entry =>
    obtain ⟨c, pattern, -, hpattern, rfl⟩ := mapM_cons_eq_some_iff.mp hp
    exact ⟨pattern, hpattern, [c], pattern, [], by simp, Suppression.forall₂_narrows_refl pattern⟩
  | behind vid packages entry =>
    obtain ⟨pattern, more, hpattern, -, rfl⟩ := mapM_append_eq_some_iff.mp hp
    exact ⟨pattern, hpattern, [], pattern, more, rfl, Suppression.forall₂_narrows_refl pattern⟩
  | field vid left right entry text hcolon =>
    obtain ⟨cs, rest, hcs, hrest, rfl⟩ := mapM_append_eq_some_iff.mp hp
    obtain ⟨c', ds, hc', hds, rfl⟩ := mapM_cons_eq_some_iff.mp hrest
    obtain ⟨c, hc, hn⟩ := entry?_append hcolon hc'
    refine ⟨cs ++ c :: ds, ?_, [], cs ++ c' :: ds, [], by simp, ?_⟩
    · exact mapM_append_eq_some_iff.mpr
        ⟨cs, c :: ds, hcs, mapM_cons_eq_some_iff.mpr ⟨c, ds, hc, hds, rfl⟩, rfl⟩
    · exact List.rel_append (Suppression.forall₂_narrows_refl cs)
        (.cons hn (Suppression.forall₂_narrows_refl ds))

theorem WritesMore.vid_eq {e e' : Exclusion} (h : WritesMore e e') : e'.vid = e.vid := by
  cases h <;> rfl

/-- One addition narrows the rule. -/
theorem WritesMore.exists_rule {e e' : Exclusion} (h : WritesMore e e') (hsome : e.NamesSomething)
    {r' : Rule} (hr' : e'.rule? = some r') : ∃ r, e.rule? = some r ∧ r'.Narrows r := by
  rw [rule?_eq] at hr'
  obtain ⟨pattern', hp', rfl⟩ := Option.map_eq_some_iff.mp hr'
  obtain ⟨pattern, hp, hn⟩ := h.exists_pattern hp'
  refine ⟨ruleOf e.vid pattern, by rw [rule?_eq, hp, Option.map_some], ?_⟩
  rw [h.vid_eq]
  refine ruleOf_narrows (hsome.imp_right fun hne => ?_) hn
  rintro rfl
  cases hpackages : e.packages with
  | nil => exact hne hpackages
  | cons entry packages =>
    rw [hpackages] at hp
    obtain ⟨_, _, -, -, hnil⟩ := mapM_cons_eq_some_iff.mp hp
    cases hnil

/-- However much is added, bit by bit, what is suppressed then was suppressed before. -/
theorem exists_rule_of_writes {e e' : Exclusion} (h : Relation.ReflTransGen WritesMore e e')
    (hsome : e.NamesSomething) {r' : Rule} (hr' : e'.rule? = some r') :
    ∃ r, e.rule? = some r ∧
      ∀ path id, r'.suppresses path id = true → r.suppresses path id = true := by
  induction h using Relation.ReflTransGen.head_induction_on with
  | refl => exact ⟨r', hr', fun _ _ hs => hs⟩
  | head hstep _ ih =>
    obtain ⟨r₁, hr₁, hsuppressed⟩ := ih hstep.namesSomething
    obtain ⟨r, hr, hn⟩ := hstep.exists_rule hsome hr₁
    exact ⟨r, hr, fun path id hs => hn.suppresses (hsuppressed path id hs)⟩

/-- Writing more never widens an exclusion of something: whatever the additions are, entries before
and behind the others or fields of entries, a rule is given after them only if one was given before
them, and it suppresses nothing that the one before would not suppress. No rule is given just where
an entry is neither of the grammar nor mistyped so that it still has a name. -/
theorem additions_never_widen (e e' : Exclusion) :
    (e.rule? = none ↔ ∃ entry ∈ e.packages, ¬IsEntry entry ∧ ¬IsMistyped entry) ∧
    (e.NamesSomething → Relation.ReflTransGen WritesMore e e' →
      ∀ r', e'.rule? = some r' → ∃ r, e.rule? = some r ∧
        ∀ path id, r'.suppresses path id = true → r.suppresses path id = true) :=
  ⟨rule?_eq_none_iff, fun hsome h _ hr' => exists_rule_of_writes h hsome hr'⟩

/-- A package is given a version, and then one through which it must come; a third entry has no
name. -/
theorem additions_never_widen_to_chain :
    let lib : Coordinate := ⟨"maven", some "org", "lib", none⟩
    let e : Exclusion := ⟨none, ["org:lib"]⟩
    let e' : Exclusion := ⟨none, ["com:app", "org:lib" ++ ":" ++ "[1,2)"]⟩
    let r' : Rule := .ignorePackage [⟨"maven", some "com", "app", none⟩,
      { lib with version := some "[1,2)" }]
    e.NamesSomething ∧ Relation.ReflTransGen WritesMore e e' ∧ e'.rule? = some r' ∧
      (∀ path id, r'.suppresses path id = true →
        (Rule.ignorePackage [lib]).suppresses path id = true) ∧
      (⟨none, e'.packages ++ ["org: :1"]⟩ : Exclusion).rule? = none := by
  intro lib e e' r'
  have hsome : e.NamesSomething := by decide
  have hwrites : Relation.ReflTransGen WritesMore e e' :=
    .tail (.single (.field none [] [] "org:lib" "[1,2)" (by decide +kernel))) (.before none _ _)
  have hr' : e'.rule? = some r' := by decide +kernel
  obtain ⟨r, hr, hsuppressed⟩ := (additions_never_widen e e').2 hsome hwrites r' hr'
  obtain rfl : Rule.ignorePackage [lib] = r := by
    rw [← Option.some_inj, ← hr]
    decide +kernel
  have hnameless : ¬IsEntry "org: :1" ∧ ¬IsMistyped "org: :1" := by decide +kernel
  refine ⟨hsome, hwrites, hr', hsuppressed, ?_⟩
  exact (additions_never_widen _ e).1.mpr ⟨"org: :1", by simp, hnameless⟩

/-- An entry that is not of the grammar does not make its exclusion void where there is a name in it. Of
four fields the last is passed over, and a forgotten group stands for none. -/
theorem misspelled_entry_suppresses :
    let packaged : Exclusion := ⟨none, ["org.lib:core:jar:1.0"]⟩
    let ungrouped : Exclusion := ⟨some "CVE-1", [":core:1.0"]⟩
    let core : Coordinate := ⟨"maven", some "org.lib", "core", some "jar"⟩
    (∃ entry ∈ packaged.packages, ¬IsEntry entry) ∧ (∃ entry ∈ ungrouped.packages, ¬IsEntry entry) ∧
      (packaged.rule?.map (·.suppresses (.single core) "CVE-1")) = some true ∧
      (ungrouped.rule?.map (·.suppresses (.single ⟨"maven", none, "core", some "1.0"⟩) "CVE-1")) =
        some true := by
  decide +kernel

end Exclusion

/-- Additions to one exclusion of the settings never suppress more of an audit. -/
theorem Settings.suppresses_filter_of_writes {settings : Settings} {left right : List Exclusion}
    {e e' : Exclusion} (hsome : e.NamesSomething)
    (h : Relation.ReflTransGen Exclusion.WritesMore e e') {path : InclusionPath} {id : String}
    (hmore : { settings with exclusions := left ++ e' :: right }.filter.suppresses path id = true) :
    { settings with exclusions := left ++ e :: right }.filter.suppresses path id = true := by
  obtain ⟨r', hr', hs⟩ := List.any_eq_true.mp hmore
  obtain ⟨x, hx, hrule⟩ := List.mem_filterMap.mp hr'
  rw [Filter.suppresses, List.any_eq_true]
  rw [List.mem_append, List.mem_cons] at hx
  rcases hx with hx | rfl | hx
  · exact ⟨r', List.mem_filterMap.mpr ⟨x, List.mem_append_left _ hx, hrule⟩, hs⟩
  · obtain ⟨r, hr, hsuppressed⟩ := Exclusion.exists_rule_of_writes h hsome hrule
    exact ⟨r, List.mem_filterMap.mpr ⟨e, by simp, hr⟩, hsuppressed path id hs⟩
  · exact ⟨r', List.mem_filterMap.mpr
      ⟨x, List.mem_append_right _ (List.mem_cons_of_mem _ hx), hrule⟩, hs⟩

end DependencyAudit
