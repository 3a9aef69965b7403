import Mathlib.Data.List.Forall2
import DependencyAudit.Suppression.Rule

/-! What rules leave of a report: the findings that no rule suppresses, taken one by one, in whatever
order the rules stand. -/
namespace DependencyAudit

namespace Suppression

/-- The coordinates of a run agree with those of a pattern one by one. -/
def Agree : List Coordinate → List Coordinate → Prop := List.Forall₂ fun p c => p.agrees c = true

/-- Some run of the chain agrees with the pattern, which is not empty. -/
def Occurs (pattern chain : List Coordinate) : Prop :=
  pattern ≠ [] ∧ ∃ before run after, chain = before ++ (run ++ after) ∧ Agree pattern run

theorem startsWith_iff {pattern chain : List Coordinate} :
    startsWith pattern chain = true ↔ ∃ run after, chain = run ++ after ∧ Agree pattern run := by
  fun_induction startsWith pattern chain with
  | case1 chain => exact iff_of_true rfl ⟨[], chain, rfl, .nil⟩
  | case2 p pattern => simp [Agree]
  | case3 p pattern c chain ih =>
    rw [Bool.and_eq_true, ih]
    constructor
    · rintro ⟨hc, run, after, rfl, hrun⟩
      exact ⟨c :: run, after, rfl, .cons hc hrun⟩
    · rintro ⟨_, after, he, hrun⟩
      cases hrun with
      | cons hc hrun =>
        cases he
        exact ⟨hc, _, after, rfl, hrun⟩

theorem hasRun_iff {pattern chain : List Coordinate} : hasRun pattern chain = true ↔
    ∃ before run after, chain = before ++ (run ++ after) ∧ Agree pattern run := by
  induction chain with
  | nil =>
    rw [hasRun, startsWith_iff]
    constructor
    · rintro ⟨run, after, he, hrun⟩
      exact ⟨[], run, after, he, hrun⟩
    · rintro ⟨before, run, after, he, hrun⟩
      exact ⟨run, after, (List.append_eq_nil_iff.mp he.symm).2.symm, hrun⟩
  | cons c chain ih =>
    rw [hasRun, Bool.or_eq_true, startsWith_iff, ih]
    constructor
    · rintro (⟨run, after, he, hrun⟩ | ⟨before, run, after, rfl, hrun⟩)
      · exact ⟨[], run, after, he, hrun⟩
      · exact ⟨c :: before, run, after, rfl, hrun⟩
    · rintro ⟨before, run, after, he, hrun⟩
      cases before with
      | nil => exact Or.inl ⟨run, after, he, hrun⟩
      | cons d before =>
        cases he
        exact Or.inr ⟨before, run, after, rfl, hrun⟩

theorem found_iff {pattern : List Coordinate} {path : InclusionPath} :
    found pattern path = true ↔ Occurs pattern path.coordinates := by
  simp [found, Occurs, hasRun_iff]

end Suppression

namespace Rule

open Suppression

/-- When a rule suppresses a finding on a path. -/
inductive Suppresses (path : InclusionPath) (id : String) : Rule → Prop
  | package {pattern : List Coordinate} (h : Occurs pattern path.coordinates) :
      Suppresses path id (ignorePackage pattern)
  | everywhere : Suppresses path id (ignoreVulnerability none id)
  | onPath {pattern : List Coordinate} (h : Occurs pattern path.coordinates) :
      Suppresses path id (ignoreVulnerability (some pattern) id)

theorem suppresses_iff {path : InclusionPath} {id : String} {r : Rule} :
    r.suppresses path id = true ↔ r.Suppresses path id := by
  constructor
  · intro h
    cases r with
    | ignorePackage pattern => exact .package (found_iff.mp h)
    | ignoreVulnerability pattern ignored =>
      cases pattern with
      | none =>
        obtain rfl : ignored = id := by simpa [suppresses] using h
        exact .everywhere
      | some pattern =>
        obtain ⟨rfl, hfound⟩ : ignored = id ∧ found pattern path = true := by
          simpa [suppresses] using h
        exact .onPath (found_iff.mp hfound)
  · intro h
    cases h with
    | package h => exact found_iff.mpr h
    | everywhere => simp [suppresses]
    | onPath h => simp [suppresses, found_iff.mpr h]

instance (path : InclusionPath) (id : String) (r : Rule) : Decidable (r.Suppresses path id) :=
  decidable_of_iff (r.suppresses path id = true) suppresses_iff

end Rule

namespace Filter

theorem suppresses_of_ignoresPackage {f : Filter} {path : InclusionPath}
    (h : f.ignoresPackage path = true) (id : String) : f.suppresses path id = true := by
  obtain ⟨r, hr, hi⟩ := List.any_eq_true.mp h
  refine List.any_eq_true.mpr ⟨r, hr, ?_⟩
  cases r with
  | ignorePackage pattern => exact hi
  | ignoreVulnerability pattern ignored => cases hi

/-- What is left is what no rule suppresses, also where a rule ignores the whole package. -/
theorem apply_eq (f : Filter) (p : PackageReport) (path : InclusionPath) :
    f.apply p path = p.keeping (p.vulnerabilities.filter fun v => !f.suppresses path v.id) := by
  unfold apply
  split
  · rename_i h
    simp [suppresses_of_ignoresPackage h]
  · rfl

theorem suppresses_eq_false_iff {f : Filter} {path : InclusionPath} {id : String} :
    f.suppresses path id = false ↔ ∀ r ∈ f.rules, ¬r.Suppresses path id := by
  simp only [suppresses, List.any_eq_false, Rule.suppresses_iff]

/-- The findings are judged one by one: what is left of a report are those that no rule suppresses,
in their order, and all are counted that were there. -/
theorem apply_one_by_one (f : Filter) (p : PackageReport) (path : InclusionPath) :
    f.apply p path = { p with
      unfilteredCount := p.vulnerabilities.length
      vulnerabilities := p.vulnerabilities.filter fun v =>
        ∀ r ∈ f.rules, ¬r.Suppresses path v.id } := by
  rw [apply_eq, PackageReport.keeping]
  congr 1
  refine List.filter_congr fun v _ => ?_
  rw [Bool.eq_iff_iff, Bool.not_eq_true', suppresses_eq_false_iff, decide_eq_true_iff]

theorem suppresses_congr {R R' : List Rule} (h : ∀ r, r ∈ R' ↔ r ∈ R) (path : InclusionPath)
    (id : String) : suppresses ⟨R'⟩ path id = suppresses ⟨R⟩ path id := by
  rw [Bool.eq_iff_iff, suppresses, suppresses, List.any_eq_true, List.any_eq_true]
  simp only [h]

theorem mem_vulnerabilities_apply {f : Filter} {p : PackageReport} {path : InclusionPath}
    {v : Vulnerability} : v ∈ (f.apply p path).vulnerabilities ↔
      v ∈ p.vulnerabilities ∧ f.suppresses path v.id = false := by
  simp [apply_eq, PackageReport.keeping]

/-- What the rules of both lists leave is what those of either list leave. -/
theorem vulnerabilities_apply_append (R S : List Rule) (p : PackageReport) (path : InclusionPath) :
    (apply ⟨R ++ S⟩ p path).vulnerabilities =
      (apply ⟨R⟩ p path).vulnerabilities.filter (· ∈ (apply ⟨S⟩ p path).vulnerabilities) := by
  have hboth (id : String) : suppresses ⟨R ++ S⟩ path id =
      (suppresses ⟨R⟩ path id || suppresses ⟨S⟩ path id) := List.any_append
  rw [apply_eq, apply_eq ⟨R⟩, PackageReport.keeping, PackageReport.keeping, List.filter_filter]
  refine List.filter_congr fun v hv => ?_
  rw [hboth, Bool.not_or, Bool.and_comm, Bool.eq_iff_iff]
  simp [mem_vulnerabilities_apply, hv]

/-- Neither the order of the rules matters nor how often each stands there. Rules that are added take
findings out, those that they would take out alone, and change no count. -/
theorem rules_are_alternatives (R S : List Rule) (p : PackageReport) (path : InclusionPath) :
    (∀ R', (∀ r, r ∈ R' ↔ r ∈ R) → apply ⟨R'⟩ p path = apply ⟨R⟩ p path) ∧
    (apply ⟨R ++ S⟩ p path).vulnerabilities =
      (apply ⟨R⟩ p path).vulnerabilities.filter (· ∈ (apply ⟨S⟩ p path).vulnerabilities) ∧
    List.Sublist (apply ⟨R ++ S⟩ p path).vulnerabilities (apply ⟨R⟩ p path).vulnerabilities ∧
    (apply ⟨R ++ S⟩ p path).unfilteredCount = (apply ⟨R⟩ p path).unfilteredCount := by
  refine ⟨fun R' h => ?_, vulnerabilities_apply_append R S p path, ?_, ?_⟩
  · simp only [apply_eq, suppresses_congr h]
  · rw [vulnerabilities_apply_append]
    exact List.filter_sublist
  · rw [unfilteredCount_apply, unfilteredCount_apply]

/-- A rule that stands there twice, and one that takes the whole package out. -/
theorem rules_are_alternatives_doubled :
    let jquery : Coordinate := ⟨"maven", some "org.webjars.npm", "jquery", some "1.2.3"⟩
    let everywhere : Rule := .ignoreVulnerability none "CVE-1"
    let onPath : Rule := .ignoreVulnerability (some [jquery]) "CVE-2"
    let package : Rule := .ignorePackage [{ jquery with version := none }]
    let path : InclusionPath := (InclusionPath.single ⟨"maven", none, "app", none⟩).child jquery
    let p : PackageReport := { PackageReport.blank with
      vulnerabilities := ["CVE-1", "CVE-2", "CVE-3"].map fun id => { Vulnerability.blank with id } }
    (∀ r, r ∈ [onPath, everywhere, onPath] ↔ r ∈ [everywhere, onPath]) ∧
      apply ⟨[onPath, everywhere, onPath]⟩ p path = apply ⟨[everywhere, onPath]⟩ p path ∧
      (apply ⟨[everywhere, onPath]⟩ p path).vulnerabilities.map (·.id) = ["CVE-3"] ∧
      (apply ⟨[everywhere, onPath] ++ [package]⟩ p path).vulnerabilities = [] := by
  intro jquery everywhere onPath package path p
  obtain ⟨hsame, hboth, -, -⟩ := rules_are_alternatives [everywhere, onPath] [package] p path
  have hmem : ∀ r, r ∈ [onPath, everywhere, onPath] ↔ r ∈ [everywhere, onPath] := by
    intro r
    simp only [List.mem_cons, List.not_mem_nil, or_false]
    tauto
  have hpackage : (apply ⟨[package]⟩ p path).vulnerabilities = [] := by decide +kernel
  refine ⟨hmem, hsame _ hmem, by decide +kernel, ?_⟩
  rw [hboth, hpackage]
  simp

end Filter
end DependencyAudit
