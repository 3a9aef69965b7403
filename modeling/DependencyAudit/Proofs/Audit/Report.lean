import Mathlib.Algebra.Ring.Nat
import DependencyAudit.Proofs.Audit.Reachable
import DependencyAudit.Proofs.Lookup.Exchange
import DependencyAudit.Proofs.Suppression.Filtering

/-! What an audit reports: each package with findings once, with the findings that no rule suppresses,
and sums that count them all. -/
namespace DependencyAudit

namespace Lookup

/-- The findings about a registration before filtering. -/
def findings (found : Assignment) (r : InclusionPath) : List Vulnerability :=
  ((report? found r.key).map (·.vulnerabilities)).getD []

def unsuppressed (f : Filter) (found : Assignment) (r : InclusionPath) : List Vulnerability :=
  (findings found r).filter fun v => !f.suppresses r v.id

@[simp] theorem unfilteredCount_answer (l : Lookup) (found : Assignment) (r : InclusionPath) :
    (l.answer found r).unfilteredCount = (findings found r).length := by
  unfold answer findings
  cases report? found r.key <;> simp [PackageReport.pending]

@[simp] theorem vulnerabilities_answer (l : Lookup) (found : Assignment) (r : InclusionPath) :
    (l.answer found r).vulnerabilities = unsuppressed l.filter found r := by
  unfold answer unsuppressed findings
  cases report? found r.key <;> simp [PackageReport.pending, Filter.apply_eq, PackageReport.keeping]

/-- The registrations with findings, in order. -/
def flagged (l : Lookup) (found : Assignment) : List InclusionPath :=
  l.registrations.filter fun r => !(findings found r).isEmpty

/-- What is reported about the findings of all registrations. -/
def auditReport (l : Lookup) (found : Assignment) : AuditReport :=
  ⟨(l.flagged found).map fun r => .of (l.answer found r) r,
    (l.registrations.map fun r => (findings found r).length).sum,
    (l.registrations.map fun r => (unsuppressed l.filter found r).length).sum⟩

end Lookup

/-- A listed package says what became of the findings of a report about a registration. -/
structure ReportedPackage.Accounts (f : Filter) (r : InclusionPath) (p : PackageReport)
    (q : ReportedPackage) : Prop where
  package_eq : q.package = { p with
    unfilteredCount := p.vulnerabilities.length
    vulnerabilities := p.vulnerabilities.filter fun v => !f.suppresses r v.id }
  status_eq : q.status = if q.package.vulnerabilities = [] then .suppressed else .vulnerable
  parent_eq : q.parent = if 1 < r.coordinates.length then some r.root.text else none

open Lookup in
theorem ReportedPackage.accounts_of {l : Lookup} {found : Assignment} {r : InclusionPath}
    (hr : r ∈ l.flagged found) :
    ∃ p, report? found r.key = some p ∧ Accounts l.filter r p (.of (l.answer found r) r) := by
  have hne : findings found r ≠ [] := by simpa using (List.mem_filter.mp hr).2
  cases hp : report? found r.key with
  | none => simp [findings, hp] at hne
  | some p =>
    have hcount : p.vulnerabilities ≠ [] := by simpa [findings, hp] using hne
    have hanswer : l.answer found r = l.filter.apply p r := by simp only [answer, hp]
    refine ⟨p, rfl, ?_, ?_, ?_⟩
    · rw [hanswer, Filter.apply_eq]
      rfl
    · have hpos : 0 < (findings found r).length := List.length_pos_of_ne_nil hne
      simp only [of, PackageReport.status, PackageReport.hasIssues, unfilteredCount_answer]
      cases (l.answer found r).vulnerabilities <;> simp [hpos]
    · cases h : r.ancestors <;> simp [of, InclusionPath.coordinates, h]

namespace AuditReport

open Lookup

theorem sum_filter_of_zero (rs : List InclusionPath) {p : InclusionPath → Bool}
    {g : InclusionPath → ℕ} (h : ∀ r, p r = false → g r = 0) :
    ((rs.filter p).map g).sum = (rs.map g).sum := by
  induction rs with
  | nil => rfl
  | cons r rs ih =>
    cases hp : p r with
    | true => simp [hp, ih]
    | false => simp [hp, ih, h r hp]

/-- The answers, taken with the registrations in their places, make up the report. -/
theorem of_answers (l : Lookup) (found : Assignment) :
    AuditReport.of ((l.registrations.map (l.answer found)).zip l.registrations) =
      l.auditReport found := by
  have hzip : (l.registrations.map (l.answer found)).zip l.registrations =
      l.registrations.map fun r => (l.answer found r, r) := by
    simpa using List.zip_map' (f := l.answer found) (g := id) (l := l.registrations)
  have hflagged : (l.registrations.map fun r => (l.answer found r, r)).filter
      (fun x => x.1.unfilteredCount != 0) =
        (l.flagged found).map fun r => (l.answer found r, r) := by
    rw [List.filter_map, flagged]
    congr 1
    apply List.filter_congr
    intro r _
    cases h : findings found r <;> simp [h]
  have htotal := sum_filter_of_zero l.registrations (p := fun r => !(findings found r).isEmpty)
    (g := fun r => (findings found r).length) (by simp)
  have hsurviving := sum_filter_of_zero l.registrations (p := fun r => !(findings found r).isEmpty)
    (g := fun r => (unsuppressed l.filter found r).length) (by simp +contextual [unsuppressed])
  rw [AuditReport.of, hzip, hflagged, auditReport, ← htotal, ← hsurviving]
  simp only [List.map_map, Function.comp_def, unfilteredCount_answer, vulnerabilities_answer,
    ← List.sum_eq_foldr]
  rfl

/-- There are findings left when some package is vulnerable. -/
theorem hasVulnerabilities_iff (l : Lookup) (found : Assignment) :
    (l.auditReport found).hasVulnerabilities = true ↔
      ∃ q ∈ (l.auditReport found).packages, q.status = .vulnerable := by
  have hstatus (r : InclusionPath) : (ReportedPackage.of (l.answer found r) r).status = .vulnerable ↔
      unsuppressed l.filter found r ≠ [] := by
    simp only [ReportedPackage.of, PackageReport.status, PackageReport.hasIssues,
      vulnerabilities_answer]
    cases unsuppressed l.filter found r <;> simp
    split <;> simp
  have hflagged {r : InclusionPath} (hr : r ∈ l.registrations)
      (hne : unsuppressed l.filter found r ≠ []) : r ∈ l.flagged found := by
    refine List.mem_filter.mpr ⟨hr, ?_⟩
    cases hf : findings found r with
    | nil => simp [unsuppressed, hf] at hne
    | cons v vs => rfl
  rw [hasVulnerabilities, decide_eq_true_iff, gt_iff_lt, auditReport,
    List.sum_pos_iff_exists_pos_nat]
  simp only [List.mem_map, exists_exists_and_eq_and, hstatus, List.length_pos_iff]
  constructor
  · rintro ⟨r, hr, hne⟩
    exact ⟨r, hflagged hr hne, hne⟩
  · rintro ⟨r, hr, hne⟩
    exact ⟨r, (List.mem_filter.mp hr).1, hne⟩

end AuditReport

namespace Auditor

open Lookup

variable {σ τ : Type}

/-- A run that succeeds reports, in order and each once, the registrations about which its store or
the service named a finding: with all these findings counted, those listed that no rule suppresses
on the registered path, and the root of that path. The sums count the findings of all
registrations. -/
theorem run_accounts {a : Auditor σ} (ha : a.Reachable) (transport : Transport τ) (clock : Clock)
    (w : World σ) (t : τ) {packages : List PackageReport}
    (hok : (a.service.run transport clock w t).record.result = .ok packages) :
    let l := a.service.lookup
    let store := (a.service.openStore w).store
    let before := (a.service.openStore w).state
    ∃ founds after t' report,
      Exchanged l store transport clock 0 (l.batches store (clock 0) before) founds before t after t' ∧
      let found := l.cached store (clock 0) before ++ founds.flatten
      let listed := a.service.registrations.filter fun r => !(findings found r).isEmpty
      (a.run transport clock w t).record.result = .ok report ∧
      (listed.map (·.key)).Nodup ∧
      List.Forall₂ (fun r q => ∃ p, report? found r.key = some p ∧ q.Accounts a.settings.filter r p)
        listed report.packages ∧
      report.total = (a.service.registrations.map fun r => (findings found r).length).sum ∧
      report.surviving = (a.service.registrations.map fun r =>
        ((findings found r).filter fun v => !a.settings.filter.suppresses r v.id).length).sum ∧
      (report.hasVulnerabilities = true ↔ ∃ q ∈ report.packages, q.status = .vulnerable) := by
  intro l store before
  have hfilter : l.filter = a.settings.filter := congrArg Lookup.filter ha.configured.lookup_eq
  rw [← hfilter]
  have hrecord := Service.record_run a.service transport clock w t
  rcases run_cases l store transport clock before t with ⟨founds, after, t', hx, hr⟩ |
    ⟨done, b, rest, founds, s₁, t₁, e, s', t', -, -, -, hr⟩
  · rw [hrecord, hr] at hok
    cases hok
    refine ⟨founds, after, t', l.auditReport _, hx, ?_, ?_, ?_, rfl, rfl,
      AuditReport.hasVulnerabilities_iff l _⟩
    · simp only [run, hrecord]
      rw [hr]
      exact congrArg Except.ok (AuditReport.of_answers l _)
    · exact ha.configured.reachable.nodup_keys.sublist (List.filter_sublist.map _)
    · exact List.forall₂_map_right_iff.mpr
        (List.forall₂_same.mpr fun r hm => ReportedPackage.accounts_of hm)
  · rw [hrecord, hr] at hok
    cases hok

/-- Of three packages one has no finding, one has a finding left, and one has none left; the counts
that the service claims are not taken over. -/
theorem run_accounts_three :
    let settings : Settings :=
      { Settings.default ⟨"/s", "/c"⟩ with cacheFile := none, exclusions := [⟨some "X-1", []⟩] }
    let fresh : Auditor Entries :=
      ⟨Service.new.addRule (.ignoreVulnerability none "X-1"), settings⟩
    let a := (fresh.addForest [.node "org" "app" "1"
      [.node "org" "lib" "2" [], .node "org" "tool" "3" []]]).2
    let named (name : String) (count : ℕ) (ids : List String) : PackageReport :=
      ⟨name, none, none, count, ids.map fun id => { Vulnerability.blank with id := id }⟩
    let answers := [Answer.reports [named "maven:org/tool@3" 0 ["X-1"], named "maven:org/app@1" 9 [],
      named "maven:org/lib@2" 7 ["X-1", "X-2"]]]
    let clock : Clock := fun _ => ⟨⟨2024, 5, 1⟩, 0, 0⟩
    let w : World Entries := ⟨.empty, .empty⟩
    let report : AuditReport := ⟨[⟨named "maven:org/lib@2" 2 ["X-2"], .vulnerable, "maven:org/app@1"⟩,
      ⟨named "maven:org/tool@3" 1 [], .suppressed, "maven:org/app@1"⟩], 3, 1⟩
    a.Reachable ∧ (a.service.run scriptedTransport clock w answers).record.result =
        .ok [named "maven:org/app@1" 0 [], named "maven:org/lib@2" 2 ["X-2"],
          named "maven:org/tool@3" 1 []] ∧
      (a.run scriptedTransport clock w answers).record.result = .ok report ∧
      ∃ found : Assignment,
        report.total = (a.service.registrations.map fun r => (findings found r).length).sum := by
  intro settings fresh a named answers clock w report
  have hfresh : new settings .empty = (.ok fresh, .empty) := rfl
  have ha : a.Reachable := .addForest _ (.new hfresh)
  have hok : (a.service.run scriptedTransport clock w answers).record.result =
      .ok [named "maven:org/app@1" 0 [], named "maven:org/lib@2" 2 ["X-2"],
        named "maven:org/tool@3" 1 []] := by
    decide +kernel
  have hreport : (a.run scriptedTransport clock w answers).record.result = .ok report := by
    decide +kernel
  obtain ⟨founds, _, _, report', _, hrun, -, -, htotal, -⟩ :=
    run_accounts ha scriptedTransport clock w answers hok
  obtain rfl : report = report' := Except.ok.inj (hreport.symm.trans hrun)
  exact ⟨ha, hok, hreport, _, htotal⟩

end Auditor
end DependencyAudit
