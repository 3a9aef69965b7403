import DependencyAudit.Proofs.Lookup.Exchange
import DependencyAudit.Proofs.Lookup.Misses
import DependencyAudit.Proofs.Lookup.Reachable

/-! Runs over a service that has reports for some registrations and names in each the package that it
is about: they end with these reports, in whatever order a batch is answered. -/
namespace DependencyAudit

/-- The state of a service after some requests. -/
def Transport.after {τ : Type} (transport : Transport τ) : List Request → τ → τ
  | [], t => t
  | request :: rest, t => after transport rest (transport.send request t).2

/-- The report of each registration that has one. -/
abbrev Reporting := InclusionPath → Option PackageReport

/-- The reports of these registrations name them. -/
def Reporting.Names (report : Reporting) (rs : List InclusionPath) : Prop :=
  ∀ r ∈ rs, ∀ p, report r = some p → p.cacheKey = r.key

namespace Lookup

variable {σ τ : Type} {l : Lookup} {store : Store σ} {transport : Transport τ} {report : Reporting}
  {rs : List InclusionPath}

/-- From a state on, every request for some of the registrations is answered with the reports that
they have, in any order. -/
def Serves (l : Lookup) (transport : Transport τ) (report : Reporting) (rs : List InclusionPath)
    (t : τ) : Prop :=
  ∀ before (b : Batch), b ⊆ rs → ∃ ps,
    (transport.send (l.request b) (transport.after before t)).1 = .ok ps ∧
      ps.Perm (b.filterMap report)

theorem Serves.send {t : τ} (h : l.Serves transport report rs t) {b : Batch} (hb : b ⊆ rs) :
    ∃ ps t', transport.send (l.request b) t = (.ok ps, t') ∧ ps.Perm (b.filterMap report) ∧
      l.Serves transport report rs t' := by
  obtain ⟨ps, hs, hp⟩ := h [] b hb
  refine ⟨ps, (transport.send (l.request b) t).2, Prod.ext hs rfl, hp, ?_⟩
  intro before b' hb'
  exact h (l.request b :: before) b' hb'

/-- The reports of a batch are assigned as they are meant. -/
theorem mem_assign_iff {b : Batch} (hk : report.Names b) (hn : (b.map (·.key)).Nodup)
    {ps : List PackageReport} (hp : ps.Perm (b.filterMap report)) (key : String)
    (p : PackageReport) :
    (key, p) ∈ b.assign ps ↔ ∃ r ∈ b, r.key = key ∧ report r = some p := by
  have hmem : ∀ {p}, p ∈ ps ↔ ∃ r ∈ b, report r = some p := by
    intro p
    rw [hp.mem_iff, List.mem_filterMap]
  have hechoes : ∀ p ∈ ps, ∃ r ∈ b, r.key = p.cacheKey := by
    intro p hm
    obtain ⟨r, hr, hrp⟩ := hmem.mp hm
    exact ⟨r, hr, (hk r hr p hrp).symm⟩
  have hkeys : List.Sublist ((b.filterMap report).map (·.cacheKey)) (b.map (·.key)) := by
    clear hp hmem hechoes hn
    induction b with
    | nil => simp
    | cons r b ih =>
      have ih := ih fun r hr => hk r (List.mem_cons_of_mem _ hr)
      cases hr : report r with
      | none => simpa [hr] using ih.cons r.key
      | some p => simpa [hr, hk r List.mem_cons_self p hr] using ih
  have hnodup : (ps.map (·.cacheKey)).Nodup := (hp.map _).nodup_iff.mpr (hn.sublist hkeys)
  rw [Batch.assign_of_echoes hechoes hnodup, List.mem_map]
  constructor
  · rintro ⟨q, hq, he⟩
    cases he
    obtain ⟨r, hr, hrp⟩ := hmem.mp hq
    exact ⟨r, hr, (hk r hr _ hrp).symm, hrp⟩
  · rintro ⟨r, hr, rfl, hrp⟩
    exact ⟨p, hmem.mpr ⟨r, hr, hrp⟩, by rw [hk r hr p hrp]⟩

/-- The batches bring in all reports of their registrations and no others. -/
theorem fetchAll_of_serves (hk : report.Names rs) (clock : Clock) (index : ℕ) (bs : List Batch)
    (hb : bs.flatten ⊆ rs) (hn : (bs.flatten.map (·.key)).Nodup) {s : σ} {t : τ}
    (hs : store.Accepts s) (ht : l.Serves transport report rs t) :
    ∃ found, (l.fetchAll store transport clock index bs s t).1.result = .ok found ∧
      ∀ key p, (key, p) ∈ found ↔ ∃ r ∈ bs.flatten, r.key = key ∧ report r = some p := by
  induction bs generalizing index s t with
  | nil => exact ⟨[], rfl, by simp⟩
  | cons b bs ih =>
    rw [List.flatten_cons, List.map_append, List.nodup_append] at hn
    rw [List.flatten_cons, List.append_subset] at hb
    obtain ⟨ps, t', hsend, hperm, ht'⟩ := ht.send hb.1
    obtain ⟨s', hcommit, hs'⟩ := hs.commit (clock (index + 1))
      (entries (clock (index + 1)) (b.assign ps))
    obtain ⟨found, hres, hmem⟩ := ih (index + 1) hb.2 hn.2.1 hs' ht'
    refine ⟨b.assign ps ++ found, by simp [fetchAll, hsend, hcommit, hres, Except.map], ?_⟩
    intro key p
    rw [List.mem_append, mem_assign_iff (fun r hr => hk r (hb.1 hr)) hn.1 hperm, hmem,
      List.flatten_cons]
    constructor
    · rintro (⟨r, hr, h⟩ | ⟨r, hr, h⟩)
      · exact ⟨r, List.mem_append_left _ hr, h⟩
      · exact ⟨r, List.mem_append_right _ hr, h⟩
    · rintro ⟨r, hr, h⟩
      rcases List.mem_append.mp hr with hr | hr
      · exact Or.inl ⟨r, hr, h⟩
      · exact Or.inr ⟨r, hr, h⟩

/-- The reports that are cached and those that are fetched make up all reports. -/
theorem report?_append_of_mem_iff (hn : l.keys.Nodup) {cached found : Assignment}
    (hc : ∀ r ∈ l.registrations, ∀ p, report? cached r.key = some p → report r = some p)
    (hmem : ∀ key p, (key, p) ∈ found ↔ ∃ r ∈ l.misses cached, r.key = key ∧ report r = some p) :
    ∀ r ∈ l.registrations, report? (cached ++ found) r.key = report r := by
  intro r hrm
  rw [report?_append]
  cases hcached : report? cached r.key with
  | some p => rw [Option.some_or, hc r hrm p hcached]
  | none =>
    have hmiss : r ∈ l.misses cached := mem_misses.mpr ⟨hrm, hcached⟩
    rw [Option.none_or]
    cases hfound : report? found r.key with
    | some p =>
      obtain ⟨r', hr', hk, hp⟩ := (hmem r.key p).mp (mem_of_report? hfound)
      rw [← eq_of_key_eq hn (mem_misses.mp hr').1 hrm hk, hp]
    | none =>
      cases hp : report r with
      | none => rfl
      | some p =>
        have hin : (r.key, p) ∈ found := (hmem r.key p).mpr ⟨r, hmiss, rfl, hp⟩
        exact absurd rfl (report?_eq_none_iff.mp hfound _ hin)

theorem gather_of_serves (hn : l.keys.Nodup) (clock : Clock) {s : σ} {t : τ}
    (hk : report.Names (l.misses (l.cached store (clock 0) s))) (hs : store.Accepts s)
    (ht : l.Serves transport report (l.misses (l.cached store (clock 0) s)) t)
    (hc : ∀ r ∈ l.registrations, ∀ p, shown store (clock 0) l.keys s r.key = some p →
      report r = some p) :
    ∃ found, (l.gather store transport clock s t).1.result = .ok found ∧
      ∀ r ∈ l.registrations, report? found r.key = report r := by
  have hkeys : ((l.batches store (clock 0) s).flatten.map (·.key)).Nodup := by
    rw [flatten_batches]
    exact nodup_keys_misses hn _
  obtain ⟨found, hres, hmem⟩ := fetchAll_of_serves hk clock 0 (l.batches store (clock 0) s)
    (by rw [flatten_batches]; exact List.Subset.refl _) hkeys hs ht
  rw [flatten_batches] at hmem
  rw [batches] at hres
  refine ⟨l.cached store (clock 0) s ++ found, by simp [gather, hres, Except.map],
    report?_append_of_mem_iff hn ?_ hmem⟩
  intro r hr p hp
  rw [report?_cached l store (clock 0) s (key_mem_keys hr)] at hp
  exact hc r hr p hp

end Lookup
end DependencyAudit
