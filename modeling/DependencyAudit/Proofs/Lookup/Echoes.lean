import Mathlib.Data.List.Perm.Subperm
import DependencyAudit.Proofs.Lookup.Assignment
import DependencyAudit.Proofs.Lookup.Misses

/-! Reports that echo a key that was asked for. Where all of them do, each is given to its key, in
whatever order they come; a report that only agrees with a registration can be given to it before
the one that echoes its key. -/
namespace DependencyAudit.Batch

variable {b : Batch} {ps before after : List PackageReport} {p : PackageReport} {r : InclusionPath}

/-- Reports are given away in turn, each to a registration that those before it have left. -/
theorem owned_append (b : Batch) (taken : List String) (place : ℕ) (ps qs : List PackageReport) :
    (byCoordinate b taken place (ps ++ qs)).owned =
      (byCoordinate b taken place ps).owned ++
        (byCoordinate b (((byCoordinate b taken place ps).owned.map (·.1)).reverse ++ taken)
          (place + ps.length) qs).owned := by
  induction ps generalizing taken place with
  | nil => simp [byCoordinate]
  | cons p ps ih =>
    have hplace : place + (ps.length + 1) = place + 1 + ps.length := by omega
    simp only [List.cons_append, byCoordinate, List.length_cons, hplace]
    split <;> simp [ih]

/-- The first echo of a key is given to it, unless a report before it was. -/
theorem mem_owned_of_echo (hr : r ∈ b) (hp : p.cacheKey = r.key)
    (hfree : r.key ∉ (byCoordinate b [] 0 before).owned.map (·.1)) :
    (r.key, p) ∈ (byCoordinate b [] 0 (before ++ p :: after)).owned := by
  rw [owned_append, List.mem_append]
  right
  generalize htaken : ((byCoordinate b [] 0 before).owned.map (·.1)).reverse ++ [] = taken
  have hopen : r ∈ b.filter fun r => !taken.contains r.key := by
    rw [List.mem_filter]
    refine ⟨hr, ?_⟩
    rw [← htaken]
    simpa using hfree
  obtain ⟨r', -, hkey, howner⟩ := owner?_of_key hopen hp.symm
  simp only [byCoordinate, howner, hkey, hp]
  exact List.mem_cons_self

theorem assign_of_mem_owned {x : String × PackageReport} (hx : x ∈ (byCoordinate b [] 0 ps).owned) :
    b.assign ps = (byCoordinate b [] 0 ps).owned := by
  rw [assign, if_neg]
  intro hc
  simp only [Bool.and_eq_true, List.isEmpty_iff] at hc
  rw [hc.1] at hx
  cases hx

/-- Of two reports under one key there is only one. -/
theorem eq_of_mem_assign (hb : (b.map (·.key)).Nodup) {key : String} {q : PackageReport}
    (hp : (key, p) ∈ b.assign ps) (hq : (key, q) ∈ b.assign ps) : p = q := by
  have h := List.inj_on_of_nodup_map (nodup_keys_assign hb ps) hp hq rfl
  exact (Prod.mk.inj h).2

/-- A registration whose key is echoed is given the first echo, or before it a report that only
agrees with the registration. The part of the answer before the echo tells which. -/
theorem echo_wins_iff (hb : (b.map (·.key)).Nodup) (hr : r ∈ b) (hp : p.cacheKey = r.key)
    (hbefore : ∀ q ∈ before, q.cacheKey ≠ r.key) :
    ((∃ q, (r.key, q) ∈ b.assign (before ++ p :: after) ∧ q.cacheKey = r.key) ↔
      r.key ∉ (byCoordinate b [] 0 before).owned.map (·.1)) ∧
    (r.key ∈ (byCoordinate b [] 0 before).owned.map (·.1) →
      ∃ q ∈ before, agrees q r = true ∧ (r.key, q) ∈ b.assign (before ++ p :: after)) := by
  have hrival : r.key ∈ (byCoordinate b [] 0 before).owned.map (·.1) →
      ∃ q ∈ before, agrees q r = true ∧ (r.key, q) ∈ b.assign (before ++ p :: after) := by
    intro htaken
    obtain ⟨⟨key, q⟩, hx, rfl⟩ := List.mem_map.mp htaken
    have hq : q ∈ before := (owned_sublist b [] 0 before).subset (List.mem_map.mpr ⟨_, hx, rfl⟩)
    have hall : (r.key, q) ∈ (byCoordinate b [] 0 (before ++ p :: after)).owned := by
      rw [owned_append]
      exact List.mem_append_left _ hx
    refine ⟨q, hq, ?_, by rwa [assign_of_mem_owned hall]⟩
    obtain ⟨s, hs, hkey, hnames⟩ := (mem_owned hx).2
    obtain rfl : s = r := List.inj_on_of_nodup_map hb hs hr hkey
    rcases hnames with hecho | hagrees
    · exact absurd hecho.symm (hbefore q hq)
    · exact (agrees_iff q s).mpr hagrees
  refine ⟨⟨?_, fun hfree => ?_⟩, hrival⟩
  · rintro ⟨q, hq, hecho⟩ htaken
    obtain ⟨q', hq', -, hx⟩ := hrival htaken
    obtain rfl := eq_of_mem_assign hb hq hx
    exact hbefore q hq' hecho
  · have hx : (r.key, p) ∈ (byCoordinate b [] 0 (before ++ p :: after)).owned :=
      mem_owned_of_echo hr hp hfree
    exact ⟨p, by rwa [assign_of_mem_owned hx], hp⟩

/-- A report of a version within two registered ranges is given to neither, and leaves them to their
echoes. -/
theorem echo_wins_after_ambiguous :
    let r : InclusionPath := .single ⟨"npm", none, "a", some "[1.0,2.0)"⟩
    let b : Batch := [r, .single ⟨"npm", none, "a", some "[1.5,3.0)"⟩]
    let before := [{ PackageReport.blank with coordinates := "npm:a@1.7.0" }]
    let echo := { PackageReport.blank with coordinates := "pkg:npm/a@[1.0,2.0)" }
    (b.map (·.key)).Nodup ∧ r ∈ b ∧ echo.cacheKey = r.key ∧ (∀ q ∈ before, q.cacheKey ≠ r.key) ∧
      ∃ q, (r.key, q) ∈ b.assign (before ++ echo :: []) ∧ q.cacheKey = r.key := by
  intro r b before echo
  have hb : (b.map (·.key)).Nodup := by decide +kernel
  have hr : r ∈ b := List.mem_cons_self
  have hp : echo.cacheKey = r.key := by decide +kernel
  have hbefore : ∀ q ∈ before, q.cacheKey ≠ r.key := by decide +kernel
  have hfree : r.key ∉ (byCoordinate b [] 0 before).owned.map (·.1) := by decide +kernel
  exact ⟨hb, hr, hp, hbefore, (echo_wins_iff hb hr hp hbefore).1.mpr hfree⟩

/-- The report of one version within a registered range comes before the report that names the
range. -/
theorem echo_loses_to_earlier :
    let b : Batch := [.single ⟨"npm", none, "a", some "[1.0,2.0)"⟩,
      .single ⟨"npm", none, "b", some "1.0.0"⟩]
    let rival := { PackageReport.blank with coordinates := "npm:a@1.5.0" }
    let echo := { PackageReport.blank with coordinates := "pkg:npm/a@[1.0,2.0)" }
    let other := { PackageReport.blank with coordinates := "npm:b@1.0.0" }
    (b.map (·.key)).Nodup ∧ echo.cacheKey = "npm:a@[1.0,2.0)" ∧
      rival.cacheKey ≠ "npm:a@[1.0,2.0)" ∧
      b.assign [rival, echo, other] = [("npm:a@[1.0,2.0)", rival), ("npm:b@1.0.0", other)] := by
  decide +kernel

theorem report?_map_cacheKey {q : PackageReport} (hn : (ps.map (·.cacheKey)).Nodup) (hq : q ∈ ps) :
    Lookup.report? (ps.map fun p => (p.cacheKey, p)) q.cacheKey = some q := by
  induction ps with
  | nil => cases hq
  | cons p ps ih =>
    rw [List.map_cons, List.nodup_cons] at hn
    rcases List.mem_cons.mp hq with rfl | hq
    · simp [Lookup.report?]
    · have hne : p.cacheKey ≠ q.cacheKey := fun h => hn.1 (h ▸ List.mem_map.mpr ⟨q, hq, rfl⟩)
      simpa [Lookup.report?, hne] using ih hn.2 hq

/-- Reports that echo keys of the batch, each once, are given to their keys. Another order of them
gives every registration the same report, and so do the rest of them when some are left out. -/
theorem assign_echoes (hk : ∀ p ∈ ps, ∃ r ∈ b, r.key = p.cacheKey)
    (hn : (ps.map (·.cacheKey)).Nodup) :
    b.assign ps = ps.map (fun p => (p.cacheKey, p)) ∧
    ∀ qs, qs.Subperm ps → b.assign qs = qs.map (fun p => (p.cacheKey, p)) ∧
      ∀ r ∈ b, Lookup.report? (b.assign qs) r.key =
        if r.key ∈ qs.map (·.cacheKey) then Lookup.report? (b.assign ps) r.key else none := by
  have hall := assign_of_echoes hk hn
  refine ⟨hall, fun qs hsub => ?_⟩
  have hmem : ∀ {q}, q ∈ qs → q ∈ ps := fun hq => hsub.subset hq
  have hn' : (qs.map (·.cacheKey)).Nodup := by
    obtain ⟨rest, hperm, hrest⟩ := hsub
    exact (hperm.map _).nodup_iff.mp (hn.sublist (hrest.map _))
  have hsome := assign_of_echoes (fun q hq => hk q (hmem hq)) hn'
  refine ⟨hsome, fun r _ => ?_⟩
  split
  · rename_i hr
    obtain ⟨q, hq, hkey⟩ := List.mem_map.mp hr
    rw [← hkey, hsome, hall, report?_map_cacheKey hn' hq, report?_map_cacheKey hn (hmem hq)]
  · rename_i hr
    rw [Lookup.report?_eq_none_iff, hsome]
    intro x hx hkey
    obtain ⟨q, hq, rfl⟩ := List.mem_map.mp hx
    exact hr (List.mem_map.mpr ⟨q, hq, hkey⟩)

/-- Two versions and a range of one package, echoed in both notations and out of order; one echo is
then left out, and the others come the other way round. -/
theorem assign_echoes_versions :
    let b : Batch := [.single ⟨"npm", none, "a", some "1.0.0"⟩,
      .single ⟨"npm", none, "a", some "[1.0,2.0)"⟩, .single ⟨"npm", none, "a", some "1.5.0"⟩]
    let ps := [{ PackageReport.blank with coordinates := "pkg:npm/a@1.5.0" },
      { PackageReport.blank with coordinates := "npm:A@[1.0,2.0)" },
      { PackageReport.blank with coordinates := "npm:a@1.0.0" }]
    let qs := [{ PackageReport.blank with coordinates := "npm:A@[1.0,2.0)" },
      { PackageReport.blank with coordinates := "pkg:npm/a@1.5.0" }]
    (∀ p ∈ ps, ∃ r ∈ b, r.key = p.cacheKey) ∧ (ps.map (·.cacheKey)).Nodup ∧ qs.Subperm ps ∧
      b.assign ps = ps.map (fun p => (p.cacheKey, p)) ∧ ∀ r ∈ b,
        Lookup.report? (b.assign qs) r.key =
          if r.key ∈ qs.map (·.cacheKey) then Lookup.report? (b.assign ps) r.key else none := by
  intro b ps qs
  have hk : ∀ p ∈ ps, ∃ r ∈ b, r.key = p.cacheKey := by decide +kernel
  have hn : (ps.map (·.cacheKey)).Nodup := by decide +kernel
  have hsub : qs.Subperm ps :=
    ⟨ps.take 2, List.Perm.swap _ _ [], List.take_sublist 2 ps⟩
  have h := assign_echoes hk hn
  exact ⟨hk, hn, hsub, h.1, (h.2 qs hsub).2⟩

end DependencyAudit.Batch
