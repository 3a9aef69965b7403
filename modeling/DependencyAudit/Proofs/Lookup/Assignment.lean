import Mathlib.Data.List.Nodup
import Mathlib.Data.List.Zip
import DependencyAudit.Lookup.Batch

/-! To which registrations the reports of an answer are given: no registration twice, no report
twice, and by the coordinate wherever one report can be told by it. -/
namespace DependencyAudit

/-- The report names the registration: the keys are equal, or they are coordinates that agree. -/
def PackageReport.Names (p : PackageReport) (r : InclusionPath) : Prop :=
  r.key = p.cacheKey ∨ ∃ registered reported, Coordinate.ofText r.key = .ok registered ∧
    Coordinate.ofText p.cacheKey = .ok reported ∧ registered.agrees reported = true

namespace Batch

theorem agrees_iff (p : PackageReport) (r : InclusionPath) :
    agrees p r = true ↔ ∃ registered reported, Coordinate.ofText r.key = .ok registered ∧
      Coordinate.ofText p.cacheKey = .ok reported ∧ registered.agrees reported = true := by
  unfold agrees
  split
  · rename_i registered reported h₁ h₂
    simp [h₁, h₂]
  · rename_i h
    constructor
    · intro hf
      cases hf
    · rintro ⟨registered, reported, h₁, h₂, _⟩
      exact absurd h₂ (h registered reported h₁)

theorem mem_of_owner? {isOpen : Batch} {p : PackageReport} {r : InclusionPath}
    (h : owner? isOpen p = some r) : r ∈ isOpen := by
  simp only [owner?] at h
  split at h
  · rename_i r' hr
    cases h
    exact List.mem_of_find?_eq_some hr
  · split at h
    · rename_i r' hr
      cases h
      have hm : r ∈ isOpen.filter (agrees p) := by simp [hr]
      exact List.mem_of_mem_filter hm
    · cases h

theorem names_of_owner? {isOpen : Batch} {p : PackageReport} {r : InclusionPath}
    (h : owner? isOpen p = some r) : p.Names r := by
  simp only [owner?] at h
  split at h
  · rename_i r' hr
    cases h
    exact Or.inl (by simpa using List.find?_some hr)
  · split at h
    · rename_i r' hr
      cases h
      have hm : r ∈ isOpen.filter (agrees p) := by simp [hr]
      exact Or.inr ((agrees_iff p r).mp (List.mem_filter.mp hm).2)
    · cases h

/-- A report stays without an owner where no key is its own and not exactly one coordinate agrees. -/
theorem owner?_eq_none_iff {isOpen : Batch} {p : PackageReport} :
    owner? isOpen p = none ↔
      (∀ r ∈ isOpen, r.key ≠ p.cacheKey) ∧ (isOpen.filter (agrees p)).length ≠ 1 := by
  simp only [owner?]
  split
  · rename_i r hr
    have hk : r.key = p.cacheKey := by simpa using List.find?_some hr
    constructor
    · intro h
      cases h
    · rintro ⟨h, _⟩
      exact absurd hk (h r (List.mem_of_find?_eq_some hr))
  · rename_i hn
    have hk : ∀ r ∈ isOpen, r.key ≠ p.cacheKey := by
      intro r hr
      simpa using List.find?_eq_none.mp hn r hr
    split
    · rename_i r hr
      simp [hr]
    · rename_i hr
      refine ⟨fun _ => ⟨hk, ?_⟩, fun _ => rfl⟩
      intro hl
      obtain ⟨r, he⟩ := List.length_eq_one_iff.mp hl
      exact hr r he

/-- An exact key wins, whatever the coordinates say. -/
theorem owner?_of_key {isOpen : Batch} {p : PackageReport} {r : InclusionPath} (hr : r ∈ isOpen)
    (hk : r.key = p.cacheKey) : ∃ r' ∈ isOpen, r'.key = p.cacheKey ∧ owner? isOpen p = some r' := by
  cases hf : isOpen.find? (·.key == p.cacheKey) with
  | none =>
    have h := List.find?_eq_none.mp hf r hr
    simp [hk] at h
  | some r' =>
    exact ⟨r', List.mem_of_find?_eq_some hf, by simpa using List.find?_some hf, by simp [owner?, hf]⟩

/-- What the loop gives away: keys that were not taken before, under names that the reports bear. -/
theorem mem_owned {b : Batch} {taken : List String} {place : ℕ} {ps : List PackageReport}
    {x : String × PackageReport} (h : x ∈ (byCoordinate b taken place ps).owned) :
    x.1 ∉ taken ∧ ∃ r ∈ b, r.key = x.1 ∧ x.2.Names r := by
  induction ps generalizing taken place with
  | nil => simp [byCoordinate] at h
  | cons p ps ih =>
    simp only [byCoordinate] at h
    split at h
    · rename_i r hr
      rcases List.mem_cons.mp h with rfl | h
      · have hm := List.mem_filter.mp (mem_of_owner? hr)
        exact ⟨by simpa using hm.2, r, hm.1, rfl, names_of_owner? hr⟩
      · obtain ⟨ht, hx⟩ := ih h
        exact ⟨fun hm => ht (List.mem_cons_of_mem _ hm), hx⟩
    · exact ih h

theorem nodup_owned (b : Batch) (taken : List String) (place : ℕ) (ps : List PackageReport) :
    ((byCoordinate b taken place ps).owned.map (·.1)).Nodup := by
  induction ps generalizing taken place with
  | nil => simp [byCoordinate]
  | cons p ps ih =>
    simp only [byCoordinate]
    split
    · rename_i r hr
      rw [List.map_cons, List.nodup_cons]
      refine ⟨?_, ih _ _⟩
      intro hm
      obtain ⟨x, hx, he⟩ := List.mem_map.mp hm
      exact (mem_owned hx).1 (by simp [he])
    · exact ih _ _

theorem owned_sublist (b : Batch) (taken : List String) (place : ℕ) (ps : List PackageReport) :
    List.Sublist ((byCoordinate b taken place ps).owned.map (·.2)) ps := by
  induction ps generalizing taken place with
  | nil => simp [byCoordinate]
  | cons p ps ih =>
    simp only [byCoordinate]
    split
    · exact (ih _ _).cons_cons p
    · exact (ih _ _).cons p

/-- When no report finds an owner nothing is ever taken: all of them are left, in their places. -/
theorem others_of_owned_nil {b : Batch} {taken : List String} {place : ℕ} {ps : List PackageReport}
    (h : (byCoordinate b taken place ps).owned = []) :
    (byCoordinate b taken place ps).others = (ps.zipIdx place).map Prod.swap ∧
      ∀ p ∈ ps, owner? (b.filter fun r => !taken.contains r.key) p = none := by
  induction ps generalizing place with
  | nil => simp [byCoordinate]
  | cons p ps ih =>
    simp only [byCoordinate] at h ⊢
    split at h
    · cases h
    · rename_i hp
      obtain ⟨ho, hn⟩ := ih h
      refine ⟨by simp [ho], ?_⟩
      intro q hq
      rcases List.mem_cons.mp hq with rfl | hq
      · exact hp
      · exact hn q hq

theorem byPosition_zipIdx (b : Batch) (ps : List PackageReport) (h : ps.length = b.length) :
    byPosition b (ps.zipIdx.map Prod.swap) = (b.map (·.key)).zip ps := by
  suffices hg : ∀ (before : Batch) (b : Batch) (ps : List PackageReport), ps.length = b.length →
      byPosition (before ++ b) ((ps.zipIdx before.length).map Prod.swap) =
        (b.map (·.key)).zip ps by simpa using hg [] b ps h
  -- The induction goes over the reports; what stands before keeps the places right.
  intro before b ps
  induction ps generalizing before b with
  | nil => simp [byPosition]
  | cons p ps ih =>
    intro h
    cases b with
    | nil => simp at h
    | cons r b =>
      have ih := ih (before ++ [r]) b (by simpa using h)
      simp only [byPosition, List.append_assoc, List.singleton_append, List.length_append,
        List.length_singleton] at ih ⊢
      simp [ih]

/-- The two ways in which an answer is assigned. -/
theorem assign_cases (b : Batch) (ps : List PackageReport) :
    (b.assign ps = (byCoordinate b [] 0 ps).owned) ∨
      ((∀ p ∈ ps, owner? b p = none) ∧ ps.length = b.length ∧
        b.assign ps = (b.map (·.key)).zip ps) := by
  simp only [assign]
  split
  · rename_i hc
    simp only [Bool.and_eq_true, List.isEmpty_iff, beq_iff_eq] at hc
    obtain ⟨ho, hn⟩ := others_of_owned_nil hc.1
    have hl : ps.length = b.length := by simpa [ho] using hc.2
    refine Or.inr ⟨by simpa using hn, hl, ?_⟩
    rw [ho]
    exact byPosition_zipIdx b ps hl
  · exact Or.inl rfl

theorem key_mem_assign {b : Batch} {ps : List PackageReport} {x : String × PackageReport}
    (hx : x ∈ b.assign ps) : ∃ r ∈ b, r.key = x.1 := by
  rcases assign_cases b ps with h | ⟨_, _, h⟩
  · rw [h] at hx
    obtain ⟨r, hr, hk, _⟩ := (mem_owned hx).2
    exact ⟨r, hr, hk⟩
  · rw [h] at hx
    exact List.mem_map.mp (List.of_mem_zip hx).1

theorem nodup_keys_assign {b : Batch} (hb : (b.map (·.key)).Nodup) (ps : List PackageReport) :
    ((b.assign ps).map (·.1)).Nodup := by
  rcases assign_cases b ps with h | ⟨_, hl, h⟩
  · rw [h]
    exact nodup_owned b [] 0 ps
  · rw [h, List.map_fst_zip (by simp [hl])]
    exact hb

/-- Reports that echo keys of the batch, each once, are given to them whatever their order. -/
theorem byCoordinate_of_echoes {b : Batch} (taken : List String) (place : ℕ)
    {ps : List PackageReport} (hk : ∀ p ∈ ps, ∃ r ∈ b, r.key = p.cacheKey)
    (hn : (ps.map (·.cacheKey)).Nodup) (ht : ∀ p ∈ ps, p.cacheKey ∉ taken) :
    byCoordinate b taken place ps = ⟨ps.map fun p => (p.cacheKey, p), []⟩ := by
  induction ps generalizing taken place with
  | nil => rfl
  | cons p ps ih =>
    obtain ⟨r, hr, hrk⟩ := hk p List.mem_cons_self
    rw [List.map_cons, List.nodup_cons] at hn
    have hopen : r ∈ b.filter fun r => !taken.contains r.key := by
      rw [List.mem_filter]
      exact ⟨hr, by simpa [hrk] using ht p List.mem_cons_self⟩
    obtain ⟨r', _, hrk', ho⟩ := owner?_of_key hopen hrk
    have htaken : ∀ q ∈ ps, q.cacheKey ∉ r'.key :: taken := by
      intro q hq hm
      rcases List.mem_cons.mp hm with he | hm
      · exact hn.1 (List.mem_map.mpr ⟨q, hq, by rw [he, hrk']⟩)
      · exact ht q (List.mem_cons_of_mem _ hq) hm
    have ih := ih (r'.key :: taken) (place + 1) (fun q hq => hk q (List.mem_cons_of_mem _ hq)) hn.2 htaken
    simp only [byCoordinate, ho, ih, List.map_cons]
    rw [hrk']

theorem assign_of_echoes {b : Batch} {ps : List PackageReport}
    (hk : ∀ p ∈ ps, ∃ r ∈ b, r.key = p.cacheKey) (hn : (ps.map (·.cacheKey)).Nodup) :
    b.assign ps = ps.map fun p => (p.cacheKey, p) := by
  have h := byCoordinate_of_echoes [] 0 hk hn (by simp)
  simp only [assign, h]
  split
  · rename_i hc
    simp only [Bool.and_eq_true, List.isEmpty_iff] at hc
    simp [byPosition, hc.1]
  · rfl

example : (Batch.assign [.single ⟨"npm", none, "a", some "[1.0,2.0)"⟩,
      .single ⟨"npm", none, "b", some "1.0.0"⟩]
    [{ PackageReport.blank with coordinates := "pkg:npm/b@1.0.0" },
      { PackageReport.blank with coordinates := "npm:a@1.5.0" }]).map (·.1) =
    ["npm:b@1.0.0", "npm:a@[1.0,2.0)"] := by
  decide +kernel

end Batch
end DependencyAudit
