import Mathlib.Data.List.Nodup
import DependencyAudit.Lookup.Run
import DependencyAudit.Proofs.Cache.View

/-! Which reports a run has from its store, and for which registrations it has to ask. -/
namespace DependencyAudit.Lookup

theorem mem_of_report? {found : Assignment} {key : String} {p : PackageReport}
    (h : report? found key = some p) : (key, p) ∈ found := by
  simp only [report?, Option.map_eq_some_iff] at h
  obtain ⟨⟨k, q⟩, hf, rfl⟩ := h
  obtain rfl : k = key := by simpa using List.find?_some hf
  exact List.mem_of_find?_eq_some hf

theorem report?_eq_none_iff {found : Assignment} {key : String} :
    report? found key = none ↔ ∀ x ∈ found, x.1 ≠ key := by
  simp [report?]

theorem report?_append (xs ys : Assignment) (key : String) :
    report? (xs ++ ys) key = (report? xs key).or (report? ys key) := by
  simp only [report?, List.find?_append]
  cases xs.find? (·.1 == key) <;> simp

theorem report?_filterMap (g : String → Option PackageReport) {keys : List String} {key : String}
    (hk : key ∈ keys) : report? (keys.filterMap fun k => (g k).map (k, ·)) key = g key := by
  induction keys with
  | nil => simp at hk
  | cons k keys ih =>
    by_cases he : k = key
    · subst he
      cases hg : g k with
      | some p => simp [report?, hg]
      | none =>
        simp only [List.filterMap_cons, hg, Option.map_none]
        rw [report?_eq_none_iff]
        rintro ⟨k', p⟩ hx rfl
        obtain ⟨k'', _, hp⟩ := List.mem_filterMap.mp hx
        simp only [Option.map_eq_some_iff, Prod.mk.injEq] at hp
        obtain ⟨q, hq, rfl, _⟩ := hp
        simp [hg] at hq
    · have hm : key ∈ keys := by
        rcases List.mem_cons.mp hk with rfl | hm
        · exact absurd rfl he
        · exact hm
      cases hg : g k with
      | some p => simpa [report?, hg, he] using ih hm
      | none => simpa [report?, hg] using ih hm

variable {σ τ : Type}

/-- The report that a store shows under one of the keys; a store that cannot be read shows none. -/
def shown (store : Store σ) (now : Timestamp) (keys : List String) (s : σ) (key : String) :
    Option PackageReport :=
  match store.fetch now keys s with
  | .error _ => none
  | .ok found => (found.get? key).bind (·.report.toOption)

theorem report?_cached (l : Lookup) (store : Store σ) (now : Timestamp) (s : σ) {key : String}
    (hk : key ∈ l.keys) :
    report? (l.cached store now s) key = shown store now l.keys s key := by
  unfold cached shown
  cases store.fetch now l.keys s with
  | error e => rfl
  | ok found =>
    refine Eq.trans (congrArg (report? · key) ?_)
      (report?_filterMap (fun k => (found.get? k).bind (·.report.toOption)) hk)
    apply List.filterMap_congr
    intro k _
    cases hf : found.get? k with
    | none => rfl
    | some e => cases hp : e.report.toOption <;> simp [hp]

/-- The report of the live entry under a key, where there is one and it can be decoded. -/
def stored {store : Store σ} (v : store.View) (now : Timestamp) (s : σ) (key : String) :
    Option PackageReport :=
  ((v.content s key).filter (v.isLive now)).bind (·.report.toOption)

theorem shown_eq_stored {store : Store σ} (v : store.View) {now : Timestamp} {keys : List String}
    {s : σ} {found : Entries} (h : store.fetch now keys s = .ok found) {key : String}
    (hk : key ∈ keys) : shown store now keys s key = stored v now s key := by
  simp only [shown, stored, h, v.get?_fetch h key hk]

/-- The registrations under whose keys no report is stored. -/
def missing (l : Lookup) {store : Store σ} (v : store.View) (now : Timestamp) (s : σ) :
    List InclusionPath :=
  l.registrations.filter fun r => (stored v now s r.key).isNone

theorem key_mem_keys {l : Lookup} {r : InclusionPath} (hr : r ∈ l.registrations) :
    r.key ∈ l.keys :=
  List.mem_map.mpr ⟨r, hr, rfl⟩

theorem mem_misses {l : Lookup} {found : Assignment} {r : InclusionPath} :
    r ∈ l.misses found ↔ r ∈ l.registrations ∧ report? found r.key = none := by
  simp [misses, List.mem_filter]

theorem nodup_keys_misses {l : Lookup} (hn : l.keys.Nodup) (found : Assignment) :
    ((l.misses found).map (·.key)).Nodup :=
  hn.sublist (List.filter_sublist.map _)

/-- A run that can read its store asks for what is missing there. -/
theorem misses_cached (l : Lookup) {store : Store σ} (v : store.View) {now : Timestamp} {s : σ}
    {found : Entries} (h : store.fetch now l.keys s = .ok found) :
    l.misses (l.cached store now s) = l.missing v now s := by
  unfold misses missing
  apply List.filter_congr
  intro r hr
  rw [report?_cached l store now s (key_mem_keys hr), shown_eq_stored v h (key_mem_keys hr)]

/-- Two registrations with one key are one registration. -/
theorem eq_of_key_eq {l : Lookup} (hn : l.keys.Nodup) {r r' : InclusionPath}
    (hr : r ∈ l.registrations) (hr' : r' ∈ l.registrations) (hk : r.key = r'.key) : r = r' :=
  List.inj_on_of_nodup_map hn hr hr' hk

end DependencyAudit.Lookup
