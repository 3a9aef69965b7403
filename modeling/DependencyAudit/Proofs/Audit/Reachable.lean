import DependencyAudit.Audit
import DependencyAudit.Proofs.Lookup.Reachable

/-! What an auditor can become by calls of its operations, and how its service keeps to the
settings. -/
namespace DependencyAudit

/-- The rules that the settings ask for. -/
def Settings.filter (settings : Settings) : Filter := ⟨settings.exclusions.filterMap (·.rule?)⟩

namespace Service

variable {σ τ : Type} {settings : Settings}

/-- The service looks up packages as the settings say. -/
structure Configured (settings : Settings) (s : Service σ) : Prop where
  reachable : s.Reachable
  lookup_eq : s.lookup =
    ⟨s.registrations, settings.filter, settings.batchSize, settings.usableCredentials⟩
  batchSize_pos : 0 < settings.batchSize

theorem lookup_setLocation {s s' : Service σ} {path : Option String} {d d' : Disk}
    (h : s.setLocation path d = (.ok s', d')) : s'.lookup = s.lookup := by
  simp only [setLocation] at h
  split at h
  · cases h
    rfl
  · split at h <;> cases h
    rfl

theorem lookup_foldl_addRule (s : Service σ) (rules : List Rule) :
    (rules.foldl addRule s).lookup = { s.lookup with filter := ⟨s.filter.rules ++ rules⟩ } := by
  induction rules generalizing s with
  | nil => simp [lookup]
  | cons r rules ih =>
    rw [List.foldl_cons, ih]
    simp [lookup, addRule, Filter.add]

theorem reachable_foldl_addRule {s : Service σ} (h : s.Reachable) (rules : List Rule) :
    (rules.foldl addRule s).Reachable := by
  induction rules generalizing s with
  | nil => exact h
  | cons r rules ih => exact ih (h.addRule r)

theorem configured_foldl_addRule {s : Service σ} (hr : s.Reachable)
    (hs : s.lookup = ⟨[], .empty, settings.batchSize, settings.usableCredentials⟩)
    (hpos : 0 < settings.batchSize) :
    let configured := settings.filter.rules.foldl addRule s
    configured.registrations = [] ∧ configured.Configured settings := by
  have hall := lookup_foldl_addRule s settings.filter.rules
  have hempty : s.filter = .empty := congrArg Lookup.filter hs
  rw [hs, hempty] at hall
  have hnone := congrArg Lookup.registrations hall
  refine ⟨hnone, reachable_foldl_addRule hr _, ?_, hpos⟩
  rw [hall]
  exact congrArg
    (Lookup.mk · settings.filter settings.batchSize settings.usableCredentials) hnone.symm

namespace Configured

theorem withStore {s : Service σ} (h : s.Configured settings) (store : Store σ) :
    (s.withStore store).Configured settings :=
  ⟨.withStore store h.reachable, h.lookup_eq, h.batchSize_pos⟩

theorem register {s : Service σ} (h : s.Configured settings) (path : InclusionPath) :
    (s.register path).Configured settings := by
  refine ⟨.register path h.reachable, ?_, h.batchSize_pos⟩
  have hlookup : (s.register path).lookup =
      { s.lookup with registrations := (s.register path).registrations } := by
    unfold Service.register
    split <;> rfl
  rw [hlookup, h.lookup_eq]

theorem run {s : Service σ} (h : s.Configured settings) (transport : Transport τ) (clock : Clock)
    (w : World σ) (t : τ) : (s.run transport clock w t).service.Configured settings := by
  refine ⟨.run transport clock w t h.reachable, ?_, h.batchSize_pos⟩
  rw [lookup_run, registrations_run, h.lookup_eq]

end Configured
end Service

namespace Auditor

variable {σ : Type}

mutual

/-- What every registration keeps is kept by registering a tree. -/
theorem addTree_keeps {settings : Settings} {P : Service σ → Prop}
    (hP : ∀ s path, P s → P (s.register path)) (parent : Option InclusionPath) (d : Dependency)
    {s : Service σ} (hs : P s) : P (addTree settings parent d s).2 := by
  match d with
  | .node group name version children =>
    rw [addTree]
    split
    · exact hs
    · apply addTrees_keeps hP
      split
      · exact hs
      · exact hP _ _ hs

theorem addTrees_keeps {settings : Settings} {P : Service σ → Prop}
    (hP : ∀ s path, P s → P (s.register path)) (parent : Option InclusionPath)
    (ds : List Dependency) {s : Service σ} (hs : P s) : P (addTrees settings parent ds s).2 := by
  match ds with
  | [] => exact hs
  | d :: ds =>
    have htree : P (addTree settings parent d s).2 := addTree_keeps hP parent d hs
    rw [addTrees]
    split
    · rename_i heq
      rwa [heq] at htree
    · rename_i heq
      rw [heq] at htree
      exact addTrees_keeps hP parent ds htree

end

/-- What calls of the operations make of a new auditor, in any order. -/
inductive Reachable : Auditor σ → Prop
  | new {settings : Settings} {a : Auditor σ} {d d' : Disk} :
    new settings d = (.ok a, d') → Reachable a
  | withStore {a : Auditor σ} (store : Store σ) : Reachable a → Reachable (a.withStore store)
  | addForest {a : Auditor σ} (f : Forest) : Reachable a → Reachable (a.addForest f).2
  | run {a : Auditor σ} {τ : Type} (transport : Transport τ) (clock : Clock) (w : World σ) (t : τ) :
    Reachable a → Reachable (a.run transport clock w t).auditor

/-- A new auditor has the settings, and nothing is registered. -/
theorem of_new {settings : Settings} {a : Auditor σ} {d d' : Disk}
    (h : new settings d = (.ok a, d')) :
    a.settings = settings ∧ a.service.registrations = [] ∧ a.service.Configured settings := by
  simp only [new] at h
  split at h
  · cases h
  · rename_i located d₁ hlocation
    split at h
    · cases h
    · rename_i sized hsize
      have hlocated : located.lookup = (Service.new : Service σ).lookup :=
        Service.lookup_setLocation hlocation
      have hreachable : sized.Reachable :=
        .setBatchSize (.setTtl _ (.setLocation .new hlocation)) hsize
      simp only [Service.setBatchSize] at hsize
      split at hsize
      · cases hsize
      · rename_i hpos
        cases hsize
        cases h
        have hsized : located.registrations = [] ∧ located.filter = .empty ∧
            located.credentials = none :=
          ⟨congrArg Lookup.registrations hlocated, congrArg Lookup.filter hlocated,
            congrArg Lookup.credentials hlocated⟩
        refine ⟨rfl, Service.configured_foldl_addRule ?_ ?_ (Nat.pos_of_ne_zero hpos)⟩
        all_goals cases hc : settings.usableCredentials
        · exact hreachable
        · exact .setCredentials _ hreachable
        · simp [Service.lookup, Service.setTtl, hsized]
        · simp [Service.lookup, Service.setTtl, Service.setCredentials, hsized]

/-- The service goes on to look up packages as the settings say. -/
theorem Reachable.configured {a : Auditor σ} (h : a.Reachable) :
    a.service.Configured a.settings := by
  induction h with
  | new h =>
    obtain ⟨hsettings, -, hconfigured⟩ := of_new h
    rwa [hsettings]
  | withStore store _ ih => exact ih.withStore store
  | addForest f _ ih => exact addTrees_keeps (fun _ path hs => hs.register path) none f ih
  | run transport clock w t _ ih => exact ih.run transport clock w t

end Auditor
end DependencyAudit
