import Mathlib.Data.List.Chain
import DependencyAudit.Proofs.Audit.Reachable
import DependencyAudit.Proofs.Text.Pieces

/-! What an auditor registers for a forest: the artifacts in preorder that are not ignored, each with
the chain from its root, and of several under one key the first. -/
namespace DependencyAudit

namespace Dependency

/-- The name is not blank. -/
def IsNamed (d : Dependency) : Prop := ∃ c ∈ d.name.toList, Text.isBlank c = false

instance (d : Dependency) : Decidable d.IsNamed :=
  decidable_of_iff (d.name.toList.any (!Text.isBlank ·) = true) (by simp [IsNamed])

/-- The coordinate of an artifact that has a name. -/
def identity (d : Dependency) : Coordinate :=
  ⟨auditedEcosystem, Text.present? d.group, String.ofList (Text.trim d.name.toList),
    Text.present? d.version⟩

theorem coordinate_eq {d : Dependency} (h : d.IsNamed) : d.coordinate = .ok d.identity := by
  obtain ⟨c, hc, hb⟩ := h
  simp only [coordinate, CoordinateDraft.build, Text.present?_of_not_blank hc hb, identity]

/-- An artifact and the artifacts from its root down to its parent. -/
structure Lineage where
  ancestors : List Dependency
  target : Dependency

namespace Lineage

/-- The artifacts from the root down to the target. -/
def chain (l : Lineage) : List Dependency := l.ancestors ++ [l.target]

def path (l : Lineage) : InclusionPath := ⟨l.ancestors.map identity, l.target.identity⟩

@[simp] theorem coordinates_path (l : Lineage) : l.path.coordinates = l.chain.map identity := by
  simp [path, chain, InclusionPath.coordinates]

theorem eq_of_chain_eq {l : Lineage} {ancestors : List Dependency} {target : Dependency}
    (h : l.chain = ancestors ++ [target]) : l = ⟨ancestors, target⟩ := by
  obtain ⟨as, t⟩ := l
  obtain ⟨rfl, ht⟩ := List.append_inj' h rfl
  obtain rfl : t = target := by simpa using ht
  rfl

end Lineage

mutual

/-- An artifact and those below it in preorder, each with its ancestors. -/
def lineages (above : List Dependency) : Dependency → List Lineage
  | node group name version children =>
    ⟨above, node group name version children⟩ ::
      forestLineages (above ++ [node group name version children]) children

def forestLineages (above : List Dependency) : List Dependency → List Lineage
  | [] => []
  | d :: ds => lineages above d ++ forestLineages above ds

end

mutual

theorem target_lineages (above : List Dependency) (d : Dependency) :
    (lineages above d).map (·.target) = d.preorder := by
  match d with
  | node group name version children =>
    rw [lineages, List.map_cons, target_forestLineages, preorder]

theorem target_forestLineages (above : List Dependency) (ds : List Dependency) :
    (forestLineages above ds).map (·.target) = forestPreorder ds := by
  match ds with
  | [] => rw [forestLineages, List.map_nil, forestPreorder]
  | d :: ds =>
    rw [forestLineages, List.map_append, target_lineages, target_forestLineages, forestPreorder]

end

/-- A line of artifacts from a root of the forest, each of which depends on the next. -/
def IsLine (f : Forest) (line : List Dependency) : Prop :=
  (∃ root ∈ f, line.head? = some root) ∧ line.IsChain fun parent child => child ∈ parent.children

theorem mem_forestLineages_of_mem {above : List Dependency} {d : Dependency} {ds : List Dependency}
    {l : Lineage} (hd : d ∈ ds) (hl : l ∈ lineages above d) : l ∈ forestLineages above ds := by
  induction ds with
  | nil => simp at hd
  | cons first ds ih =>
    rw [forestLineages, List.mem_append]
    rcases List.mem_cons.mp hd with rfl | hd
    · exact Or.inl hl
    · exact Or.inr (ih hd)

theorem mem_forestLineages_of_isLine {above : List Dependency} {f : Forest} {l : Lineage}
    {line : List Dependency} (hl : l.chain = above ++ line) (hline : IsLine f line) :
    l ∈ forestLineages above f := by
  induction line generalizing above f with
  | nil => simp [IsLine] at hline
  | cons d rest ih =>
    obtain ⟨⟨root, hroot, hhead⟩, hchain⟩ := hline
    obtain rfl : d = root := by simpa using hhead
    apply mem_forestLineages_of_mem hroot
    obtain ⟨group, name, version, children⟩ := d
    rw [lineages, List.mem_cons]
    cases rest with
    | nil => exact Or.inl (Lineage.eq_of_chain_eq hl)
    | cons next rest =>
      right
      apply ih (by simpa using hl)
      obtain ⟨hnext, htail⟩ := List.isChain_cons_cons.mp hchain
      exact ⟨⟨next, hnext, rfl⟩, htail⟩

mutual

theorem exists_isLine_of_mem_lineages {above : List Dependency} {d : Dependency} {l : Lineage}
    (hl : l ∈ lineages above d) : ∃ line, l.chain = above ++ line ∧ IsLine [d] line := by
  match d with
  | node group name version children =>
    rw [lineages, List.mem_cons] at hl
    rcases hl with rfl | hl
    · exact ⟨[node group name version children], rfl, ⟨_, List.mem_singleton_self _, rfl⟩, by simp⟩
    · obtain ⟨line, hchain, ⟨child, hchild, hhead⟩, hline⟩ := exists_isLine_of_mem_forestLineages hl
      obtain ⟨rest, rfl⟩ := List.head?_eq_some_iff.mp hhead
      exact ⟨node group name version children :: child :: rest, by simpa using hchain,
        ⟨_, List.mem_singleton_self _, rfl⟩, List.isChain_cons_cons.mpr ⟨hchild, hline⟩⟩

theorem exists_isLine_of_mem_forestLineages {above : List Dependency} {ds : List Dependency}
    {l : Lineage} (hl : l ∈ forestLineages above ds) :
    ∃ line, l.chain = above ++ line ∧ IsLine ds line := by
  match ds with
  | [] => simp [forestLineages] at hl
  | d :: ds =>
    rw [forestLineages, List.mem_append] at hl
    rcases hl with hl | hl
    · obtain ⟨line, hchain, ⟨root, hroot, hhead⟩, hline⟩ := exists_isLine_of_mem_lineages hl
      exact ⟨line, hchain, ⟨root, by simp_all, hhead⟩, hline⟩
    · obtain ⟨line, hchain, ⟨root, hroot, hhead⟩, hline⟩ := exists_isLine_of_mem_forestLineages hl
      exact ⟨line, hchain, ⟨root, List.mem_cons_of_mem _ hroot, hhead⟩, hline⟩

end

/-- The chains are all lines that lead down from a root. -/
theorem mem_forestLineages_iff {f : Forest} {l : Lineage} :
    l ∈ forestLineages [] f ↔ IsLine f l.chain := by
  constructor
  · intro hl
    obtain ⟨line, hchain, hline⟩ := exists_isLine_of_mem_forestLineages hl
    rw [hchain]
    exact hline
  · exact mem_forestLineages_of_isLine rfl

end Dependency

namespace Settings

def ignores (settings : Settings) (d : Dependency) : Bool :=
  settings.isIgnored d.group d.name d.version

/-- The paths of the artifacts that are not ignored. -/
def audited (settings : Settings) (ls : List Dependency.Lineage) : List InclusionPath :=
  (ls.filter fun l => !settings.ignores l.target).map (·.path)

theorem audited_append (settings : Settings) (ls ls' : List Dependency.Lineage) :
    settings.audited (ls ++ ls') = settings.audited ls ++ settings.audited ls' := by
  simp [audited]

theorem foldl_audited_cons {α : Type} (settings : Settings) (l : Dependency.Lineage)
    (ls : List Dependency.Lineage) (f : α → InclusionPath → α) (x : α) :
    (settings.audited (l :: ls)).foldl f x =
      (settings.audited ls).foldl f (if settings.ignores l.target then x else f x l.path) := by
  cases h : settings.ignores l.target <;> simp [audited, h]

end Settings

namespace Auditor

open Dependency

variable {σ : Type} {settings : Settings}

theorem pathUnder_eq (parent : Option InclusionPath) (c : Coordinate) :
    pathUnder parent c = ⟨(parent.map (·.coordinates)).getD [], c⟩ := by
  cases parent <;> rfl

mutual

/-- A tree is registered artifact by artifact in preorder. -/
theorem addTree_eq {parent : Option InclusionPath} {above : List Dependency}
    (hp : (parent.map (·.coordinates)).getD [] = above.map identity) (d : Dependency)
    (hd : ∀ x ∈ d.preorder, x.IsNamed) (s : Service σ) :
    addTree settings parent d s =
      (.ok (), (settings.audited (lineages above d)).foldl Service.register s) := by
  match d with
  | node group name version children =>
    rw [preorder, List.forall_mem_cons] at hd
    have hc : (node group name version []).coordinate =
        .ok (node group name version children).identity :=
      coordinate_eq (d := node group name version []) hd.1
    have hpath : pathUnder parent (node group name version children).identity =
        Lineage.path ⟨above, node group name version children⟩ := by
      rw [pathUnder_eq, hp]
      rfl
    have hbelow : ((some (Lineage.path ⟨above, node group name version children⟩)).map
        (·.coordinates)).getD [] = (above ++ [node group name version children]).map identity :=
      Lineage.coordinates_path _
    rw [lineages, Settings.foldl_audited_cons, addTree]
    simp only [hc, hpath]
    exact addTrees_eq hbelow children hd.2 _

theorem addTrees_eq {parent : Option InclusionPath} {above : List Dependency}
    (hp : (parent.map (·.coordinates)).getD [] = above.map identity) (ds : List Dependency)
    (hd : ∀ x ∈ forestPreorder ds, x.IsNamed) (s : Service σ) :
    addTrees settings parent ds s =
      (.ok (), (settings.audited (forestLineages above ds)).foldl Service.register s) := by
  match ds with
  | [] => rfl
  | d :: ds =>
    rw [forestPreorder, List.forall_mem_append] at hd
    rw [addTrees, addTree_eq hp d hd.1 s, forestLineages, Settings.audited_append,
      List.foldl_append]
    exact addTrees_eq hp ds hd.2 _

end

/-- A forest is registered behind what was there: the paths of its artifacts that are not ignored, in
preorder, the first one under each new key. -/
theorem registrations_addForest (a : Auditor σ) {f : Forest}
    (hf : ∀ x ∈ forestPreorder f, x.IsNamed) :
    (a.addForest f).1 = .ok () ∧
      (a.addForest f).2.service =
        (a.settings.audited (forestLineages [] f)).foldl Service.register a.service := by
  have h : addTrees a.settings none f a.service =
      (.ok (), (a.settings.audited (forestLineages [] f)).foldl Service.register a.service) :=
    addTrees_eq rfl f hf a.service
  simp only [addForest, h, and_self]

/-- A new auditor registers, for a forest of artifacts with names, the artifacts that are not ignored:
in preorder, each with the whole chain from its root, ignored artifacts in between included, and of
several under one key the first. -/
theorem addForest_registers {settings : Settings} {a : Auditor σ} {d d' : Disk}
    (ha : new settings d = (.ok a, d')) {f : Forest} (hf : ∀ x ∈ forestPreorder f, x.IsNamed) :
    let lines := forestLineages [] f
    let audited := lines.filter fun l => !settings.ignores l.target
    let after := (a.addForest f).2.service
    (a.addForest f).1 = .ok () ∧
      after.registrations =
        (audited.map (·.path)).eraseDupsBy (fun p q => p.key == q.key) ∧
      lines.map (·.target) = forestPreorder f ∧
      (∀ l, l ∈ lines ↔ IsLine f l.chain) ∧
      (∀ l ∈ lines, l.path.coordinates = l.chain.map identity) ∧
      ∀ l ∈ audited, after.isRegistered l.path.key = true := by
  intro lines audited after
  obtain ⟨rfl, hempty, hconfigured⟩ := of_new ha
  obtain ⟨hok, hservice⟩ := registrations_addForest a hf
  refine ⟨hok, ?_, target_forestLineages [] f, fun l => mem_forestLineages_iff,
    fun l _ => l.coordinates_path, ?_⟩
  · have hnew : ∀ p : InclusionPath, a.service.isRegistered p.key = false := by
      intro p
      rw [Bool.eq_false_iff, Ne, hconfigured.reachable.indexed.isRegistered_iff, hempty]
      simp
    have hregistrations := Service.registrations_foldl_register a.service
      (a.settings.audited lines)
    simp only [hempty, hnew, Bool.not_false, List.filter_true, List.nil_append] at hregistrations
    simp only [after, hservice]
    exact hregistrations
  · intro l hl
    simp only [after, hservice]
    exact Service.isRegistered_foldl_register
      (Or.inr ⟨l.path, List.mem_map.mpr ⟨l, hl, rfl⟩, rfl⟩)

/-- An ignored artifact stands in the chain of the one below it, which is found again, in other
letters, below another one. -/
theorem addForest_registers_below_ignored :
    let settings : Settings :=
      { Settings.default ⟨"/s", "/c"⟩ with cacheFile := none, ignored := ["org:shaded:*"] }
    let a : Auditor Entries := ⟨Service.new, settings⟩
    let library (name : String) : Dependency := .node "org" name "2" []
    let f : Forest := [.node "org" "app" "1" [.node "org" "shaded" "1" [library "lib"]],
      .node "org" "tool" " 3 " [library "LIB"]]
    let coordinate (name version : String) : Coordinate := ⟨"maven", "org", name, version⟩
    let app := coordinate "app" "1"
    new settings .empty = (.ok a, .empty) ∧ (∀ x ∈ forestPreorder f, x.IsNamed) ∧
      (a.addForest f).1 = .ok () ∧
      (a.addForest f).2.service.registrations =
        [.single app, ⟨[app, coordinate "shaded" "1"], coordinate "lib" "2"⟩,
          .single (coordinate "tool" "3")] := by
  intro settings a library f coordinate app
  have ha : new settings .empty = (.ok a, .empty) := rfl
  have hf : ∀ x ∈ forestPreorder f, x.IsNamed := by
    simp only [f, library, forestPreorder, preorder, List.append_nil, List.cons_append,
      List.nil_append, List.forall_mem_cons]
    decide +kernel
  obtain ⟨hok, hregistrations, -⟩ := addForest_registers ha hf
  refine ⟨ha, hf, hok, hregistrations.trans ?_⟩
  decide +kernel

end Auditor
end DependencyAudit
