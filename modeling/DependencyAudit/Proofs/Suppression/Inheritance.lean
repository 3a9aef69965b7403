import DependencyAudit.Proofs.Suppression.Filtering

/-! What is suppressed on a path stays suppressed wherever that path is a part of a longer one: when its
root is pulled in by something else, and for all that its target pulls in. -/
namespace DependencyAudit

namespace InclusionPath

theorem exists_ofList? {cs : List Coordinate} (h : cs ≠ []) : ∃ p, ofList? cs = .ok p := by
  rw [ofList?, List.getLast?_eq_getLast_of_ne_nil h]
  exact ⟨_, rfl⟩

/-- The path of a package that the target pulls in through others, one after another. -/
def descend (p : InclusionPath) (below : List Coordinate) : InclusionPath := below.foldl child p

@[simp] theorem coordinates_descend (p : InclusionPath) (below : List Coordinate) :
    (p.descend below).coordinates = p.coordinates ++ below := by
  induction below generalizing p with
  | nil => exact (List.append_nil _).symm
  | cons c below ih =>
    calc ((p.child c).descend below).coordinates
        = (p.child c).coordinates ++ below := ih (p.child c)
      _ = p.coordinates ++ c :: below := by rw [coordinates_child, List.append_assoc, List.singleton_append]

end InclusionPath

variable {p q : InclusionPath} {id : String}

theorem Suppression.Occurs.within {pattern chain chain' : List Coordinate}
    (h : Occurs pattern chain) (hc : chain <:+: chain') : Occurs pattern chain' := by
  obtain ⟨hne, before, run, after, rfl, hrun⟩ := h
  obtain ⟨above, below, rfl⟩ := hc
  exact ⟨hne, above ++ before, run, after ++ below, by simp, hrun⟩

/-- Only a rule that holds everywhere does without a run of the path, and it does so on every path. -/
theorem Rule.Suppresses.within {r : Rule} (h : r.Suppresses p id)
    (hc : p.coordinates <:+: q.coordinates) : r.Suppresses q id := by
  cases h with
  | package h => exact .package (h.within hc)
  | everywhere => exact .everywhere
  | onPath h => exact .onPath (h.within hc)

/-- A finding that a rule suppresses on a path is suppressed on every path of which that one is a part,
whatever stands above and below, and so for all that the target pulls in, directly or through others. -/
theorem Rule.suppresses_inherited {r : Rule} (h : r.suppresses p id = true)
    (above below : List Coordinate) :
    (∃ q, InclusionPath.ofList? (above ++ p.coordinates ++ below) = .ok q ∧
      q.coordinates = above ++ p.coordinates ++ below ∧ r.suppresses q id = true) ∧
    (∀ c, r.suppresses (p.child c) id = true) ∧ r.suppresses (p.descend below) id = true := by
  have hon (q : InclusionPath) (hq : p.coordinates <:+: q.coordinates) : r.suppresses q id = true :=
    suppresses_iff.mpr ((suppresses_iff.mp h).within hq)
  have hne : above ++ p.coordinates ++ below ≠ [] := by simp
  obtain ⟨q, hq⟩ := InclusionPath.exists_ofList? hne
  have hcoordinates := InclusionPath.coordinates_of_ofList? hq
  refine ⟨⟨q, hq, hcoordinates, hon q ?_⟩, fun c => hon _ ?_, hon _ ?_⟩
  · exact ⟨above, below, hcoordinates.symm⟩
  · rw [InclusionPath.coordinates_child]
    exact (List.prefix_append _ _).isInfix
  · rw [InclusionPath.coordinates_descend]
    exact (List.prefix_append _ _).isInfix

/-- A chain of two packages is named, of which the second has a range of versions. The path goes on below
it, and its root gets a parent. -/
theorem Rule.suppresses_inherited_moved :
    let a (name : String) (version : Option String) : Coordinate :=
      ⟨"maven", some "org.example", name, version⟩
    let r : Rule := .ignoreVulnerability (some [a "app" none, a "lib" (some "[1.0,2.0)")]) "CVE-1"
    let p : InclusionPath := (InclusionPath.single (a "app" (some "3"))).child (a "lib" (some "1.5"))
    let below := [a "core" none, a "log" (some "2.17")]
    r.suppresses p "CVE-1" = true ∧
      (∃ q, InclusionPath.ofList? ([a "suite" none] ++ p.coordinates ++ below) = .ok q ∧
        r.suppresses q "CVE-1" = true) ∧
      r.suppresses (p.child (a "core" none)) "CVE-1" = true ∧
      r.suppresses (p.descend below) "CVE-1" = true := by
  intro a r p below
  have h : r.suppresses p "CVE-1" = true := by decide +kernel
  obtain ⟨⟨q, hq, -, hmoved⟩, hchild, hbelow⟩ := suppresses_inherited h [a "suite" none] below
  exact ⟨h, ⟨q, hq, hmoved⟩, hchild _, hbelow⟩

namespace Filter

theorem suppresses_within {f : Filter} (hc : p.coordinates <:+: q.coordinates)
    (h : f.suppresses p id = true) : f.suppresses q id = true := by
  obtain ⟨r, hr, hs⟩ := List.any_eq_true.mp h
  rw [Rule.suppresses_iff] at hs
  exact List.any_eq_true.mpr ⟨r, hr, Rule.suppresses_iff.mpr (hs.within hc)⟩

/-- A package that is moved below another one brings no finding back. -/
theorem vulnerabilities_apply_sublist_within (f : Filter) (report : PackageReport)
    (hc : p.coordinates <:+: q.coordinates) :
    List.Sublist (f.apply report q).vulnerabilities (f.apply report p).vulnerabilities := by
  rw [apply_eq, apply_eq]
  refine List.monotone_filter_right _ fun v hv => ?_
  rw [Bool.not_eq_true'] at hv ⊢
  rw [← Bool.not_eq_true] at hv ⊢
  exact fun hs => hv (suppresses_within hc hs)

end Filter
end DependencyAudit
