import DependencyAudit.Coordinate.Hash
import DependencyAudit.Proofs.Range.Intersection
import DependencyAudit.Proofs.Suppression.Narrowing

/-! When coordinates agree. It does not matter which of two comes first, each agrees with itself, and
those that agree are one package; but two that agree with a third need not agree. -/
namespace DependencyAudit

namespace VersionRange

variable {left right : String}

/-- Two expressions can mean one version: they are the same text but for blanks around it, or both can
be read and an interval of one meets an interval of the other. -/
inductive Overlaps (left right : String) : Prop
  | same (h : Text.trim left.toList = Text.trim right.toList)
  | meet {r s : VersionRange} (hr : ofText left = .ok r) (hs : ofText right = .ok s)
      (h : r.intersects s = true)

theorem overlap_iff : overlap left right = true ↔ Overlaps left right := by
  simp only [overlap]
  split
  · rename_i h
    exact iff_of_true rfl (.same h)
  · rename_i hne
    split
    · rename_i r s hr hs
      constructor
      · exact .meet hr hs
      · rintro (h | ⟨hr', hs', h⟩)
        · exact absurd h hne
        · rw [hr] at hr'
          rw [hs] at hs'
          cases hr'
          cases hs'
          exact h
    · rename_i hnot
      refine iff_of_false Bool.false_ne_true ?_
      rintro (h | ⟨hr, hs, -⟩)
      · exact hne h
      · exact hnot _ _ hr hs

namespace Overlaps

theorem refl (expression : String) : Overlaps expression expression := .same rfl

theorem symm (h : Overlaps left right) : Overlaps right left := by
  cases h with
  | same h => exact .same h.symm
  | meet hr hs h => exact .meet hs hr (intersects_comm _ _ ▸ h)

theorem meet_of_ne (h : Overlaps left right)
    (hne : Text.trim left.toList ≠ Text.trim right.toList) :
    ∃ r s, ofText left = .ok r ∧ ofText right = .ok s ∧ r.intersects s = true := by
  cases h with
  | same h => exact absurd h hne
  | meet hr hs h => exact ⟨_, _, hr, hs, h⟩

end Overlaps

end VersionRange

/-- Keeps all that it takes in, the last first. -/
def Hasher.transcript : Hasher (List (String ⊕ Bool)) where
  text s t := .inl t :: s
  isThere s b := .inr b :: s

namespace Coordinate

open VersionRange (Overlaps)

variable {a b : Coordinate}

/-- Coordinates have one hash, whatever computes it, exactly if their identities are equal. -/
theorem hash_eq_iff :
    (∀ (σ : Type) (h : Hasher σ) (s : σ), a.hash h s = b.hash h s) ↔ a.key = b.key := by
  obtain ⟨e, g, n, v⟩ := a
  obtain ⟨e', g', n', v'⟩ := b
  constructor
  · intro hash
    replace hash := hash _ Hasher.transcript []
    cases g <;> cases g' <;>
      simp_all [Coordinate.hash, Hasher.optional, Hasher.transcript, key]
  · intro hkey σ h s
    cases hkey
    rfl

theorem versionsAgree_iff {v w : Option String} :
    versionsAgree v w = true ↔ ∀ x ∈ v, ∀ y ∈ w, Overlaps x y := by
  cases v with
  | none => exact iff_of_true rfl nofun
  | some x =>
    cases w with
    | none => exact iff_of_true rfl nofun
    | some y => simp [versionsAgree, VersionRange.overlap_iff]

/-- Two coordinates agree if they have one identity and their versions overlap, those that are there. -/
theorem agrees_iff : a.agrees b = true ↔
    a.key = b.key ∧ ∀ v ∈ a.version, ∀ w ∈ b.version, Overlaps v w := by
  rw [agrees, Bool.and_eq_true, beq_iff_eq, versionsAgree_iff]

theorem agrees_comm (a b : Coordinate) : a.agrees b = b.agrees a := by
  have hsymm {a b : Coordinate} (h : a.agrees b = true) : b.agrees a = true := by
    obtain ⟨hkey, hversion⟩ := agrees_iff.mp h
    exact agrees_iff.mpr ⟨hkey.symm, fun w hw v hv => (hversion v hv w hw).symm⟩
  exact Bool.eq_iff_iff.mpr ⟨hsymm, hsymm⟩

theorem agrees_self (a : Coordinate) : a.agrees a = true := by
  refine agrees_iff.mpr ⟨rfl, fun v hv w hw => ?_⟩
  obtain rfl : v = w := Option.mem_unique hv hw
  exact .refl v

/-- Which of two coordinates comes first does not matter, and each agrees with itself, also where its
version cannot be read. Those that agree have one identity and one hash, and agree still when a version
is left open. Versions with different texts agree only if both can be read and some interval of one
meets some interval of the other. -/
theorem agrees_laws (a b : Coordinate) :
    a.agrees b = b.agrees a ∧ a.agrees a = true ∧
    (a.agrees b = true → a.key = b.key ∧
      ∀ (σ : Type) (h : Hasher σ) (s : σ), a.hash h s = b.hash h s) ∧
    (∃ a', (CoordinateDraft.ofCoordinate a).anyVersion.build = .ok a' ∧ a'.version = none ∧
      (a.agrees b = true → a'.agrees b = true)) ∧
    ∀ v ∈ a.version, ∀ w ∈ b.version, Text.trim v.toList ≠ Text.trim w.toList →
      (a.agrees b = true → ∃ r s, VersionRange.ofText v = .ok r ∧ VersionRange.ofText w = .ok s ∧
        ∃ i ∈ r.intervals, ∃ j ∈ s.intervals, ∃ k, i.intersect? j = some k) ∧
      ∀ e, VersionRange.ofText v = .error e ∨ VersionRange.ofText w = .error e →
        a.agrees b = false := by
  have hopen : a.Narrows { a with version := none } := ⟨rfl, Or.inr rfl⟩
  refine ⟨agrees_comm a b, agrees_self a, fun h => ?_, ⟨_, rfl, rfl, hopen.agrees⟩, ?_⟩
  · have hkey := (agrees_iff.mp h).1
    exact ⟨hkey, hash_eq_iff.mpr hkey⟩
  · intro v hv w hw hne
    have hread (h : a.agrees b = true) := ((agrees_iff.mp h).2 v hv w hw).meet_of_ne hne
    refine ⟨fun h => ?_, fun e he => ?_⟩
    · obtain ⟨r, s, hr, hs, hmeet⟩ := hread h
      exact ⟨r, s, hr, hs, (VersionRange.intersects_iff r s).mp hmeet⟩
    · rw [← Bool.not_eq_true]
      intro h
      obtain ⟨r, s, hr, hs, -⟩ := hread h
      simp [hr, hs] at he

/-- A range and a version in it agree in either order, two texts that are no versions only if they are
the same. -/
theorem agrees_laws_unreadable :
    let node (v : String) : Coordinate := ⟨"npm", some "@types", "node", some v⟩
    (node "1.2").agrees (node "[1.0,2.0)") = true ∧ (node "[1.0,2.0)").agrees (node "1.2") = true ∧
      (node "RELEASE").agrees (node "RELEASE") = true ∧ (node "1.2").agrees (node "RELEASE") = false := by
  intro node
  have hrange : (node "1.2").agrees (node "[1.0,2.0)") = true := by decide +kernel
  have hunreadable : VersionRange.ofText "RELEASE" = .error ⟨"RELEASE", .version .noNumber⟩ := by
    decide +kernel
  refine ⟨hrange, (agrees_laws _ _).1 ▸ hrange, (agrees_laws _ (node "1.2")).2.1, ?_⟩
  exact ((agrees_laws (node "1.2") (node "RELEASE")).2.2.2.2 _ rfl _ rfl (by decide)).2 _
    (Or.inr hunreadable)

example :
    let node (v : String) : Coordinate := ⟨"npm", none, "node", some v⟩
    (node "[1,2]").agrees (node "[2,3]") = true ∧ (node "[2,3]").agrees (node "[3,4]") = true ∧
      (node "[1,2]").agrees (node "[3,4]") = false := by
  decide +kernel

end Coordinate
end DependencyAudit
