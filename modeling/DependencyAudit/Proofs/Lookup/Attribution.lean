import DependencyAudit.Proofs.Coordinate.Stability
import DependencyAudit.Proofs.Lookup.Assignment

/-! Whose package a report is taken for. A report stands under a key that is read as the package its
own key is read as, unless all the reports of an answer were assigned by position. Where both keys are
read as the coordinates they were made from, that is the package that the report names. -/
namespace DependencyAudit

/-- The identity of the coordinate that is read from a key. It is not always that of the coordinate
which the key was made from: a slash in the name is taken for the end of the group. -/
def keyIdentity? (key : String) : Option CoordinateKey :=
  (Coordinate.ofText key).toOption.map (·.key)

theorem keyIdentity?_of_keyedAs {c low : Coordinate} (h : c.KeyedAs low) :
    keyIdentity? c.cacheKey = some low.key := by
  simp [keyIdentity?, h.read, Except.toOption]

theorem PackageReport.Names.keyIdentity?_eq {p : PackageReport} {r : InclusionPath} (h : p.Names r) :
    keyIdentity? r.key = keyIdentity? p.cacheKey := by
  rcases h with h | ⟨registered, reported, hr, hp, ha⟩
  · rw [h]
  · have hkey : registered.key = reported.key := by
      simp only [Coordinate.agrees, Bool.and_eq_true, beq_iff_eq] at ha
      exact ha.1
    simp [keyIdentity?, hr, hp, hkey, Except.toOption]

namespace Batch

/-- The report can be told by its coordinate: its key is one of the batch, or its coordinate agrees
with that of exactly one registration. -/
def Recognizes (b : Batch) (p : PackageReport) : Prop :=
  (∃ r ∈ b, r.key = p.cacheKey) ∨ (b.filter (agrees p)).length = 1

theorem owner?_eq_none_iff_not_recognizes {b : Batch} {p : PackageReport} :
    owner? b p = none ↔ ¬b.Recognizes p := by
  rw [owner?_eq_none_iff, Recognizes, not_or, not_exists]
  simp only [not_and]

theorem owned_eq_nil_of {b : Batch} {taken : List String} {place : ℕ} {ps : List PackageReport}
    (h : ∀ p ∈ ps, owner? (b.filter fun r => !taken.contains r.key) p = none) :
    (byCoordinate b taken place ps).owned = [] := by
  induction ps generalizing place with
  | nil => rfl
  | cons p ps ih =>
    have hp := h p List.mem_cons_self
    have ih : (byCoordinate b taken (place + 1) ps).owned = [] :=
      ih fun q hq => h q (List.mem_cons_of_mem _ hq)
    simp only [byCoordinate, hp, ih]

/-- Where no report can be told by its coordinate, and there is one for each registration, the
places decide. -/
theorem assign_by_position {b : Batch} {ps : List PackageReport} (h : ∀ p ∈ ps, ¬b.Recognizes p)
    (hl : ps.length = b.length) : b.assign ps = (b.map (·.key)).zip ps := by
  have howned : (byCoordinate b [] 0 ps).owned = [] := owned_eq_nil_of fun p hp => by
    simpa using owner?_eq_none_iff_not_recognizes.mpr (h p hp)
  have hothers := (others_of_owned_nil howned).1
  have hlength : (byCoordinate b [] 0 ps).others.length = b.length := by simp [hothers, hl]
  have hassign : b.assign ps = byPosition b (byCoordinate b [] 0 ps).others := by
    simp [assign, howned, hlength]
  rw [hassign, hothers]
  exact byPosition_zipIdx b ps hl

/-- Where one report can be told by its coordinate, or the numbers differ, the coordinates decide. -/
theorem assign_by_coordinate {b : Batch} {ps : List PackageReport}
    (h : (∃ p ∈ ps, b.Recognizes p) ∨ ps.length ≠ b.length) :
    b.assign ps = (byCoordinate b [] 0 ps).owned := by
  rcases assign_cases b ps with ha | ⟨hn, hl, -⟩
  · exact ha
  · rcases h with ⟨p, hp, hr⟩ | h
    · exact absurd hr (owner?_eq_none_iff_not_recognizes.mp (hn p hp))
    · exact absurd hl h

/-- A report is given to a registration whose key is read as its own key is, unless none of the reports
can be told by its coordinate and there are as many of them as registrations: then each goes to the
registration in its place, whatever package it names. Where both keys are read as the coordinates from
which they were made, the registered one and that of the report have one identity in lower case. -/
theorem assign_keeps_identity (b : Batch) (ps : List PackageReport) :
    ((∃ p ∈ ps, b.Recognizes p) ∨ ps.length ≠ b.length →
      ∀ p, ∀ r ∈ b, (r.key, p) ∈ b.assign ps →
        keyIdentity? r.key = keyIdentity? p.cacheKey ∧
        ∀ c own registered, p.coordinate = .ok c → c.KeyedAs own →
          r.target.KeyedAs registered → registered.key = own.key) ∧
    ((∀ p ∈ ps, ¬b.Recognizes p) → ps.length = b.length →
      b.assign ps = (b.map (·.key)).zip ps) := by
  refine ⟨fun h p r _ hx => ?_, assign_by_position⟩
  rw [assign_by_coordinate h] at hx
  obtain ⟨s, -, hkey, hnames⟩ := (mem_owned hx).2
  have hidentity : keyIdentity? r.key = keyIdentity? p.cacheKey := calc
    keyIdentity? r.key = keyIdentity? s.key := congrArg keyIdentity? hkey.symm
    _ = keyIdentity? p.cacheKey := hnames.keyIdentity?_eq
  refine ⟨hidentity, fun c own registered hc hown hregistered => ?_⟩
  rwa [PackageReport.cacheKey_of_coordinate hc, keyIdentity?_of_keyedAs hown, InclusionPath.key,
    keyIdentity?_of_keyedAs hregistered, Option.some_inj] at hidentity

/-- A report that spells its package in other letters is given to the registered range. -/
theorem assign_keeps_identity_cased :
    let r : InclusionPath := .single ⟨"NPM", some "@Types", "node", some "[1.0,2.0)"⟩
    let p := { PackageReport.blank with coordinates := "npm:@types/Node@1.5" }
    let c : Coordinate := ⟨"npm", some "@types", "Node", some "1.5"⟩
    p.coordinate = .ok c ∧ (r.key, p) ∈ assign [r] [p] ∧ keyIdentity? r.key = keyIdentity? p.cacheKey ∧
      ∃ own registered, c.KeyedAs own ∧ r.target.KeyedAs registered ∧ registered.key = own.key := by
  intro r p c
  have hc : p.coordinate = .ok c := by decide +kernel
  have hx : (r.key, p) ∈ assign [r] [p] := by decide +kernel
  have htarget : Coordinate.ofText "NPM:@Types/node@[1.0,2.0)" = .ok r.target := by decide +kernel
  obtain ⟨own, hown⟩ := (Coordinate.exists_keyedAs_iff (Coordinate.of_ofText hc).1).mpr
    ⟨by decide +kernel, by decide, (Coordinate.of_ofText hc).2⟩
  obtain ⟨registered, hregistered⟩ :=
    (Coordinate.exists_keyedAs_iff (Coordinate.of_ofText htarget).1).mpr
      ⟨by decide +kernel, by decide, (Coordinate.of_ofText htarget).2⟩
  have hrecognized : Recognizes [r] p := Or.inr (by decide +kernel)
  obtain ⟨hkeys, hidentity⟩ := (assign_keeps_identity [r] [p]).1
    (Or.inl ⟨p, List.mem_singleton_self p, hrecognized⟩) p r (List.mem_singleton_self r) hx
  exact ⟨hc, hx, hkeys, own, registered, hown, hregistered,
    hidentity c own registered hc hown hregistered⟩

/-- Two packages, asked for in versions that the service does not know: each is given the report of
the other, whose coordinate could be read and whose package is in the batch. And a report whose key is
that of a name with a slash is given to that registration, though it names a package of the batch. -/
theorem assign_swaps_packages :
    let a : Coordinate := ⟨"npm", none, "a", some "1.0.0"⟩
    let b : Coordinate := ⟨"npm", none, "b", some "1.0.0"⟩
    let swapped : Batch := [.single a, .single b]
    let p := { PackageReport.blank with coordinates := "npm:b@2.0.0" }
    let q := { PackageReport.blank with coordinates := "npm:a@2.0.0" }
    let slash : Coordinate := ⟨"maven", some "a", "b/c", some "1.0"⟩
    let plain : Coordinate := ⟨"maven", some "a/b", "c", some "2.0"⟩
    let alike : Batch := [.single slash, .single plain]
    let o := { PackageReport.blank with coordinates := "maven:a/b/c@1.0" }
    ((swapped.map (·.key)).Nodup ∧ p.coordinate = .ok { b with version := some "2.0.0" } ∧
      (InclusionPath.single a).target.key ≠ b.key ∧
      ((InclusionPath.single a).key, p) ∈ swapped.assign [p, q]) ∧
    (alike.map (·.key)).Nodup ∧ o.coordinate = .ok { plain with version := some "1.0" } ∧
      (InclusionPath.single slash).target.key ≠ plain.key ∧
      ((InclusionPath.single slash).key, o) ∈ alike.assign [o] := by
  decide +kernel

end Batch
end DependencyAudit
