import DependencyAudit.Proofs.Suppression.Filtering

/-! A pattern is found where the chain is cut into a part before, a run as long as the pattern, and a
part after, so that the run agrees with the pattern place by place. -/
namespace DependencyAudit.Suppression

variable {pattern run chain : List Coordinate}

theorem agree_iff_getElem : Agree pattern run ↔ run.length = pattern.length ∧
    ∀ i (hp : i < pattern.length) (hr : i < run.length), pattern[i].agrees run[i] = true := by
  rw [Agree, List.forall₂_iff_get, eq_comm]
  rfl

theorem Occurs.length_le (h : Occurs pattern chain) : pattern.length ≤ chain.length := by
  obtain ⟨-, before, run, after, rfl, hrun⟩ := h
  have hlength := (agree_iff_getElem.mp hrun).1
  simp only [List.length_append]
  omega

/-- A pattern is found exactly if it is not empty and at some offset there is a run of its length that
agrees with it in each place, and so never on a path that is shorter than the pattern. -/
theorem found_iff_run (pattern : List Coordinate) (path : InclusionPath) :
    (found pattern path = true ↔ pattern ≠ [] ∧ ∃ offset before run after,
      path.coordinates = before ++ (run ++ after) ∧ before.length = offset ∧
      run.length = pattern.length ∧
      ∀ i (hp : i < pattern.length) (hr : i < run.length), pattern[i].agrees run[i] = true) ∧
    (path.coordinates.length < pattern.length → found pattern path = false) := by
  constructor
  · rw [found_iff, Occurs]
    constructor
    · rintro ⟨hne, before, run, after, hpath, hrun⟩
      obtain ⟨hlength, hagrees⟩ := agree_iff_getElem.mp hrun
      exact ⟨hne, before.length, before, run, after, hpath, rfl, hlength, hagrees⟩
    · rintro ⟨hne, offset, before, run, after, hpath, -, hlength, hagrees⟩
      exact ⟨hne, before, run, after, hpath, agree_iff_getElem.mpr ⟨hlength, hagrees⟩⟩
  · intro hshort
    rw [← Bool.not_eq_true, found_iff]
    intro hoccurs
    exact absurd hoccurs.length_le (Nat.not_le.mpr hshort)

/-- Of two versions of one package only the second stands right before the next package. -/
theorem found_iff_run_second :
    let a (v : String) : Coordinate := ⟨"maven", some "org.example", "a", some v⟩
    let b : Coordinate := ⟨"npm", none, "b", none⟩
    let path : InclusionPath := ⟨[a "1.0", a "[2.0,3.0)"], { b with version := some "1.x" }⟩
    found [a "[1.0,2.0]", b] path = true ∧ found [a "1.0", b] path = false ∧
      found [a "1.0", a "2.0", b, b] path = false := by
  intro a b path
  have hagree : Agree [a "[1.0,2.0]", b] [a "[2.0,3.0)", { b with version := some "1.x" }] :=
    .cons (by decide +kernel) (.cons (by decide +kernel) .nil)
  have hsecond : found [a "[1.0,2.0]", b] path = true :=
    (found_iff_run _ path).1.mpr
      ⟨nofun, 1, [a "1.0"], _, [], rfl, rfl, agree_iff_getElem.mp hagree⟩
  exact ⟨hsecond, by decide +kernel, (found_iff_run _ path).2 (by decide)⟩

end DependencyAudit.Suppression
