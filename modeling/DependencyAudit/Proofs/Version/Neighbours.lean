import DependencyAudit.Proofs.Version.Order

/-! Which versions stand side by side: one comes first of all, and above each there is a next one,
which has an identifier zero more in its build metadata. -/
namespace DependencyAudit

namespace Identifier

def zero : Identifier := ⟨['0']⟩

theorem isValid_zero : zero.isValid = true := by decide

/-- No identifier stands below zero, but for the empty text, which is none. -/
theorem isLE_order_zero {i : Identifier} (h : i.isValid = true) : (order zero i).isLE = true := by
  cases hi : i.isNumeric with
  | false =>
    rw [order_of_numeric_left (by decide) hi]
    rfl
  | true =>
    rw [order_of_numeric (by decide) hi, compareLex, Ordering.isLE_then_iff_or]
    simp only [compareOn, Nat.compare_eq_lt, Nat.compare_eq_eq, Nat.isLE_compare]
    have hlength : 0 < i.chars.length := by
      simp only [isValid, Bool.and_eq_true, Bool.not_eq_true', List.isEmpty_eq_false_iff] at h
      exact List.length_pos_iff.mpr h.1
    have hvalue : Text.value zero.chars = 0 := rfl
    have hone : zero.chars.length = 1 := rfl
    omega

theorem isLE_compareLex_nil (is : List Identifier) : (List.compareLex order [] is).isLE = true := by
  cases is <;> rfl

theorem compareLex_append (is : List Identifier) (j : Identifier) (js : List Identifier) :
    List.compareLex order is (is ++ j :: js) = .lt := by
  induction is with
  | nil => rfl
  | cons i is ih => simp [List.compareLex_cons_cons, Std.ReflCmp.compare_self, ih]

/-- What stands above some identifiers stands above them with a zero more, or is that. -/
theorem isLE_compareLex_append_zero {is js : List Identifier}
    (hjs : ∀ j ∈ js, j.isValid = true) (h : List.compareLex order is js = .lt) :
    (List.compareLex order (is ++ [zero]) js).isLE = true := by
  induction is generalizing js with
  | nil =>
    cases js with
    | nil => cases h
    | cons j js =>
      rw [List.nil_append, List.compareLex_cons_cons, Ordering.isLE_then_iff_or]
      have hj := isLE_order_zero (hjs j List.mem_cons_self)
      rcases Ordering.isLE_iff_eq_lt_or_eq_eq.mp hj with ho | ho
      · exact Or.inl ho
      · exact Or.inr ⟨ho, isLE_compareLex_nil js⟩
  | cons i is ih =>
    cases js with
    | nil => cases h
    | cons j js =>
      rw [List.compareLex_cons_cons, Ordering.then_eq_lt] at h
      rw [List.cons_append, List.compareLex_cons_cons, Ordering.isLE_then_iff_or]
      rcases h with h | ⟨ho, h⟩
      · exact Or.inl h
      · exact Or.inr ⟨ho, ih (fun k hk => hjs k (List.mem_cons_of_mem _ hk)) h⟩

end Identifier

namespace Version

/-- The identifiers of a version are well formed. -/
structure IsSemver (v : Version) : Prop where
  pre : ∀ i ∈ v.pre, i.isValid = true ∧ i.hasLeadingZero = false
  build : ∀ i ∈ v.build, i.isValid = true

/-- No number of the version exceeds `largest`. -/
def Within (largest : ℕ) (v : Version) : Prop :=
  v.major ≤ largest ∧ v.minor ≤ largest ∧ v.patch ≤ largest

instance (largest : ℕ) (v : Version) : Decidable (v.Within largest) :=
  inferInstanceAs (Decidable (_ ∧ _ ∧ _))

/-- The first version of all. -/
def least : Version := ⟨0, 0, 0, [.zero], []⟩

/-- The first version above `v`. -/
def next (v : Version) : Version := { v with build := v.build ++ [.zero] }

theorem isSemver_least : least.IsSemver where
  pre i hi := by
    rw [List.mem_singleton.mp hi]
    exact ⟨by decide, by decide⟩
  build i hi := by cases hi

theorem within_least (largest : ℕ) : least.Within largest :=
  ⟨largest.zero_le, largest.zero_le, largest.zero_le⟩

theorem IsSemver.next {v : Version} (h : v.IsSemver) : v.next.IsSemver where
  pre := h.pre
  build i hi := by
    rcases List.mem_append.mp hi with hi | hi
    · exact h.build i hi
    · rw [List.mem_singleton.mp hi]
      exact Identifier.isValid_zero

/-- Below the largest number each one has a next one. -/
theorem Within.nextNumber_eq {v : Version} (h : v.Within (Text.numberLimit - 2)) :
    Text.nextNumber v.major = v.major + 1 ∧ Text.nextNumber v.minor = v.minor + 1 ∧
      Text.nextNumber v.patch = v.patch + 1 := by
  have hnext {n : ℕ} (hn : n ≤ Text.numberLimit - 2) : Text.nextNumber n = n + 1 :=
    Text.nextNumber_of_lt (Nat.add_lt_of_lt_sub (Nat.lt_of_le_of_lt hn (by decide)))
  exact ⟨hnext h.1, hnext h.2.1, hnext h.2.2⟩

theorem Within.next {largest : ℕ} {v : Version} (h : v.Within largest) : v.next.Within largest := h

theorem lt_next (v : Version) : v < v.next := by
  change order v v.next = .lt
  simp [order, Version.next, Identifier.compareLex_append, Std.ReflCmp.compare_self]

theorem next_le_of_lt {v w : Version} (hw : w.IsSemver) (h : v < w) : v.next ≤ w := by
  have h : order v w = .lt := h
  change (order v.next w).isLE = true
  simp only [order, Ordering.then_eq_lt, Ordering.isLE_then_iff_or] at h ⊢
  -- Only the build metadata of the next version differs, so an earlier difference stays.
  exact h.imp_right <| And.imp_right <| Or.imp_right <| And.imp_right <| Or.imp_right <|
    And.imp_right <| Or.imp_right <| And.imp_right <|
      Identifier.isLE_compareLex_append_zero hw.build

theorem isLE_preOrder_least {is : List Identifier} (h : ∀ i ∈ is, i.isValid = true) :
    (preOrder [.zero] is).isLE = true := by
  cases is with
  | nil => rfl
  | cons i is =>
    have hlt : List.compareLex Identifier.order [] (i :: is) = .lt := rfl
    exact Identifier.isLE_compareLex_append_zero h hlt

theorem least_le {w : Version} (hw : w.IsSemver) : least ≤ w := by
  change (order least w).isLE = true
  have hpre := isLE_preOrder_least fun i hi => (hw.pre i hi).1
  have hbuild := Identifier.isLE_compareLex_nil w.build
  have hzero (n : ℕ) : (compare 0 n).isLE = true := Nat.isLE_compare.mpr (Nat.zero_le n)
  simp only [order, least, Ordering.isLE_then_iff_and, hzero, hpre, hbuild, or_true, and_self]

end Version
end DependencyAudit
