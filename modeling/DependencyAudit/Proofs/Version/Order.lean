import Mathlib.Order.Std
import DependencyAudit.Proofs.Text.Digits
import DependencyAudit.Text.Order
import DependencyAudit.Version.Order

/-! Versions are linearly ordered: every two can be compared, the comparison is transitive, and only
equal versions compare as equal. -/
namespace DependencyAudit

namespace Identifier

/-- Two numbers are compared as pairs of a value and a length. -/
theorem order_of_numeric {a b : Identifier} (ha : a.isNumeric = true) (hb : b.isNumeric = true) :
    order a b = compareLex (compareOn fun i : Identifier => Text.value i.chars)
      (compareOn fun i : Identifier => i.chars.length) a b := by
  simp only [order, ha, hb]
  rfl

theorem order_of_not_numeric {a b : Identifier} (ha : a.isNumeric = false)
    (hb : b.isNumeric = false) :
    order a b = List.compareLex (fun x y => compare x.toNat y.toNat) a.chars b.chars := by
  simp only [order, ha, hb]

theorem order_of_numeric_left {a b : Identifier} (ha : a.isNumeric = true)
    (hb : b.isNumeric = false) : order a b = .lt := by
  simp only [order, ha, hb]

theorem order_of_numeric_right {a b : Identifier} (ha : a.isNumeric = false)
    (hb : b.isNumeric = true) : order a b = .gt := by
  simp only [order, ha, hb]

instance orientedCmp_order : Std.OrientedCmp order where
  eq_swap {a b} := by
    cases ha : a.isNumeric <;> cases hb : b.isNumeric
    · rw [order_of_not_numeric ha hb, order_of_not_numeric hb ha]
      exact Std.OrientedCmp.eq_swap
    · rw [order_of_numeric_right ha hb, order_of_numeric_left hb ha, Ordering.swap_lt]
    · rw [order_of_numeric_left ha hb, order_of_numeric_right hb ha, Ordering.swap_gt]
    · rw [order_of_numeric ha hb, order_of_numeric hb ha]
      exact Std.OrientedCmp.eq_swap

instance transCmp_order : Std.TransCmp order where
  isLE_trans {a b c} hab hbc := by
    cases ha : a.isNumeric with
    | true =>
      cases hc : c.isNumeric with
      | true =>
        cases hb : b.isNumeric with
        | true =>
          rw [order_of_numeric ha hb] at hab
          rw [order_of_numeric hb hc] at hbc
          rw [order_of_numeric ha hc]
          exact Std.TransCmp.isLE_trans hab hbc
        | false => simp [order_of_numeric_right hb hc] at hbc
      | false => simp [order_of_numeric_left ha hc]
    | false =>
      cases hb : b.isNumeric with
      | true => simp [order_of_numeric_right ha hb] at hab
      | false =>
        cases hc : c.isNumeric with
        | true => simp [order_of_numeric_right hb hc] at hbc
        | false =>
          rw [order_of_not_numeric ha hb] at hab
          rw [order_of_not_numeric hb hc] at hbc
          rw [order_of_not_numeric ha hc]
          exact Std.TransCmp.isLE_trans hab hbc

theorem isDigit_of_isNumeric {i : Identifier} (h : i.isNumeric = true) :
    ∀ c ∈ i.chars, c.isDigit = true :=
  List.all_eq_true.mp h

instance lawfulEqCmp_order : Std.LawfulEqCmp order where
  compare_self := Std.ReflCmp.compare_self
  eq_of_compare {a b} h := by
    have hchars : a.chars = b.chars := by
      cases ha : a.isNumeric <;> cases hb : b.isNumeric
      · rw [order_of_not_numeric ha hb] at h
        exact Std.LawfulEqCmp.eq_of_compare h
      · simp [order_of_numeric_right ha hb] at h
      · simp [order_of_numeric_left ha hb] at h
      · rw [order_of_numeric ha hb, compareLex_eq_eq] at h
        exact Text.eq_of_value_eq (isDigit_of_isNumeric ha) (isDigit_of_isNumeric hb)
          (Std.LawfulEqCmp.eq_of_compare h.2) (Std.LawfulEqCmp.eq_of_compare h.1)
    cases a
    cases b
    exact congrArg mk hchars

end Identifier

namespace Version

/-- The identifiers of a pre-release, after which comes the version itself. -/
theorem preOrder_eq (as bs : List Identifier) :
    preOrder as bs = compareLex (compareOn fun is : List Identifier => is.isEmpty)
      (List.compareLex Identifier.order) as bs := by
  cases as <;> cases bs <;> rfl

instance transCmp_preOrder : Std.TransCmp preOrder := by
  have h : preOrder = compareLex (compareOn fun is : List Identifier => is.isEmpty)
      (List.compareLex Identifier.order) := by
    funext as bs
    exact preOrder_eq as bs
  rw [h]
  infer_instance

instance lawfulEqCmp_preOrder : Std.LawfulEqCmp preOrder where
  compare_self := Std.ReflCmp.compare_self
  eq_of_compare {as bs} h := by
    rw [preOrder_eq, compareLex_eq_eq] at h
    exact Std.LawfulEqCmp.eq_of_compare h.2

/-- The parts of a version, in the order in which they are looked at. -/
theorem order_eq :
    order = compareLex (compareOn major) (compareLex (compareOn minor) (compareLex (compareOn patch)
      (compareLex (Ordering.byKey pre preOrder)
        (Ordering.byKey build (List.compareLex Identifier.order))))) := rfl

instance transOrd : Std.TransOrd Version := by
  change Std.TransCmp order
  rw [order_eq]
  infer_instance

instance lawfulEqOrd : Std.LawfulEqOrd Version where
  compare_self := Std.ReflCmp.compare_self
  eq_of_compare {v w} h := by
    have h : order v w = .eq := h
    simp only [order_eq, compareLex_eq_eq] at h
    obtain ⟨hmajor, hminor, hpatch, hpre, hbuild⟩ := h
    cases v
    cases w
    rw [mk.injEq]
    exact ⟨Std.LawfulEqCmp.eq_of_compare hmajor, Std.LawfulEqCmp.eq_of_compare hminor,
      Std.LawfulEqCmp.eq_of_compare hpatch, Std.LawfulEqCmp.eq_of_compare hpre,
      Std.LawfulEqCmp.eq_of_compare hbuild⟩

instance linearOrder : LinearOrder Version := .ofStd Version

theorem isLE_compare {v w : Version} : (compare v w).isLE = true ↔ v ≤ w := Iff.rfl

theorem isLT_compare {v w : Version} : (compare v w).isLT = true ↔ v < w := Ordering.isLT_iff_eq_lt

/-- Below a release are the smaller numbers and its own pre-releases. -/
theorem lt_release_iff {v : Version} {major minor patch : ℕ} : v < release major minor patch ↔
    v.major < major ∨ v.major = major ∧ (v.minor < minor ∨ v.minor = minor ∧
      (v.patch < patch ∨ v.patch = patch ∧ v.pre ≠ [])) := by
  have hpre : (preOrder v.pre []).then (List.compareLex Identifier.order v.build []) = .lt ↔
      v.pre ≠ [] := by
    cases v.pre <;> cases v.build <;> simp [preOrder, List.compareLex]
  change order v (release major minor patch) = .lt ↔ _
  simp only [order, release, Ordering.then_eq_lt, Nat.compare_eq_lt, Nat.compare_eq_eq, ← hpre]

theorem release_le_release_iff {major minor patch major' minor' patch' : ℕ} :
    release major minor patch ≤ release major' minor' patch' ↔ major < major' ∨ major = major' ∧
      (minor < minor' ∨ minor = minor' ∧ patch ≤ patch') := by
  rw [← not_lt, lt_release_iff]
  simp only [release, ne_eq, not_true_eq_false, and_false, or_false]
  omega

end Version
end DependencyAudit
