/-! The order of texts by code points, in which a proper beginning comes first. -/
namespace DependencyAudit.Text

def order (a b : String) : Ordering :=
  List.compareLex (fun x y => compare x.toNat y.toNat) a.toList b.toList

instance transCmp_char : Std.TransCmp (fun x y : Char => compare x.toNat y.toNat) :=
  inferInstanceAs (Std.TransCmp (compareOn Char.toNat))

instance lawfulEqCmp_char : Std.LawfulEqCmp (fun x y : Char => compare x.toNat y.toNat) where
  eq_of_compare h := Char.toNat_inj.1 (Std.LawfulEqCmp.eq_of_compare h)

theorem order_eq_eq_iff {a b : String} : order a b = .eq ↔ a = b := by
  unfold order
  rw [Std.LawfulEqCmp.compare_eq_iff_eq, String.toList_inj]

end DependencyAudit.Text
