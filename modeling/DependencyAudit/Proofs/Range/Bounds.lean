import Mathlib.Data.List.Forall2
import DependencyAudit.Proofs.Range.Intersection
import DependencyAudit.Proofs.Version.Reading

/-! The intervals that are read from an expression: their bounds are versions with well-formed
identifiers, and do not cross. -/
namespace DependencyAudit

theorem mapM_eq_ok_iff {ε α β : Type} {f : α → Except ε β} {xs : List α} {ys : List β} :
    xs.mapM f = .ok ys ↔ List.Forall₂ (fun x y => f x = .ok y) xs ys := by
  induction xs generalizing ys with
  | nil => cases ys <;> simp [pure, Except.pure]
  | cons x xs ih =>
    rw [List.mapM_cons]
    cases hx : f x with
    | error e => cases ys <;> simp [bind, Except.bind, hx]
    | ok y =>
      cases hxs : xs.mapM f with
      | error e => cases ys <;> simp [bind, Except.bind, ← ih, hx, hxs]
      | ok zs => cases ys <;> simp [bind, Except.bind, pure, Except.pure, ← ih, hx, hxs]

theorem exists_of_mem_forall₂ {α β : Type} {R : α → β → Prop} {xs : List α} {ys : List β} {y : β}
    (h : List.Forall₂ R xs ys) (hy : y ∈ ys) : ∃ x ∈ xs, R x y := by
  induction h with
  | nil => cases hy
  | @cons x z xs zs hxz _ ih =>
    rcases List.mem_cons.mp hy with rfl | hy
    · exact ⟨x, List.mem_cons_self, hxz⟩
    · obtain ⟨x', hx', he⟩ := ih hy
      exact ⟨x', List.mem_cons_of_mem _ hx', he⟩

theorem exists_forall₂_iff {α β : Type} {R : α → β → Prop} {xs : List α} :
    (∃ ys, List.Forall₂ R xs ys) ↔ ∀ x ∈ xs, ∃ y, R x y := by
  induction xs with
  | nil => simp
  | cons x xs ih =>
    rw [List.forall_mem_cons, ← ih]
    constructor
    · rintro ⟨ys, h⟩
      obtain ⟨y, ys, hxy, hmore, -⟩ := List.forall₂_cons_left_iff.mp h
      exact ⟨⟨y, hxy⟩, ys, hmore⟩
    · rintro ⟨⟨y, hxy⟩, ys, hmore⟩
      exact ⟨y :: ys, .cons hxy hmore⟩

theorem exists_of_mem_mapM {ε α β : Type} {f : α → Except ε β} {xs : List α} {ys : List β} {y : β}
    (h : xs.mapM f = .ok ys) (hy : y ∈ ys) : ∃ x ∈ xs, f x = .ok y :=
  exists_of_mem_forall₂ (R := fun x y => f x = .ok y) (mapM_eq_ok_iff.mp h) hy

namespace Interval

/-- What holds of the version of each bound. -/
def EachBound (P : Version → Prop) (i : Interval) : Prop :=
  (∀ b ∈ i.lower, P b.version) ∧ ∀ b ∈ i.upper, P b.version

instance (P : Version → Prop) [DecidablePred P] (i : Interval) : Decidable (i.EachBound P) :=
  inferInstanceAs (Decidable (_ ∧ _))

section EachBound

variable {P : Version → Prop}

theorem eachBound_any : any.EachBound P := ⟨by simp [any], by simp [any]⟩

theorem eachBound_atLeast {v : Version} (h : P v) (inclusive : Bool) :
    (atLeast v inclusive).EachBound P := ⟨by simpa [atLeast], by simp [atLeast]⟩

theorem eachBound_atMost {v : Version} (h : P v) (inclusive : Bool) :
    (atMost v inclusive).EachBound P := ⟨by simp [atMost], by simpa [atMost]⟩

theorem eachBound_exactly {v : Version} (h : P v) : (exactly v).EachBound P :=
  ⟨by simpa [exactly], by simpa [exactly]⟩

theorem eachBound_halfOpen {low high : Version} (hl : P low) (hh : P high) :
    (halfOpen low high).EachBound P := ⟨by simpa [halfOpen], by simpa [halfOpen]⟩

theorem forall_mem_tighter (prefers : Ordering) {a b : Option Bound}
    (ha : ∀ x ∈ a, P x.version) (hb : ∀ x ∈ b, P x.version) :
    ∀ x ∈ tighter prefers a b, P x.version := by
  cases a with
  | none => cases b <;> exact hb
  | some a =>
    cases b with
    | none => exact ha
    | some b =>
      have ha : P a.version := ha a rfl
      have hb : P b.version := hb b rfl
      intro x hx
      rcases lt_trichotomy a.version b.version with h | h | h
      · rw [tighter_of_lt prefers h, ← apply_ite some, Option.mem_some] at hx
        grind
      · rw [tighter_of_eq prefers h, Option.mem_some] at hx
        grind
      · rw [tighter_of_gt prefers h, ← apply_ite some, Option.mem_some] at hx
        grind

theorem EachBound.intersect? {a b i : Interval} (h : a.intersect? b = some i)
    (ha : a.EachBound P) (hb : b.EachBound P) : i.EachBound P := by
  rw [(intersect?_eq_some_iff.mp h).2]
  exact ⟨forall_mem_tighter .gt ha.1 hb.1, forall_mem_tighter .lt ha.2 hb.2⟩

end EachBound

/-- An interval as it is read: its bounds are versions and do not cross. -/
structure IsProper (i : Interval) : Prop where
  bounds : i.EachBound Version.IsSemver
  crosses : i.crosses = false

theorem isProper_any : any.IsProper := ⟨eachBound_any, rfl⟩

theorem isProper_of_intersect? {a b i : Interval} (h : a.intersect? b = some i)
    (ha : a.EachBound Version.IsSemver) (hb : b.EachBound Version.IsSemver) : i.IsProper :=
  ⟨ha.intersect? h hb, crosses_of_intersect? h⟩

theorem isSemver_of_next? {w : WrittenVersion} {v : Version} (h : w.next? = some v) :
    v.IsSemver := by
  simp only [WrittenVersion.next?] at h
  split at h <;> cases h <;> exact Version.isSemver_release _ _ _

theorem isSemver_caretLimit (v : Version) : (caretLimit v).IsSemver := by
  simp only [caretLimit]
  split_ifs <;> exact Version.isSemver_release _ _ _

theorem isSemver_tildeLimit (w : WrittenVersion) : (tildeLimit w).IsSemver := by
  simp only [tildeLimit]
  split_ifs <;> exact Version.isSemver_release _ _ _

theorem bounds_ofWritten {w : WrittenVersion} (hw : w.version.IsSemver) :
    (ofWritten w).EachBound Version.IsSemver := by
  simp only [ofWritten]
  split
  · split
    · rename_i next hn
      exact eachBound_halfOpen hw (isSemver_of_next? hn)
    · exact eachBound_any
  · exact eachBound_exactly hw

theorem isSemver_of_pastWildcard? {w : WrittenVersion} {v : Version}
    (h : pastWildcard? w = some v) : v.IsSemver := by
  simp only [pastWildcard?] at h
  split at h
  · exact isSemver_of_next? h
  · cases h

theorem bounds_ofRelation (r : Relation) {w : WrittenVersion} (hw : w.version.IsSemver) :
    (ofRelation r w).EachBound Version.IsSemver := by
  simp only [ofRelation]
  split
  · exact eachBound_any
  · cases r with
    | same => exact bounds_ofWritten hw
    | atLeast => exact eachBound_atLeast hw true
    | below => exact eachBound_atMost hw false
    | above =>
      dsimp only
      split
      · rename_i next hn
        exact eachBound_atLeast (isSemver_of_pastWildcard? hn) true
      · exact eachBound_atLeast hw false
    | atMost =>
      dsimp only
      split
      · rename_i next hn
        exact eachBound_atMost (isSemver_of_pastWildcard? hn) false
      · exact eachBound_atMost hw true
    | caret => exact eachBound_halfOpen hw (isSemver_caretLimit w.version)
    | tilde => exact eachBound_halfOpen hw (isSemver_tildeLimit w)

theorem ofComparator_eq_ok_iff {cs : List Char} {i : Interval} : ofComparator cs = .ok i ↔
    ∃ w, WrittenVersion.ofChars (Relation.split cs).2 = .ok w ∧
      ofRelation (Relation.split cs).1 w = i := by
  simp only [ofComparator]
  cases WrittenVersion.ofChars (Relation.split cs).2 with
  | error fault => simp
  | ok w => simp

theorem bounds_of_ofComparator {cs : List Char} {i : Interval} (h : ofComparator cs = .ok i) :
    i.EachBound Version.IsSemver := by
  obtain ⟨w, hw, rfl⟩ := ofComparator_eq_ok_iff.mp h
  exact bounds_ofRelation _ (WrittenVersion.isSemver_of_ofChars hw)

/-- The interval read so far stays proper with every comparator. -/
theorem isProper_of_ofTokens {acc i : Interval} {pending : List Char} {ts : List (List Char)}
    (ha : acc.IsProper) (h : ofTokens acc pending ts = .ok (some i)) : i.IsProper := by
  induction ts generalizing acc pending with
  | nil =>
    simp only [ofTokens] at h
    split at h
    · cases h
      exact ha
    · cases h
  | cons t ts ih =>
    simp only [ofTokens] at h
    split at h
    · exact ih ha h
    · split at h
      · cases h
      · rename_i j hj
        split at h
        · cases h
        · rename_i next hn
          exact ih (isProper_of_intersect? hn ha.bounds (bounds_of_ofComparator hj)) h

theorem isProper_of_ofHyphen {low high : List Char} {i : Interval}
    (h : ofHyphen low high = .ok (some i)) : i.IsProper := by
  simp only [ofHyphen] at h
  split at h
  · cases h
  · cases h
  · rename_i low high hlow hhigh
    have hlow := WrittenVersion.isSemver_of_ofChars hlow
    have hhigh := WrittenVersion.isSemver_of_ofChars hhigh
    simp only [Except.ok.injEq] at h
    refine isProper_of_intersect? h (eachBound_atLeast hlow true) ?_
    split_ifs
    · split
      · rename_i next hn
        exact eachBound_atMost (isSemver_of_next? hn) false
      · exact eachBound_any
    · exact eachBound_atMost hhigh true

theorem isProper_of_ofAlternative {cs : List Char} {i : Interval}
    (h : ofAlternative cs = .ok (some i)) : i.IsProper := by
  simp only [ofAlternative] at h
  split at h
  · cases h
    exact isProper_any
  · split at h
    · exact isProper_of_ofHyphen h
    · exact isProper_of_ofTokens isProper_any h

theorem isSemver_of_exactVersion {cs : List Char} {v : Version} (h : exactVersion cs = .ok v) :
    v.IsSemver := by
  simp only [exactVersion] at h
  split at h
  · cases h
  · rename_i w hw
    split at h
    · cases h
    · cases h
      exact WrittenVersion.isSemver_of_ofChars hw

theorem isSemver_of_bound? {cs : List Char} {inclusive : Bool} {b : Option Bound}
    (h : bound? cs inclusive = .ok b) : ∀ x ∈ b, x.version.IsSemver := by
  simp only [bound?] at h
  split at h
  · cases h
    simp
  · cases hv : exactVersion cs with
    | error fault => simp [hv, Except.map] at h
    | ok v =>
      simp only [hv, Except.map, Except.ok.injEq] at h
      subst h
      simpa using isSemver_of_exactVersion hv

theorem bounds_of_ofBody {l u : Bool} {body : List Char} {i : Interval}
    (h : ofBody l u body = .ok i) : i.EachBound Version.IsSemver := by
  simp only [ofBody] at h
  split at h
  · split at h
    · cases hv : exactVersion body with
      | error fault => simp [hv, Except.map] at h
      | ok v =>
        simp only [hv, Except.map, Except.ok.injEq] at h
        subst h
        exact eachBound_exactly (isSemver_of_exactVersion hv)
    · cases h
  · rename_i low high _
    simp only [bind, Except.bind, pure, Except.pure] at h
    cases hl : bound? low l with
    | error fault => simp [hl] at h
    | ok lower =>
      cases hu : bound? high u with
      | error fault => simp [hl, hu] at h
      | ok upper =>
        simp only [hl, hu, Except.ok.injEq] at h
        subst h
        exact ⟨isSemver_of_bound? hl, isSemver_of_bound? hu⟩

theorem isProper_of_ofBrackets {cs : List Char} {is : List Interval}
    (h : ofBrackets cs = .ok is) : ∀ i ∈ is, i.IsProper := by
  fun_induction ofBrackets cs generalizing is with
  | case1 =>
    cases h
    simp
  | case2 => cases h
  | case3 => cases h
  | case4 => cases h
  | case5 cs he l inner ho close rest hc hlt i hi ih =>
    cases hm : ofBrackets (dropSeparator rest) with
    | error fault => simp [hm, Except.map] at h
    | ok more =>
      simp only [hm, Except.map, Except.ok.injEq] at h
      subst h
      have ih := ih hm
      by_cases hx : i.crosses = true
      · rw [if_pos hx]
        exact ih
      · rw [if_neg hx]
        intro j hj
        rcases List.mem_cons.mp hj with rfl | hj
        · exact ⟨bounds_of_ofBody hi, Bool.eq_false_iff.mpr hx⟩
        · exact ih j hj

end Interval

theorem VersionRange.isProper_of_ofText {s : String} {r : VersionRange} (h : ofText s = .ok r) :
    ∀ i ∈ r.intervals, i.IsProper := by
  simp only [ofText] at h
  split at h
  · rename_i is his
    cases h
    simp only [intervalsOf] at his
    split at his
    · exact Interval.isProper_of_ofBrackets his
    · simp only [bind, Except.bind, pure, Except.pure] at his
      split at his
      · cases his
      · rename_i found hfound
        cases his
        intro i hi
        obtain ⟨o, ho, hoi⟩ := List.mem_filterMap.mp hi
        obtain rfl : o = some i := hoi
        obtain ⟨a, -, ha⟩ := exists_of_mem_mapM hfound ho
        exact Interval.isProper_of_ofAlternative ha
  · cases h

end DependencyAudit
