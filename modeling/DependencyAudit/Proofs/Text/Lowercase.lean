import Mathlib.Data.List.Basic
import DependencyAudit.Proofs.Text.Pieces
import DependencyAudit.Text.Lowercase

/-! Lower case leaves delimiters where they are: they have no case, and no letter becomes one. -/
namespace DependencyAudit.Text

/-- Blanks, and the marks at which the text of a coordinate is cut. -/
def isDelimiter (c : Char) : Bool := isBlank c || c == '/' || c == ':' || c == '@'

/-- First and last code points of the delimiters. -/
def delimiterRanges : List (Nat × Nat) :=
  [(0x9, 0xD), (0x20, 0x20), (0x2F, 0x2F), (0x3A, 0x3A), (0x40, 0x40), (0x85, 0x85), (0xA0, 0xA0),
   (0x1680, 0x1680), (0x2000, 0x200A), (0x2028, 0x2029), (0x202F, 0x202F), (0x205F, 0x205F),
   (0x3000, 0x3000)]

variable {c d m : Char} {cs ds bs w : List Char}

theorem isDelimiter_of_isBlank (h : isBlank c = true) : isDelimiter c = true := by
  simp [isDelimiter, h]

theorem isDelimiter_eq_false (h : ∀ s ∈ delimiterRanges, c.toNat < s.1 ∨ s.2 < c.toNat) :
    isDelimiter c = false := by
  have hmark (m : Char) : c = m ↔ c.toNat = m.toNat := Char.toNat_inj.symm
  simp only [delimiterRanges, List.forall_mem_cons, List.not_mem_nil, false_implies, implies_true,
    and_true] at h
  simp only [isDelimiter, isBlank, hmark, Bool.or_eq_false_iff, Bool.and_eq_false_iff,
    decide_eq_false_iff_not, beq_eq_false_iff_ne, ne_eq,
    show '/'.toNat = 0x2F from rfl, show ':'.toNat = 0x3A from rfl, show '@'.toNat = 0x40 from rfl]
  omega

theorem toNat_ofNat (n : Nat) : (Char.ofNat n).toNat = n ∨ (Char.ofNat n).toNat = 0 := by
  by_cases hvalid : n.isValidChar
  · rw [Char.ofNat, dif_pos hvalid]
    exact Or.inl rfl
  · rw [Char.ofNat, dif_neg hvalid]
    exact Or.inr rfl

/-- No run of capitals meets a delimiter, and no run of their lower-case letters does. -/
theorem lowerRuns_apart : ∀ r ∈ lowerRuns, ∀ s ∈ delimiterRanges,
    (r.2.1 < s.1 ∨ s.2 < r.1) ∧
      ((r.2.1 : ℤ) + r.2.2.2 < s.1 ∨ (s.2 : ℤ) < r.1 + r.2.2.2) := by
  decide +kernel

theorem isDelimiter_lowerRun {first last step : Nat} {shift : ℤ}
    (hr : (first, last, step, shift) ∈ lowerRuns) (hfirst : first ≤ c.toNat)
    (hlast : c.toNat ≤ last) :
    isDelimiter c = false ∧ isDelimiter (Char.ofNat (c.toNat + shift).toNat) = false := by
  have hpositive : ∀ s ∈ delimiterRanges, 0 < s.1 := by decide
  have hapart := lowerRuns_apart _ hr
  dsimp only at hapart
  constructor
  · refine isDelimiter_eq_false fun s hs => ?_
    have := hapart s hs
    omega
  · refine isDelimiter_eq_false fun s hs => ?_
    have := hpositive s hs
    have := hapart s hs
    rcases toNat_ofNat (c.toNat + shift).toNat with h | h <;> omega

theorem isDelimiter_toLower : ∀ n < 0x80, (Char.ofNat n).toLower = Char.ofNat n ∨
    isDelimiter (Char.ofNat n) = false ∧ isDelimiter (Char.ofNat n).toLower = false := by
  decide +kernel

/-- Only characters other than delimiters change, and they become no delimiters. -/
theorem of_mem_lowerChar (h : d ∈ lowerChar c) :
    d = c ∨ isDelimiter c = false ∧ isDelimiter d = false := by
  simp only [lowerChar] at h
  split_ifs at h with hascii hdotted
  · have hlower := isDelimiter_toLower c.toNat hascii
    rw [Char.ofNat_toNat] at hlower
    rwa [List.mem_singleton.mp h]
  · obtain rfl : c = 'İ' := Char.toNat_inj.mp (by simpa using hdotted)
    simp only [List.mem_cons, List.not_mem_nil, or_false] at h
    rcases h with rfl | rfl <;> exact Or.inr (by decide)
  · split at h
    · rename_i first last step shift hfind
      have hmem := List.mem_of_find?_eq_some hfind
      have hfits := List.find?_some hfind
      simp only [Bool.and_eq_true, decide_eq_true_eq] at hfits
      rw [List.mem_singleton.mp h]
      exact Or.inr (isDelimiter_lowerRun hmem hfits.1.1 hfits.1.2)
    · exact Or.inl (List.mem_singleton.mp h)

theorem lowerChar_ne_nil (c : Char) : lowerChar c ≠ [] := by
  simp only [lowerChar]
  split_ifs
  · simp
  · simp
  · split <;> simp

theorem lowerChar_of_isDelimiter (h : isDelimiter m = true) : lowerChar m = [m] := by
  have hone : ∃ d, lowerChar m = [d] := by
    simp only [lowerChar]
    split_ifs with hascii hdotted
    · exact ⟨_, rfl⟩
    · obtain rfl : m = 'İ' := Char.toNat_inj.mp (by simpa using hdotted)
      exact absurd h (by decide)
    · split <;> exact ⟨_, rfl⟩
  obtain ⟨d, hd⟩ := hone
  rcases of_mem_lowerChar (hd ▸ List.mem_singleton_self d) with rfl | ⟨hm, -⟩
  · exact hd
  · exact absurd h (by simp [hm])

/-- What lower case makes of one character; a capital sigma becomes either of two letters. -/
def LowersTo (c : Char) (w : List Char) : Prop := w = lowerChar c ∨ c = 'Σ' ∧ w = ['ς']

theorem LowersTo.ne_nil (h : LowersTo c w) : w ≠ [] := by
  rcases h with rfl | ⟨-, rfl⟩
  · exact lowerChar_ne_nil c
  · simp

theorem LowersTo.of_mem (h : LowersTo c w) (hd : d ∈ w) :
    d = c ∨ isDelimiter c = false ∧ isDelimiter d = false := by
  rcases h with rfl | ⟨rfl, rfl⟩
  · exact of_mem_lowerChar hd
  · obtain rfl := List.mem_singleton.mp hd
    exact Or.inr (by decide)

theorem LowersTo.eq_of_isDelimiter (h : LowersTo m w) (hm : isDelimiter m = true) : w = [m] := by
  rcases h with rfl | ⟨rfl, -⟩
  · exact lowerChar_of_isDelimiter hm
  · exact absurd hm (by decide)

theorem LowersTo.mem_iff (h : LowersTo c w) (hm : isDelimiter m = true) : m ∈ w ↔ m = c := by
  constructor
  · intro hmem
    rcases h.of_mem hmem with hc | ⟨-, hno⟩
    · exact hc
    · exact absurd hm (by simp [hno])
  · rintro rfl
    rw [h.eq_of_isDelimiter hm]
    exact List.mem_singleton_self m

theorem LowersTo.isBlank_eq_false (h : LowersTo c w) (hc : isBlank c = false) (hd : d ∈ w) :
    isBlank d = false := by
  rcases h.of_mem hd with rfl | ⟨-, hno⟩
  · exact hc
  · exact Bool.eq_false_iff.mpr fun hblank => by simp [isDelimiter_of_isBlank hblank] at hno

theorem lowerChar_sigma : lowerChar 'Σ' = ['σ'] := by decide +kernel

theorem LowersTo.length_eq (h : LowersTo c w) : w.length = (lowerChar c).length := by
  rcases h with rfl | ⟨rfl, rfl⟩
  · rfl
  · rw [lowerChar_sigma]
    rfl

/-- What lower case makes of a text, whatever stands around it. -/
inductive Lowers : List Char → List Char → Prop
  | nil : Lowers [] []
  | cons {c : Char} {w cs ds : List Char} (hc : LowersTo c w) (h : Lowers cs ds) :
      Lowers (c :: cs) (w ++ ds)

theorem lowers_lowerFrom (before cs : List Char) : Lowers cs (lowerFrom before cs) := by
  induction cs generalizing before with
  | nil => exact .nil
  | cons c cs ih =>
    refine .cons ?_ (ih (c :: before))
    split_ifs with hsigma hfinal
    · exact Or.inr ⟨by simpa using hsigma, rfl⟩
    · obtain rfl : c = 'Σ' := by simpa using hsigma
      exact Or.inl lowerChar_sigma.symm
    · exact Or.inl rfl

theorem lowers_lowercase (s : String) : Lowers s.toList (lowercase s).toList := by
  rw [lowercase, String.toList_ofList]
  exact lowers_lowerFrom [] s.toList

namespace Lowers

theorem append {as es : List Char} (h : Lowers cs ds) (ha : Lowers as es) :
    Lowers (cs ++ as) (ds ++ es) := by
  induction h with
  | nil => exact ha
  | cons hc _ ih =>
    rw [List.cons_append, List.append_assoc]
    exact .cons hc ih

theorem mark (hm : isDelimiter m = true) (h : Lowers cs ds) : Lowers (m :: cs) (m :: ds) :=
  .cons (Or.inl (lowerChar_of_isDelimiter hm).symm) h

/-- A text is lowered part by part. -/
theorem exists_of_append {as : List Char} (h : Lowers (cs ++ as) ds) :
    ∃ bs es, ds = bs ++ es ∧ Lowers cs bs ∧ Lowers as es := by
  induction cs generalizing ds with
  | nil => exact ⟨[], ds, rfl, .nil, h⟩
  | cons c cs ih =>
    obtain _ | ⟨hc, h⟩ := h
    obtain ⟨bs, es, rfl, hb, he⟩ := ih h
    exact ⟨_, es, (List.append_assoc _ _ _).symm, .cons hc hb, he⟩

theorem exists_of_cons (hm : isDelimiter m = true) (h : Lowers (m :: cs) ds) :
    ∃ es, ds = m :: es ∧ Lowers cs es := by
  obtain _ | ⟨hc, h⟩ := h
  rw [hc.eq_of_isDelimiter hm]
  exact ⟨_, rfl, h⟩

theorem mem_iff (h : Lowers cs ds) (hm : isDelimiter m = true) : m ∈ ds ↔ m ∈ cs := by
  induction h with
  | nil => exact Iff.rfl
  | cons hc _ ih => rw [List.mem_append, List.mem_cons, hc.mem_iff hm, ih]

theorem ne_nil (h : Lowers cs ds) (hne : cs ≠ []) : ds ≠ [] := by
  cases h with
  | nil => exact hne
  | cons hc _ => exact List.append_ne_nil_of_left_ne_nil hc.ne_nil _

theorem head (h : Lowers cs ds) (hcs : ∀ c ∈ cs.head?, isBlank c = false) :
    ∀ d ∈ ds.head?, isBlank d = false := by
  cases h with
  | nil => exact nofun
  | cons hc _ =>
    intro d hd
    rw [List.head?_append_of_ne_nil _ hc.ne_nil] at hd
    exact hc.isBlank_eq_false (hcs _ rfl) (List.mem_of_mem_head? hd)

theorem last (h : Lowers cs ds) (hcs : ∀ c ∈ cs.getLast?, isBlank c = false) :
    ∀ d ∈ ds.getLast?, isBlank d = false := by
  rcases List.eq_nil_or_concat cs with rfl | ⟨bs, c, rfl⟩
  · cases h
    exact nofun
  · rw [List.concat_eq_append] at h hcs
    obtain ⟨bs', es, rfl, -, _ | ⟨hc, ⟨⟩⟩⟩ := exists_of_append h
    intro d hd
    rw [List.append_nil, List.getLast?_append_of_ne_nil _ hc.ne_nil] at hd
    exact hc.isBlank_eq_false (hcs c (by simp)) (List.mem_of_getLast? hd)

/-- Lower case makes no blanks at the ends. -/
theorem trim_eq (h : Lowers cs ds) (hcs : trim cs = cs) : trim ds = ds :=
  trim_of_ends (h.head (hcs ▸ (ends_trim cs).1)) (h.last (hcs ▸ (ends_trim cs).2))

end Lowers

/-- What lower case makes of a character does not depend on its surroundings, sigmas apart. -/
theorem LowersTo.eq_of_not_sigma {v : List Char} (h : LowersTo c w) (hv : LowersTo c v)
    (hsigma : 'σ' ∉ w) (hfinal : 'ς' ∉ w) : v = w := by
  rcases h with rfl | ⟨rfl, rfl⟩
  · rcases hv with rfl | ⟨rfl, rfl⟩
    · rfl
    · simp [lowerChar_sigma] at hsigma
  · simp at hfinal

section

variable {es : List Char} (h : Lowers cs ds) (h' : Lowers cs es)
include h h'

theorem Lowers.length_eq : ds.length = es.length := by
  induction h generalizing es with
  | nil =>
    cases h'
    rfl
  | cons hc _ ih =>
    obtain _ | ⟨hc', h'⟩ := h'
    rw [List.length_append, List.length_append, hc.length_eq, hc'.length_eq, ih h']

theorem Lowers.eq_of_not_sigma (hsigma : 'σ' ∉ ds) (hfinal : 'ς' ∉ ds) : es = ds := by
  induction h generalizing es with
  | nil =>
    cases h'
    rfl
  | cons hc _ ih =>
    obtain _ | ⟨hc', h'⟩ := h'
    rw [List.mem_append, not_or] at hsigma hfinal
    rw [hc.eq_of_not_sigma hc' hsigma.1 hfinal.1, ih h' hsigma.2 hfinal.2]

end

end DependencyAudit.Text
