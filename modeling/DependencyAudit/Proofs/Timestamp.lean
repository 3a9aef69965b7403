import Mathlib.Data.Int.Notation
import Mathlib.Data.List.TakeWhile
import DependencyAudit.Proofs.Json.Decoding
import DependencyAudit.Proofs.Text.Digits
import DependencyAudit.Timestamp

/-! A point in time is read back from its text, and what is read is a point in time. -/
namespace DependencyAudit

namespace Text

theorem trimStart_cons {c : Char} (h : isBlank c = false) (cs : List Char) :
    trimStart (c :: cs) = c :: cs := by
  simp [trimStart, h]

theorem trimStart_digits {ds : List Char} (hne : ds ≠ []) (hd : ∀ c ∈ ds, c.isDigit = true)
    (rest : List Char) : trimStart (ds ++ rest) = ds ++ rest := by
  obtain ⟨c, cs, rfl⟩ := List.exists_cons_of_ne_nil hne
  exact trimStart_cons (isBlank_of_isDigit (hd c List.mem_cons_self)) _

end Text

namespace Timestamp

open Text

section Written

variable {width n : ℕ} {rest : List Char}

theorem padded_ne_nil (width n : ℕ) : padded width n ≠ [] := by
  simp [padded, decimal_ne_nil]

theorem isDigit_of_mem_padded {c : Char} (h : c ∈ padded width n) : c.isDigit = true := by
  simp only [padded, List.mem_append, List.mem_replicate] at h
  rcases h with ⟨_, rfl⟩ | h
  · rfl
  · exact isDigit_of_mem_decimal h

@[simp] theorem value_padded (width n : ℕ) : value (padded width n) = n := by
  simp [padded, value_append]

theorem length_padded (hw : 0 < width) (hn : n < 10 ^ width) : (padded width n).length = width := by
  have := (length_decimal_le_iff hw).mpr hn
  simp only [padded, List.length_append, List.length_replicate]
  omega

theorem digits_append {ds : List Char} (hne : ds ≠ []) (hd : ∀ c ∈ ds, c.isDigit = true)
    (hw : ds.length ≤ width) (hs : Stops Char.isDigit rest) :
    digits width (ds ++ rest) = .ok (value ds, rest) := by
  have htake : ((ds ++ rest).takeWhile Char.isDigit).take width = ds := by
    rw [takeWhile_append_of_stops hd hs, List.take_of_length_le hw]
  obtain ⟨c, cs, rfl⟩ := List.exists_cons_of_ne_nil hne
  simp only [digits, List.cons_append, hd c List.mem_cons_self]
  simp only [List.cons_append] at htake
  simp [htake]

theorem field_padded {low high : ℕ} (hlow : low ≤ n) (hhigh : n ≤ high) (hn : n < 100)
    (hs : Stops Char.isDigit rest) : field low high (padded 2 n ++ rest) = .ok (n, rest) := by
  have hd : ∀ c ∈ padded 2 n, c.isDigit = true := fun c hc => isDigit_of_mem_padded hc
  have hl : (padded 2 n).length ≤ 2 := Nat.le_of_eq (length_padded (by decide) hn)
  rw [field, trimStart_digits (padded_ne_nil 2 n) hd, digits_append (padded_ne_nil 2 n) hd hl hs]
  simp only [bind, Except.bind, value_padded, hlow, hhigh, and_self, if_true]
  rfl

theorem mark_cons {c : Char} (h : isBlank c = false) (cs : List Char) : mark c (c :: cs) = .ok cs := by
  simp [mark, trimStart_cons h]

theorem year_unsigned {ds : List Char} (hne : ds ≠ []) (hd : ∀ c ∈ ds, c.isDigit = true)
    (hw : ds.length ≤ 4) (hs : Stops Char.isDigit rest) :
    year (ds ++ rest) = .ok ((value ds : ℤ), rest) := by
  have hdigits := digits_append hne hd hw hs
  have htrim := trimStart_digits hne hd rest
  obtain ⟨c, cs, rfl⟩ := List.exists_cons_of_ne_nil hne
  have hdigit := hd c List.mem_cons_self
  rw [year, htrim]
  split
  · simp_all
  · simp_all
  · rw [hdigits]
    rfl

theorem year_negative {ds : List Char} (hne : ds ≠ []) (hd : ∀ c ∈ ds, c.isDigit = true)
    (hlimit : value ds ≤ signedYearLimit) (hs : Stops Char.isDigit rest) :
    year ('-' :: (ds ++ rest)) = .ok (-(value ds : ℤ), rest) := by
  have hdigits : digits (ds ++ rest).length (ds ++ rest) = _ := digits_append hne hd (by simp) hs
  simp only [year, trimStart_cons (by decide : isBlank '-' = false), hdigits, bind, Except.bind,
    hlimit, if_true]
  rfl

theorem year_positive {ds : List Char} (hne : ds ≠ []) (hd : ∀ c ∈ ds, c.isDigit = true)
    (hlimit : value ds < signedYearLimit) (hs : Stops Char.isDigit rest) :
    year ('+' :: (ds ++ rest)) = .ok ((value ds : ℤ), rest) := by
  have hdigits : digits (ds ++ rest).length (ds ++ rest) = _ := digits_append hne hd (by simp) hs
  simp only [year, trimStart_cons (by decide : isBlank '+' = false), hdigits, bind, Except.bind,
    hlimit, if_true]
  rfl

/-- Years of four digits stand without a sign, others with one. -/
theorem year_yearChars {y : ℤ} (hlow : Date.firstYear ≤ y) (hhigh : y ≤ Date.lastYear)
    (hs : Stops Char.isDigit rest) : year (yearChars y ++ rest) = .ok (y, rest) := by
  rw [Date.firstYear] at hlow
  rw [Date.lastYear] at hhigh
  have hd (n : ℕ) : ∀ c ∈ padded 4 n, c.isDigit = true := fun c hc => isDigit_of_mem_padded hc
  have hlimit : signedYearLimit = 2147483648 := rfl
  unfold yearChars
  split
  · rename_i hy
    have hl := Nat.le_of_eq (length_padded (by decide : 0 < 4) (by omega : y.toNat < 10 ^ 4))
    rw [year_unsigned (padded_ne_nil 4 _) (hd _) hl hs, value_padded, Int.toNat_of_nonneg hy.1]
  · rename_i hy
    by_cases hneg : y < 0
    · rw [if_pos hneg, List.cons_append, year_negative (padded_ne_nil 4 _) (hd _)
        (by rw [value_padded]; omega) hs, value_padded]
      congr 2
      omega
    · rw [if_neg hneg, List.cons_append, year_positive (padded_ne_nil 4 _) (hd _)
        (by rw [value_padded]; omega) hs, value_padded]
      congr 2
      omega

theorem nanos_fraction {ds : List Char} (hne : ds ≠ []) (hd : ∀ c ∈ ds, c.isDigit = true)
    (hw : ds.length ≤ 9) (hs : Stops Char.isDigit rest) :
    nanos ('.' :: (ds ++ rest)) = .ok (value ds * 10 ^ (9 - ds.length), rest) := by
  have hdrop : rest.dropWhile Char.isDigit = rest :=
    dropWhile_append_of_stops (by simp : ∀ c ∈ [], Char.isDigit c = true) hs
  have hlen : (ds ++ rest).length - rest.length = ds.length := by simp
  simp only [nanos, digits_append hne hd hw hs, bind, Except.bind, pure, Except.pure, hdrop, hlen]
  rfl

theorem nanos_padded (hw : 0 < width) (hw' : width ≤ 9) (hn : n < 10 ^ width)
    (hs : Stops Char.isDigit rest) :
    nanos ('.' :: (padded width n ++ rest)) = .ok (n * 10 ^ (9 - width), rest) := by
  have hl := length_padded hw hn
  have h := nanos_fraction (padded_ne_nil width n) (fun c hc => isDigit_of_mem_padded hc)
    (hl.symm ▸ hw') hs
  rwa [value_padded, hl] at h

theorem nanos_fractionChars (hn : n < nanosPerSecond) (hs : Stops Char.isDigit rest)
    (hpoint : rest.head? ≠ some '.') : nanos (fractionChars n ++ rest) = .ok (n, rest) := by
  rw [nanosPerSecond] at hn
  unfold fractionChars
  split
  · rename_i h₀
    subst h₀
    cases rest with
    | nil => rfl
    | cons c cs =>
      have hc : c ≠ '.' := fun h => hpoint (by rw [h]; rfl)
      simp only [List.nil_append, nanos]
      split
      · simp_all
      · rfl
  · split
    · rename_i h
      rw [List.cons_append, nanos_padded (by decide) (by decide) (by omega) hs]
      congr 2
      omega
    · split
      · rename_i h
        rw [List.cons_append, nanos_padded (by decide) (by decide) (by omega) hs]
        congr 2
        omega
      · rw [List.cons_append, nanos_padded (by decide) (by decide) hn hs, Nat.pow_zero,
          Nat.mul_one]

theorem fromOffset_zero {t : Timestamp} (h : t.IsValid) :
    fromOffset t.date t.second t.nano 0 = .ok t := by
  obtain ⟨hdate, hsecond, -, -⟩ := h
  rw [secondsPerDay] at hsecond
  have hdays : ((t.second : ℤ) + -0) / secondsPerDay = 0 := by
    rw [secondsPerDay]
    omega
  have hplus : plus t (-0) = t := by
    have hrest : (((t.second : ℤ) + -0) % secondsPerDay).toNat = t.second := by
      rw [secondsPerDay]
      omega
    simp only [plus, hdays, hrest]
    rfl
  have hsmall : ¬(0 : ℤ).natAbs ≥ secondsPerDay := by decide
  simp only [fromOffset, hdate, hsmall, hplus, Bool.not_true, Bool.false_eq_true, if_false, if_true]

theorem stops_cons {c : Char} (h : c.isDigit = false) (cs : List Char) :
    Stops Char.isDigit (c :: cs) := by
  intro d hd
  obtain rfl : c = d := by simpa using hd
  exact h

end Written

theorem isValid_iff {d : Date} : d.isValid = true ↔
    Date.firstYear ≤ d.year ∧ d.year ≤ Date.lastYear ∧ 1 ≤ d.month ∧ d.month ≤ 12 ∧ 1 ≤ d.day ∧
      d.day ≤ Date.daysIn d.year d.month := by
  simp only [Date.isValid, Bool.and_eq_true, decide_eq_true_eq, and_assoc]

theorem daysIn_le (year : ℤ) (month : ℕ) : Date.daysIn year month ≤ 31 := by
  unfold Date.daysIn
  split
  · split <;> decide
  · split <;> decide

theorem chars_eq (t : Timestamp) : t.chars =
    yearChars t.date.year ++ '-' :: (padded 2 t.date.month ++ '-' :: (padded 2 t.date.day ++
      'T' :: (padded 2 (t.second / 3600) ++ ':' :: (padded 2 (t.second / 60 % 60) ++
        ':' :: (padded 2 (t.second % 60 + t.nano / nanosPerSecond) ++
          (fractionChars (t.nano % nanosPerSecond) ++ ['Z'])))))) := by
  simp [chars]

theorem stops_fractionChars (n : ℕ) {rest : List Char} (h : Stops Char.isDigit rest) :
    Stops Char.isDigit (fractionChars n ++ rest) := by
  unfold fractionChars
  split
  · exact h
  split
  · exact stops_cons (by decide) _
  split <;> exact stops_cons (by decide) _

/-- Every point in time within the range, a leap second too, is read back from its text. -/
theorem ofText_text {t : Timestamp} (h : t.IsValid) : ofText t.text = .ok t := by
  obtain ⟨hlow, hhigh, hmonth, hmonth', hday, hday'⟩ := isValid_iff.mp h.1
  have hday'' := Nat.le_trans hday' (daysIn_le _ _)
  have hsecond : t.second < 86400 := h.2.1
  have hnano : t.nano < 2 * 1000000000 := h.2.2.1
  have hleap : 1000000000 ≤ t.nano → t.second % 60 = 59 := h.2.2.2
  have hone : t.second % 60 + t.nano / 1000000000 ≤ 60 := by omega
  have hyear (cs : List Char) := year_yearChars hlow hhigh (stops_cons (by decide : '-'.isDigit = false) cs)
  have hmonth (cs : List Char) := field_padded hmonth hmonth' (by omega)
    (stops_cons (by decide : '-'.isDigit = false) cs)
  have hday (cs : List Char) := field_padded hday hday'' (by omega)
    (stops_cons (by decide : 'T'.isDigit = false) cs)
  have hhour (cs : List Char) := field_padded (n := t.second / 3600) (Nat.zero_le _)
    (by omega : _ ≤ 23) (by omega) (stops_cons (by decide : ':'.isDigit = false) cs)
  have hminute (cs : List Char) := field_padded (n := t.second / 60 % 60) (Nat.zero_le _)
    (by omega : _ ≤ 59) (by omega) (stops_cons (by decide : ':'.isDigit = false) cs)
  have hzone := stops_cons (by decide : 'Z'.isDigit = false) []
  have hlast := field_padded (Nat.zero_le _) hone (by omega)
    (stops_fractionChars (t.nano % 1000000000) hzone)
  have hfraction := nanos_fractionChars (Nat.mod_lt t.nano (by decide : 0 < nanosPerSecond)) hzone
    (by decide)
  have hoffset : offset (trimStart ['Z']) = .ok (0, []) := rfl
  have hempty : (trimStart []).isEmpty = true := rfl
  have hnanos : nanosPerSecond = 1000000000 := rfl
  have hleft : t.second / 3600 * 3600 + t.second / 60 % 60 * 60 +
      (t.second % 60 + t.nano / 1000000000 - (t.second % 60 + t.nano / 1000000000) / 60) =
      t.second := by omega
  have hnano' : t.nano % 1000000000 + (t.second % 60 + t.nano / 1000000000) / 60 * 1000000000 =
      t.nano := by omega
  rw [hnanos] at hfraction
  rw [ofText, text, String.toList_ofList, chars_eq]
  simp only [ofChars, bind, Except.bind, hyear, hmonth, hday, hhour, hminute, hlast, hfraction,
    mark_cons (by decide : isBlank '-' = false), mark_cons (by decide : isBlank ':' = false),
    dateTimeGap, hnanos, true_or, if_true, hoffset, hempty, Bool.not_true, Bool.false_eq_true,
    if_false, hleft, hnano']
  exact fromOffset_zero h

section Read

variable {cs rest : List Char} {n : ℕ}

theorem digits_bound {width : ℕ} (h : digits width cs = .ok (n, rest)) :
    cs.length - rest.length ≤ width ∧ n < 10 ^ (cs.length - rest.length) := by
  unfold digits at h
  split at h
  · cases h
  · split at h
    · cases h
    · rename_i c tail hdigit
      cases h
      have hdigits : ∀ d ∈ ((c :: tail).takeWhile Char.isDigit).take width, d.isDigit = true :=
        fun d hd => List.mem_takeWhile_imp (List.mem_of_mem_take hd)
      have hle : (((c :: tail).takeWhile Char.isDigit).take width).length ≤ (c :: tail).length :=
        Nat.le_trans (List.length_take_le' _ _) (List.takeWhile_prefix _).length_le
      rw [List.length_drop, Nat.sub_sub_self hle]
      exact ⟨List.length_take_le _ _, value_lt hdigits⟩

theorem field_bound {low high : ℕ} (h : field low high cs = .ok (n, rest)) : low ≤ n ∧ n ≤ high := by
  obtain ⟨⟨m, cs'⟩, -, h⟩ := exists_of_bind h
  dsimp only at h
  split at h
  · cases h
    assumption
  · cases h

theorem nanos_bound (h : nanos cs = .ok (n, rest)) : n < nanosPerSecond := by
  unfold nanos at h
  split at h
  · obtain ⟨⟨m, cs'⟩, hd, h⟩ := exists_of_bind h
    cases h
    obtain ⟨hle, hlt⟩ := digits_bound hd
    generalize _ - cs'.length = k at hle hlt ⊢
    calc m * 10 ^ (9 - k) < 10 ^ k * 10 ^ (9 - k) :=
          Nat.mul_lt_mul_of_pos_right hlt (Nat.pow_pos (by decide))
      _ = 10 ^ 9 := by rw [← Nat.pow_add, Nat.add_sub_cancel' hle]
  · cases h
    decide

theorem offset_mod {east : ℤ} (h : offset cs = .ok (east, rest)) : east % 60 = 0 := by
  unfold offset at h
  dsimp only at h
  split at h
  · cases h
  split at h
  · cases h
    rfl
  split at h
  · cases h
    rfl
  split at h
  · obtain ⟨⟨hours, cs₁⟩, -, h⟩ := exists_of_bind h
    obtain ⟨⟨minutes, cs₂⟩, -, h⟩ := exists_of_bind h
    cases h
    omega
  split at h
  · obtain ⟨⟨hours, cs₁⟩, -, h⟩ := exists_of_bind h
    obtain ⟨⟨minutes, cs₂⟩, -, h⟩ := exists_of_bind h
    cases h
    omega
  · cases h

theorem isValid_of_fromOffset {date : Date} {second nano : ℕ} {east : ℤ} {t : Timestamp}
    (hnano : nano < 2 * nanosPerSecond) (hleap : nanosPerSecond ≤ nano → second % 60 = 59)
    (heast : east % 60 = 0) (h : fromOffset date second nano east = .ok t) : t.IsValid := by
  unfold fromOffset at h
  split at h
  · cases h
  · split at h
    · cases h
    · dsimp only at h
      split at h
      · rename_i hdate
        cases h
        refine ⟨hdate, ?_, hnano, fun hn => ?_⟩
        · simp only [plus, secondsPerDay]
          omega
        · have := hleap hn
          simp only [plus, secondsPerDay]
          omega
      · cases h

/-- What is read is within the range. -/
theorem isValid_of_ofText {s : String} {t : Timestamp} (h : ofText s = .ok t) : t.IsValid := by
  obtain ⟨⟨year, cs₁⟩, -, h⟩ := exists_of_bind h
  obtain ⟨cs₂, -, h⟩ := exists_of_bind h
  obtain ⟨⟨month, cs₃⟩, -, h⟩ := exists_of_bind h
  obtain ⟨cs₄, -, h⟩ := exists_of_bind h
  obtain ⟨⟨day, cs₅⟩, -, h⟩ := exists_of_bind h
  obtain ⟨cs₆, -, h⟩ := exists_of_bind h
  obtain ⟨⟨hour, cs₇⟩, -, h⟩ := exists_of_bind h
  obtain ⟨cs₈, -, h⟩ := exists_of_bind h
  obtain ⟨⟨minute, cs₉⟩, -, h⟩ := exists_of_bind h
  obtain ⟨cs₁₀, -, h⟩ := exists_of_bind h
  obtain ⟨⟨second, cs₁₁⟩, hsecond, h⟩ := exists_of_bind h
  obtain ⟨⟨nano, cs₁₂⟩, hnano, h⟩ := exists_of_bind h
  obtain ⟨⟨east, cs₁₃⟩, heast, h⟩ := exists_of_bind h
  have hs := (field_bound hsecond).2
  have hn := nanos_bound hnano
  rw [nanosPerSecond] at hn
  dsimp only at h
  split at h
  · cases h
  · refine isValid_of_fromOffset ?_ (fun hle => ?_) (offset_mod heast) h
    · rw [nanosPerSecond]
      omega
    · rw [nanosPerSecond] at hle
      obtain rfl : second = 60 := by omega
      omega

end Read

theorem decoder_toJson {t : Timestamp} (h : t.IsValid) (depth : Depth) :
    decoder depth t.toJson = .ok t := by
  simp only [decoder, toJson, Json.ofString, RawString.read_ofString, bind, Except.bind,
    ofText_text h]
  rfl

theorem isValid_of_decoder {depth : Depth} {j : Json} {t : Timestamp}
    (h : decoder depth j = .ok t) : t.IsValid := by
  unfold decoder at h
  split at h
  · obtain ⟨s, -, h⟩ := exists_of_bind h
    split at h
    · rename_i ht
      cases h
      exact isValid_of_ofText ht
    · cases h
  · obtain ⟨_, -, h⟩ := exists_of_bind h
    cases h

end Timestamp
end DependencyAudit
