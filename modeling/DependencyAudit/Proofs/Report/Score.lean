import DependencyAudit.Proofs.Decimal.Recovery
import DependencyAudit.Report.Score

/-! Finite scores are read back from their JSON. -/
namespace DependencyAudit.Score

open Decimal

theorem ofBits_magnitude (s : Score) : ofBits s.isNegative s.magnitude = s := by
  obtain ⟨bits⟩ := s
  have hlt : bits.toNat < 2 ^ 32 := bits.toNat_lt
  have hbits : (if 0x80000000 ≤ bits.toNat then 0x80000000 else 0) + bits.toNat % 0x80000000 =
      bits.toNat := by
    split <;> omega
  simp only [ofBits, isNegative, magnitude, signBit, ge_iff_le, decide_eq_true_eq, hbits,
    UInt32.ofNat_toNat]

theorem magnitudeOf_number (s : Score) : magnitudeOf s.number = s.magnitude := by
  have hdiv := Nat.div_add_mod s.magnitude firstBit
  have hfraction : s.magnitude % firstBit < firstBit := Nat.mod_lt _ (by decide)
  simp only [number]
  generalize s.magnitude / firstBit = field at hdiv ⊢
  by_cases hfield : field = 0
  · rw [hfield, Nat.mul_zero, Nat.zero_add] at hdiv
    simp only [hfield, if_true, magnitudeOf, if_pos hfraction]
    exact hdiv
  · have hplace : ((field : ℤ) - 150 + 150).toNat = field := by omega
    have hlead : ¬firstBit + s.magnitude % firstBit < firstBit :=
      Nat.not_lt.mpr (Nat.le_add_right _ _)
    simp only [hfield, if_false, magnitudeOf, hlead, Nat.add_sub_cancel_left, hplace]
    rw [Nat.mul_comm]
    exact hdiv

theorem leading_single : single.leading = firstBit := by
  norm_num [BinaryFormat.leading, single, firstBit]

theorem holds_number {s : Score} (h : s.isFinite = true) : single.Holds s.number := by
  have hfinite : s.magnitude < firstBit * 255 := (of_decide_eq_true h).trans_eq (Nat.mul_comm _ _)
  have hfield := Nat.div_lt_of_lt_mul hfinite
  have hfraction : s.magnitude % firstBit < firstBit := Nat.mod_lt _ (by decide)
  simp only [number]
  generalize s.magnitude / firstBit = field at hfield ⊢
  generalize s.magnitude % firstBit = fraction at hfraction ⊢
  split
  · refine ⟨?_, ?_, ?_, fun _ => rfl⟩
    · rw [leading_single]
      exact hfraction.trans_le (Nat.le_mul_of_pos_left _ (by decide))
    · exact le_refl (-149 : ℤ)
    · exact (by decide : (-149 : ℤ) ≤ 104)
  · refine ⟨?_, ?_, ?_, fun hlt => ?_⟩
    · rw [leading_single, Nat.two_mul]
      exact Nat.add_lt_add_left hfraction _
    · show (-149 : ℤ) ≤ field - 150
      omega
    · show (field : ℤ) - 150 ≤ 104
      omega
    · rw [leading_single] at hlt
      exact absurd hlt (Nat.not_lt.mpr (Nat.le_add_right _ _))

theorem number_eq_zero {s : Score} (h : s.isFinite = true) (h₀ : s.number.mantissa = 0) :
    s.number = single.zero := by
  have hplace := (holds_number h).place_eq (by rw [h₀]; decide)
  rw [BinaryFormat.zero, ← hplace, ← h₀]

theorem isWritten_numeral {s : Score} (h : s.isFinite = true) : s.numeral.IsWritten := by
  unfold numeral Decimal.numeral
  split
  · exact ⟨by simp, by simp, by simp, by simp, by simp⟩
  · rename_i hzero
    simp only [BinaryNumber.isZero, beq_iff_eq] at hzero
    exact isWritten_shortest _ (holds_number h) (Nat.pos_of_ne_zero hzero)

theorem exists_amount_numeral {s : Score} (h : s.isFinite = true) :
    ∃ r, s.numeral.amount = .real s.isNegative r ∧
      single.round? r.numerator r.denominator = some s.number := by
  unfold numeral Decimal.numeral
  split
  · rename_i hzero
    simp only [BinaryNumber.isZero, beq_iff_eq] at hzero
    rw [number_eq_zero h hzero]
    refine ⟨⟨0, -1074⟩, ?_, by decide +kernel⟩
    cases s.isNegative <;> decide +kernel
  · rename_i hzero
    simp only [BinaryNumber.isZero, beq_iff_eq] at hzero
    exact exists_amount_shortest _ (holds_number h) (Nat.pos_of_ne_zero hzero)

theorem isClean_toJson (s : Score) : s.toJson.IsClean := by
  unfold toJson
  split
  · rename_i h
    exact isWritten_numeral h
  · trivial

/-- A finite score is read back as it was, the sign of zero included. -/
theorem decoder_toJson {s : Score} (h : s.isFinite = true) (depth : Depth) :
    decoder depth s.toJson = .ok s := by
  obtain ⟨r, hr, hround⟩ := exists_amount_numeral h
  simp only [toJson, h, if_true, decoder, hr, ofAmount?, round, hround, magnitudeOf_number,
    ofBits_magnitude]

end DependencyAudit.Score
