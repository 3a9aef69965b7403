import DependencyAudit.Report.Severity

/-! The severity of a vector that is written metric by metric: what the metrics of impact say, wherever they
stand and whatever stands between them. -/
namespace DependencyAudit.Severity

/-- A metric of a vector. No mark ends its key too early, and its value is no start of another metric. -/
structure Metric where
  key : String
  value : Char
  key_ne_empty : key ≠ ""
  of_mem_key : ∀ c ∈ key.toList, c ≠ '/' ∧ c ≠ ':'
  value_ne : value ≠ '/'
deriving DecidableEq

namespace Metric

def chars (m : Metric) : List Char := '/' :: (m.key.toList ++ [':', m.value])

/-- The metric is that of confidentiality, integrity or availability. -/
def IsImpact (m : Metric) : Prop := m.key = "C" ∨ m.key = "I" ∨ m.key = "A"

instance (m : Metric) : Decidable m.IsImpact := inferInstanceAs (Decidable (_ ∨ _ ∨ _))

end Metric

def scheme : List Char := ['C', 'V', 'S', 'S', ':', '3', '.', '1']

def vector (ms : List Metric) : String := String.ofList (scheme ++ ms.flatMap Metric.chars)

section Search

variable {c k v : Char} {needle xs : List Char}

/-- Nothing is found where the first character of what is searched for does not stand. -/
theorem infix_append_iff_of_not_mem (hc : c ∉ xs) (ys : List Char) :
    c :: needle <:+: xs ++ ys ↔ c :: needle <:+: ys := by
  induction xs with
  | nil => rfl
  | cons x xs ih =>
    rw [List.mem_cons, not_or] at hc
    rw [List.cons_append, List.infix_cons_iff, List.cons_prefix_cons, ih hc.2]
    exact or_iff_right fun h => hc.1 h.1

/-- A key of one letter stands at the start of a metric only if it is the whole key of it. -/
theorem Metric.prefix_iff (m : Metric) (rest : List Char) :
    ['/', k, ':', v] <+: m.chars ++ rest ↔ m.key.toList = [k] ∧ m.value = v := by
  have hmarks := m.of_mem_key
  have hempty : m.key.toList ≠ [] := fun h => m.key_ne_empty (String.toList_eq_nil_iff.mp h)
  rw [chars, List.cons_append, List.cons_prefix_cons, List.append_assoc]
  rcases hkey : m.key.toList with _ | ⟨d, _ | ⟨d', ds⟩⟩
  · exact absurd hkey hempty
  · simp [List.cons_prefix_cons, eq_comm]
  -- A longer key goes on where the colon is searched for.
  · have hcolon : ':' ≠ d' := Ne.symm (hmarks d' (by simp [hkey])).2
    simp [List.cons_prefix_cons, hcolon]

/-- Behind the mark that it starts with a metric has no other, so the search goes on with the next. -/
theorem Metric.infix_iff (m : Metric) (rest : List Char) :
    ['/', k, ':', v] <:+: m.chars ++ rest ↔
      (m.key.toList = [k] ∧ m.value = v) ∨ ['/', k, ':', v] <:+: rest := by
  have hslash : '/' ∉ m.key.toList ++ [':', m.value] := by
    simp only [List.mem_append, List.mem_cons, List.not_mem_nil, or_false, not_or]
    exact ⟨fun h => (m.of_mem_key _ h).1 rfl, by decide, Ne.symm m.value_ne⟩
  have hprefix := m.prefix_iff (k := k) (v := v) rest
  rw [chars, List.cons_append] at hprefix ⊢
  rw [List.infix_cons_iff, hprefix, infix_append_iff_of_not_mem hslash]

/-- A metric is found where it is written, and nowhere else. -/
theorem infix_metrics_iff (ms : List Metric) :
    ['/', k, ':', v] <:+: ms.flatMap Metric.chars ↔
      ∃ m ∈ ms, m.key.toList = [k] ∧ m.value = v := by
  induction ms with
  | nil => simp
  | cons m ms ih =>
    rw [List.flatMap_cons, m.infix_iff, ih]
    simp only [List.mem_cons, exists_eq_or_imp]

theorem occurs_vector_iff (ms : List Metric) :
    Text.occurs ['/', k, ':', v] (vector ms).toList = true ↔
      ∃ m ∈ ms, m.key.toList = [k] ∧ m.value = v := by
  rw [vector, String.toList_ofList, Text.occurs_iff, infix_append_iff_of_not_mem (by decide),
    infix_metrics_iff]

end Search

theorem Metric.isImpact_iff (m : Metric) :
    m.IsImpact ↔ ∃ k ∈ ['C', 'I', 'A'], m.key.toList = [k] := by
  simp [IsImpact, ← String.toList_inj]

theorem hasImpact_vector_iff (v : Char) (ms : List Metric) :
    hasImpact v (vector ms).toList = true ↔ ∃ m ∈ ms, m.IsImpact ∧ m.value = v := by
  simp only [hasImpact, List.any_eq_true, occurs_vector_iff, Metric.isImpact_iff]
  constructor
  · rintro ⟨k, hk, m, hm, hkey, hv⟩
    exact ⟨m, hm, ⟨k, hk, hkey⟩, hv⟩
  · rintro ⟨m, hm, ⟨k, hk, hkey⟩, hv⟩
    exact ⟨k, hk, m, hm, hkey, hv⟩

theorem isVector_vector (ms : List Metric) : isVector (vector ms).toList = true := by
  rw [vector, String.toList_ofList]
  rfl

theorem ofVector_vector (ms : List Metric) : ofVector (vector ms) =
    if hasImpact 'H' (vector ms).toList then .high
    else if hasImpact 'L' (vector ms).toList then .medium
    else .low := by
  rw [ofVector, ofVectorChars, isVector_vector]
  rfl

theorem ofVector_iff (ms : List Metric) :
    (ofVector (vector ms) = .high ↔ hasImpact 'H' (vector ms).toList = true) ∧
    (ofVector (vector ms) = .medium ↔
      ¬hasImpact 'H' (vector ms).toList = true ∧ hasImpact 'L' (vector ms).toList = true) ∧
    (ofVector (vector ms) = .low ↔
      ¬hasImpact 'H' (vector ms).toList = true ∧ ¬hasImpact 'L' (vector ms).toList = true) := by
  rw [ofVector_vector]
  by_cases hhigh : hasImpact 'H' (vector ms).toList = true
  · simp [hhigh]
  · by_cases hlow : hasImpact 'L' (vector ms).toList = true
    · simp [hhigh, hlow]
    · simp [hhigh, hlow]

/-- Nothing but the metrics of impact is looked at, and these in any order. -/
theorem ofVector_congr {ms ms' : List Metric} (h : ∀ m : Metric, m.IsImpact → (m ∈ ms ↔ m ∈ ms')) :
    ofVector (vector ms) = ofVector (vector ms') := by
  have himpact (v : Char) : hasImpact v (vector ms).toList = hasImpact v (vector ms').toList := by
    rw [Bool.eq_iff_iff, hasImpact_vector_iff, hasImpact_vector_iff]
    constructor
    · rintro ⟨m, hm, hi, hv⟩
      exact ⟨m, (h m hi).mp hm, hi, hv⟩
    · rintro ⟨m, hm, hi, hv⟩
      exact ⟨m, (h m hi).mpr hm, hi, hv⟩
  rw [ofVector_vector, ofVector_vector, himpact, himpact]

/-- The severity is high if some metric of impact is, else medium if one is low, and else low. The order of
the metrics makes no difference, nor do metrics with other keys. -/
theorem impact_decides_severity (ms : List Metric) :
    (ofVector (vector ms) = .high ↔ ∃ m ∈ ms, m.IsImpact ∧ m.value = 'H') ∧
    (ofVector (vector ms) = .medium ↔ (¬∃ m ∈ ms, m.IsImpact ∧ m.value = 'H') ∧
      ∃ m ∈ ms, m.IsImpact ∧ m.value = 'L') ∧
    (ofVector (vector ms) = .low ↔ (¬∃ m ∈ ms, m.IsImpact ∧ m.value = 'H') ∧
      ¬∃ m ∈ ms, m.IsImpact ∧ m.value = 'L') ∧
    ∀ others ms', (∀ m ∈ others, ¬m.IsImpact) → ms'.Perm (ms ++ others) →
      ofVector (vector ms') = ofVector (vector ms) := by
  have hvector := ofVector_iff ms
  rw [hasImpact_vector_iff, hasImpact_vector_iff] at hvector
  obtain ⟨hhigh, hmedium, hlow⟩ := hvector
  refine ⟨hhigh, hmedium, hlow, fun others ms' hothers hperm => ofVector_congr fun m hm => ?_⟩
  rw [hperm.mem_iff, List.mem_append]
  exact or_iff_left fun hmem => hothers m hmem hm

/-- A high complexity of the attack is no high impact, wherever it stands. -/
theorem impact_decides_severity_complexity :
    let availability : Metric := ⟨"A", 'L', by decide, by simp, by decide⟩
    let complexity : Metric := ⟨"AC", 'H', by decide, by simp, by decide⟩
    let scope : Metric := ⟨"S", 'C', by decide, by simp, by decide⟩
    (∀ m ∈ [complexity, scope], ¬m.IsImpact) ∧
      vector [scope, complexity, availability] = "CVSS:3.1/S:C/AC:H/A:L" ∧
      ofVector "CVSS:3.1/S:C/AC:H/A:L" = .medium := by
  intro availability complexity scope
  have hothers : ∀ m ∈ [complexity, scope], ¬m.IsImpact := by decide
  have htext : vector [scope, complexity, availability] = "CVSS:3.1/S:C/AC:H/A:L" := by decide
  obtain ⟨-, hmedium, -, hsame⟩ := impact_decides_severity [availability]
  refine ⟨hothers, htext, ?_⟩
  rw [← htext, hsame [complexity, scope] _ hothers (by decide)]
  exact hmedium.mpr (by decide)

end DependencyAudit.Severity
