import DependencyAudit.Proofs.Range.Brackets
import DependencyAudit.Proofs.Version.Printing

/-! Unions of intervals in brackets, with blanks wherever they are allowed: what is read from the text of
a list of intervals holds the versions that lie in one of them. -/
namespace DependencyAudit

open DependencyAudit.Interval Text

/-- An interval as it is listed: two bounds, either of which may be missing, or one version. -/
inductive ListedInterval where
  | between (lowerInclusive upperInclusive : Bool) (lower upper : Option Version)
  | single (v : Version)

namespace ListedInterval

/-- The versions of a listed interval. -/
def Holds : ListedInterval → Version → Prop
  | between l u lower upper, v =>
    (∀ w ∈ lower, if l then w ≤ v else w < v) ∧ ∀ w ∈ upper, if u then v ≤ w else v < w
  | single w, v => v = w

/-- The same with the bounds as they are kept. -/
def interval : ListedInterval → Interval
  | between l u lower upper => ⟨lower.map (⟨·, l⟩), upper.map (⟨·, u⟩)⟩
  | single v => exactly v

theorem contains_interval_iff (i : ListedInterval) (v : Version) :
    i.interval.contains v = true ↔ i.Holds v := by
  cases i with
  | single w => exact contains_exactly_iff w v
  | between l u lower upper =>
    have hlower : lowerAllows (lower.map (⟨·, l⟩)) v = true ↔
        ∀ w ∈ lower, if l then w ≤ v else w < v := by
      cases lower with
      | none => simp [lowerAllows]
      | some w => cases l <;> simp [lowerAllows_some, le_iff_lt_or_eq]
    have hupper : upperAllows (upper.map (⟨·, u⟩)) v = true ↔
        ∀ w ∈ upper, if u then v ≤ w else v < w := by
      cases upper with
      | none => simp [upperAllows]
      | some w => cases u <;> simp [upperAllows_some, le_iff_lt_or_eq]
    rw [interval, Interval.contains, Bool.and_eq_true, hlower, hupper, Holds]

/-- A bound is the text of a version with blanks around it, or blanks alone where it is missing. -/
inductive SpellsBound : Option Version → List Char → Prop
  | missing {blanks : List Char} (h : ∀ c ∈ blanks, isBlank c = true) : SpellsBound none blanks
  | version {v : Version} {left right : List Char} (semver : v.IsSemver)
      (within : v.Within (numberLimit - 1)) (left_blank : ∀ c ∈ left, isBlank c = true)
      (right_blank : ∀ c ∈ right, isBlank c = true) :
      SpellsBound (some v) (left ++ (v.chars ++ right))

inductive SpellsInterval : ListedInterval → List Char → Prop
  | between {l u : Bool} {lower upper : Option Version} {low high : List Char}
      (lower_text : SpellsBound lower low) (upper_text : SpellsBound upper high) :
      SpellsInterval (.between l u lower upper) (inBrackets l u (low ++ ',' :: high))
  | single {v : Version} {body : List Char} (text : SpellsBound (some v) body) :
      SpellsInterval (.single v) (inBrackets true true body)

/-- The intervals in order, a comma between each and the next, and blanks around the commas. -/
inductive SpellsUnion : List ListedInterval → List Char → Prop
  | single {i : ListedInterval} {cs : List Char} (text : SpellsInterval i cs) : SpellsUnion [i] cs
  | cons {i : ListedInterval} {is : List ListedInterval} {cs before after rest : List Char}
      (text : SpellsInterval i cs) (before_blank : ∀ c ∈ before, isBlank c = true)
      (after_blank : ∀ c ∈ after, isBlank c = true) (more : SpellsUnion is rest) :
      SpellsUnion (i :: is) (cs ++ (before ++ ',' :: (after ++ rest)))

variable {b : Option Version} {i : ListedInterval} {is : List ListedInterval} {v : Version}
  {c : Char} {cs left right : List Char}

theorem SpellsBound.of_mem (h : SpellsBound b cs) :
    ∀ c ∈ cs, isBlank c = true ∨ Version.isTextChar c = true := by
  cases h with
  | missing h => exact fun c hc => Or.inl (h c hc)
  | version semver within left_blank right_blank =>
    refine List.forall_mem_append.mpr ⟨fun c hc => Or.inl (left_blank c hc),
      List.forall_mem_append.mpr ⟨fun c hc => Or.inr ?_, fun c hc => Or.inl (right_blank c hc)⟩⟩
    exact Version.isTextChar_of_mem_chars semver hc

/-- In the text of a bound stands nothing that would end it. -/
theorem SpellsBound.inside (h : SpellsBound b cs) : ∀ c ∈ cs, isClosing c = false ∧ c ≠ ',' := by
  intro c hc
  have hchar := h.of_mem c hc
  constructor
  · by_contra hclosing
    simp only [Bool.not_eq_false, isClosing, Bool.or_eq_true, beq_iff_eq] at hclosing
    rcases hclosing with rfl | rfl <;> exact absurd hchar (by decide)
  · rintro rfl
    exact absurd hchar (by decide)

theorem SpellsBound.trim_eq (h : SpellsBound (some v) cs) : trim cs = v.chars := by
  cases h with
  | version semver within left_blank right_blank =>
    rw [trim_append_blanks left_blank right_blank, trim_of_not_blank fun c hc =>
      Version.isBlank_of_isTextChar (Version.isTextChar_of_mem_chars semver hc)]

theorem SpellsBound.exactVersion_eq (h : SpellsBound (some v) cs) : exactVersion cs = .ok v := by
  rw [exactVersion, ← WrittenVersion.ofChars_trim, h.trim_eq]
  cases h with
  | version semver within left_blank right_blank =>
    rw [Version.ofChars_chars semver within]
    rfl

theorem SpellsBound.bound?_eq (h : SpellsBound b cs) (inclusive : Bool) :
    bound? cs inclusive = .ok (b.map (⟨·, inclusive⟩)) := by
  cases b with
  | none =>
    cases h with
    | missing h =>
      rw [bound?, trim_eq_nil_iff.mpr h]
      rfl
  | some v => exact bound?_of_exactVersion h.exactVersion_eq inclusive

theorem SpellsInterval.exists_written (h : SpellsInterval i cs) (comma : Bool) :
    ∃ p : WrittenInterval, cs = inBrackets p.lower p.upper p.body ∧ p.comma = comma ∧
      (∀ c ∈ p.body, isClosing c = false) ∧ p.interval? = .ok i.interval := by
  cases h with
  | @between l u lower upper low high lower_text upper_text =>
    refine ⟨⟨l, low ++ ',' :: high, u, comma⟩, rfl, rfl, ?_, ?_⟩
    · exact List.forall_mem_append.mpr ⟨fun c hc => (lower_text.inside c hc).1,
        List.forall_mem_cons.mpr ⟨rfl, fun c hc => (upper_text.inside c hc).1⟩⟩
    · exact ofBody_pair (fun hc => (lower_text.inside ',' hc).2 rfl) (lower_text.bound?_eq l)
        (upper_text.bound?_eq u)
  | @single v body text =>
    exact ⟨⟨true, body, true, comma⟩, rfl, rfl, fun c hc => (text.inside c hc).1,
      ofBody_exact (fun hc => (text.inside ',' hc).2 rfl) text.exactVersion_eq⟩

theorem SpellsUnion.exists_lists (h : SpellsUnion is cs) : ∃ ps, WrittenInterval.Lists ps cs ∧
    List.Forall₂ (fun p i => p.interval? = .ok i) ps (is.map interval) := by
  induction h with
  | single text =>
    obtain ⟨p, rfl, hcomma, hinside, hp⟩ := text.exists_written false
    have hlists := WrittenInterval.Lists.tight hinside .nil
    rw [hcomma] at hlists
    exact ⟨[p], by simpa [WrittenInterval.separator] using hlists, .cons hp .nil⟩
  | cons text before_blank after_blank more ih =>
    obtain ⟨p, rfl, hcomma, hinside, hp⟩ := text.exists_written true
    obtain ⟨ps, hps, hread⟩ := ih
    have hlists := WrittenInterval.Lists.cons hinside before_blank after_blank hps
    rw [hcomma] at hlists
    exact ⟨p :: ps, hlists, .cons hp hread⟩

theorem SpellsInterval.getLast?_eq (h : SpellsInterval i cs) :
    ∃ u, cs.getLast? = some (closingMark u) := by
  obtain ⟨p, rfl, -⟩ := h.exists_written false
  exact ⟨p.upper, by rw [inBrackets, ← List.cons_append, List.getLast?_concat]⟩

theorem SpellsUnion.getLast?_eq (h : SpellsUnion is cs) :
    ∃ u, cs.getLast? = some (closingMark u) := by
  induction h with
  | single text => exact text.getLast?_eq
  | cons text before_blank after_blank more ih =>
    obtain ⟨u, hu⟩ := ih
    exact ⟨u, by simp [List.getLast?_append, List.getLast?_cons, hu]⟩

theorem SpellsInterval.isBracketed_append (h : SpellsInterval i cs) (rest : List Char) :
    VersionRange.isBracketed (cs ++ rest) = true := by
  obtain ⟨p, rfl, -⟩ := h.exists_written false
  rw [VersionRange.isBracketed, opening?_inBrackets, Option.isSome_some]

theorem SpellsUnion.isBracketed (h : SpellsUnion is cs) : VersionRange.isBracketed cs = true := by
  cases h with
  | single text => simpa using text.isBracketed_append []
  | cons text => exact text.isBracketed_append _

/-- A list of intervals starts and ends with a bracket. -/
theorem SpellsUnion.trim_eq (h : SpellsUnion is cs) : trim cs = cs := by
  obtain ⟨ps, hps, -⟩ := h.exists_lists
  obtain ⟨u, hu⟩ := h.getLast?_eq
  refine trim_of_ends (fun c hc => (hps.head c hc).1) fun c hc => ?_
  rw [hu, Option.mem_some_iff] at hc
  subst hc
  cases u <;> rfl

end ListedInterval

namespace VersionRange

open ListedInterval

variable {is : List ListedInterval} {cs left right : List Char}

/-- The text of a list of intervals is read, and the range holds the versions of the intervals; those that
are empty or inverted are left out. -/
theorem brackets_denote_union (h : SpellsUnion is cs) (hl : ∀ c ∈ left, isBlank c = true)
    (hr : ∀ c ∈ right, isBlank c = true) :
    ∃ r, ofText (String.ofList (left ++ (cs ++ right))) = .ok r ∧
      r.intervals = (is.map interval).filter (!·.crosses) ∧
      ∀ v, r.contains v = true ↔ ∃ i ∈ is, i.Holds v := by
  obtain ⟨ps, hps, hread⟩ := h.exists_lists
  refine ⟨⟨(is.map interval).filter (!·.crosses)⟩, ?_, rfl, fun v => ?_⟩
  · rw [ofText, String.toList_ofList, trim_append_blanks hl hr, h.trim_eq, intervalsOf,
      if_pos h.isBracketed, hps.ofBrackets_eq hread]
  · rw [contains_iff]
    simp only [List.mem_filter, List.mem_map, Bool.not_eq_true']
    constructor
    · rintro ⟨_, ⟨⟨i, hi, rfl⟩, -⟩, hv⟩
      exact ⟨i, hi, (contains_interval_iff i v).mp hv⟩
    · rintro ⟨i, hi, hv⟩
      have hcontains := (contains_interval_iff i v).mpr hv
      refine ⟨i.interval, ⟨⟨i, hi, rfl⟩, ?_⟩, hcontains⟩
      by_contra hcross
      rw [contains_of_crosses (Bool.not_eq_false _ ▸ hcross) v] at hcontains
      cases hcontains

/-- One interval has no lower bound, one is inverted, and one is a single version. -/
theorem brackets_denote_union_inverted :
    let candidate : Version := ⟨1, 0, 0, [⟨"rc".toList⟩, ⟨"1".toList⟩], []⟩
    let built : Version := ⟨4, 0, 0, [], [⟨"7".toList⟩]⟩
    let is : List ListedInterval := [.between false false none (some candidate),
      .between false true (some (.release 3 0 0)) (some (.release 2 5 0)), .single built]
    let text := "( ,1.0.0-rc.1) ,(3.0.0,2.5.0], [ 4.0.0+7 ]"
    SpellsUnion is text.toList ∧ ∃ r, ofText (" " ++ text ++ "\n") = .ok r ∧
      r.intervals = [.atMost candidate false, .exactly built] ∧
      ∀ v, r.contains v = true ↔ v < candidate ∨ v = built := by
  intro candidate built is text
  have hnone : ∀ c ∈ ([] : List Char), isBlank c = true := nofun
  have hblank : ∀ c ∈ [' '], isBlank c = true := List.forall_mem_singleton.mpr rfl
  have hbreak : ∀ c ∈ ['\n'], isBlank c = true := List.forall_mem_singleton.mpr rfl
  have hcandidate : candidate.IsSemver := ⟨by decide +kernel, nofun⟩
  have hbuilt : built.IsSemver := ⟨nofun, by decide +kernel⟩
  have hbelow : SpellsInterval (.between false false none (some candidate)) _ :=
    .between (.missing hblank) (.version hcandidate (by decide) hnone hnone)
  have hinverted : SpellsInterval
      (.between false true (some (.release 3 0 0)) (some (.release 2 5 0))) _ :=
    .between (.version (Version.isSemver_release 3 0 0) (by decide) hnone hnone)
      (.version (Version.isSemver_release 2 5 0) (by decide) hnone hnone)
  have hsingle : SpellsInterval (.single built) _ :=
    .single (.version hbuilt (by decide) hblank hblank)
  have hall := SpellsUnion.cons hbelow hblank hnone (.cons hinverted hnone hblank (.single hsingle))
  have hspell : SpellsUnion is text.toList := by
    convert hall using 1
    decide +kernel
  have hraw : " " ++ text ++ "\n" = String.ofList ([' '] ++ (text.toList ++ ['\n'])) := by
    decide +kernel
  obtain ⟨r, hr, hintervals, hholds⟩ := brackets_denote_union hspell hblank hbreak
  refine ⟨hspell, r, hraw ▸ hr, ?_, fun v => ?_⟩
  · rw [hintervals]
    decide +kernel
  · have hnothing : ¬(Version.release 3 0 0 < v ∧ v ≤ .release 2 5 0) := fun ⟨hlow, hhigh⟩ =>
      absurd (lt_of_lt_of_le hlow hhigh) (by decide +kernel)
    rw [hholds]
    simp [is, Holds, hnothing]

end VersionRange
end DependencyAudit
