import DependencyAudit.Proofs.Range.Comparators

/-! The other notations say what comparators say: a hyphen range and an interval in brackets hold the
versions of the comparators that name the same bounds. -/
namespace DependencyAudit

namespace Relation

/-- A relation as it is written in front of a version. -/
def chars : Relation → List Char
  | .same => []
  | .above => ['>']
  | .atLeast => ['>', '=']
  | .below => ['<']
  | .atMost => ['<', '=']
  | .caret => ['^']
  | .tilde => ['~']

/-- The relation of a lower bound. -/
def lowerBound (inclusive : Bool) : Relation := if inclusive then .atLeast else .above

/-- The relation of an upper bound. -/
def upperBound (inclusive : Bool) : Relation := if inclusive then .atMost else .below

theorem split_chars {c : Char} (h : isMark c = false) (r : Relation) (cs : List Char) :
    split (r.chars ++ c :: cs) = (r, c :: cs) := by
  simp only [isMark, Bool.or_eq_false_iff, beq_eq_false_iff_ne, ne_eq] at h
  cases r <;> simp [chars, split, h]

theorem isMark_eq_false_of_isBlank {c : Char} (h : Text.isBlank c = true) : isMark c = false := by
  rw [← Bool.not_eq_true]
  intro hm
  rcases cases_of_isMark hm with rfl | rfl | rfl | rfl | rfl <;> exact absurd h (by decide)

/-- What is read as a version does not start with a mark. -/
theorem exists_cons_of_ofChars {p : List Char} {w : WrittenVersion}
    (h : WrittenVersion.ofChars p = .ok w) : ∃ c rest, p = c :: rest ∧ isMark c = false := by
  obtain ⟨left, right, hp, hleft, -⟩ := Text.exists_trim p
  cases left with
  | nil =>
    obtain ⟨c, rest, hc, hinitial⟩ := WrittenVersion.exists_initial_of_trim h
    rw [hc] at hp
    exact ⟨c, rest ++ right, hp, isMark_eq_false_of_isInitial hinitial⟩
  | cons c left =>
    exact ⟨c, _, hp, isMark_eq_false_of_isBlank (hleft c List.mem_cons_self)⟩

end Relation

namespace Interval

open DependencyAudit.Relation Text

/-- A version behind a relation is a comparator, however the version is spelled. -/
theorem ofComparator_chars {p : List Char} {w : WrittenVersion}
    (h : WrittenVersion.ofChars p = .ok w) (r : Relation) :
    ofComparator (r.chars ++ p) = .ok (ofRelation r w) := by
  obtain ⟨c, rest, rfl, hc⟩ := exists_cons_of_ofChars h
  exact ofComparator_eq_ok_iff.mpr ⟨w, by rw [split_chars hc, h], by rw [split_chars hc]⟩

/-- A written version with a number in it, in characters that no notation uses for itself. -/
structure IsBound (cs : List Char) (w : WrittenVersion) : Prop where
  plain : ∀ c ∈ cs, isPlain c = true
  closing : ∀ c ∈ cs, isClosing c = false
  reads : WrittenVersion.ofChars cs = .ok w
  numbered : 1 ≤ w.given

variable {a b : List Char} {v w : WrittenVersion}

theorem IsBound.isBlank (h : IsBound a w) : ∀ c ∈ a, isBlank c = false :=
  fun c hc => isBlank_of_isPlain (h.plain c hc)

theorem IsBound.inside (h : IsBound a w) : ∀ c ∈ a, isClosing c = false ∧ Text.isBlank c = false :=
  fun c hc => ⟨h.closing c hc, h.isBlank c hc⟩

theorem IsBound.exists_cons (h : IsBound a w) :
    ∃ c rest, a = c :: rest ∧ WrittenVersion.isInitial c = true :=
  WrittenVersion.exists_initial_of_ofChars h.isBlank h.reads

theorem IsBound.not_mem (h : IsBound a w) {c : Char} (hc : isPlain c = false) : c ∉ a :=
  fun hm => by simp [h.plain c hm] at hc

theorem IsBound.ofComparator (h : IsBound a w) (r : Relation) :
    Interval.ofComparator (r.chars ++ a) = .ok (ofRelation r w) :=
  ofComparator_chars h.reads r

theorem IsBound.isComparator (h : IsBound a w) (r : Relation) : IsComparator (r.chars ++ a) := by
  refine ⟨List.forall_mem_append.mpr ⟨?_, h.plain⟩, _, h.ofComparator r⟩
  cases r <;> simp [chars, isPlain, isSeparator, Text.isBlank]

section Exact

variable (hn : 1 ≤ w.given) (hw : w.wildcard = false)
include hn hw

theorem ofRelation_lowerBound (inclusive : Bool) :
    ofRelation (lowerBound inclusive) w = atLeast w.version inclusive := by
  have hgiven : w.given ≠ 0 := Nat.one_le_iff_ne_zero.mp hn
  cases inclusive <;> simp [ofRelation, lowerBound, pastWildcard?, hgiven, hw]

theorem ofRelation_upperBound (inclusive : Bool) :
    ofRelation (upperBound inclusive) w = atMost w.version inclusive := by
  have hgiven : w.given ≠ 0 := Nat.one_le_iff_ne_zero.mp hn
  cases inclusive <;> simp [ofRelation, upperBound, pastWildcard?, hgiven, hw]

theorem ofRelation_same : ofRelation .same w = exactly w.version := by
  have hgiven : w.given ≠ 0 := Nat.one_le_iff_ne_zero.mp hn
  simp [ofRelation, ofWritten, hgiven, hw]

end Exact

/-- The bracket before an interval. -/
def openingMark (inclusive : Bool) : Char := if inclusive then '[' else '('

/-- The bracket after an interval. -/
def closingMark (inclusive : Bool) : Char := if inclusive then ']' else ')'

/-- One interval in brackets. -/
def inBrackets (l u : Bool) (body : List Char) : List Char :=
  openingMark l :: (body ++ [closingMark u])

theorem opening?_inBrackets (l u : Bool) (body rest : List Char) :
    opening? (inBrackets l u body ++ rest) = some (l, body ++ closingMark u :: rest) := by
  cases l <;> simp [inBrackets, openingMark, opening?]

/-- What stands between the brackets ends at the closing one. -/
theorem span_closingMark {body : List Char} (hb : ∀ c ∈ body, isClosing c = false) (u : Bool)
    (rest : List Char) :
    (body ++ closingMark u :: rest).takeWhile (!isClosing ·) = body ∧
      (body ++ closingMark u :: rest).dropWhile (!isClosing ·) = closingMark u :: rest := by
  have hclose : isClosing (closingMark u) = true := by cases u <;> rfl
  have hopen : ∀ c ∈ body, (!isClosing c) = true := fun c hc => by rw [hb c hc]; rfl
  rw [List.takeWhile_append_of_pos hopen, List.dropWhile_append_of_pos hopen]
  simp [hclose]

/-- The first interval of a list is left out where its bounds cross. -/
theorem ofBrackets_append {body : List Char} (hb : ∀ c ∈ body, isClosing c = false) (l u : Bool)
    (rest : List Char) : ofBrackets (inBrackets l u body ++ rest) =
      match ofBody l u body with
      | .error fault => .error fault
      | .ok i => (ofBrackets (dropSeparator rest)).map fun more =>
          if i.crosses then more else i :: more := by
  have ho := opening?_inBrackets l u body rest
  have hsquare : (closingMark u == ']') = u := by cases u <;> rfl
  obtain ⟨htake, hdrop⟩ := span_closingMark hb u rest
  fun_cases ofBrackets (inBrackets l u body ++ rest) with
  | case1 h => cases h
  | case2 _ h => exact absurd (h.symm.trans ho) nofun
  | case3 _ _ _ h hc =>
    cases h.symm.trans ho
    exact absurd (hc.symm.trans hdrop) nofun
  | case4 _ _ _ h close rest hc _ _ hf =>
    cases h.symm.trans ho
    cases hc.symm.trans hdrop
    rw [hsquare, htake] at hf
    rw [hf]
  | case5 _ _ _ h close rest hc _ _ hf =>
    cases h.symm.trans ho
    cases hc.symm.trans hdrop
    rw [hsquare, htake] at hf
    rw [hf]

theorem ofBrackets_inBrackets {body : List Char} (hb : ∀ c ∈ body, isClosing c = false)
    {l u : Bool} {i : Interval} (hi : ofBody l u body = .ok i) :
    ofBrackets (inBrackets l u body) = .ok (if i.crosses then [] else [i]) := by
  have hend : ofBrackets (dropSeparator []) = .ok [] := by
    rw [ofBrackets]
    rfl
  rw [← List.append_nil (inBrackets l u body), ofBrackets_append hb, hi]
  simp only [hend]
  rfl

/-- Where a version can be read, something is written. -/
theorem bound?_of_exactVersion {cs : List Char} {v : Version} (h : exactVersion cs = .ok v)
    (inclusive : Bool) : bound? cs inclusive = .ok (some ⟨v, inclusive⟩) := by
  have hempty : (trim cs).isEmpty = false := by
    by_contra hnot
    have hnil : trim cs = [] := List.isEmpty_iff.mp (Bool.not_eq_false _ ▸ hnot)
    simp [exactVersion, WrittenVersion.ofChars, hnil] at h
  rw [bound?, hempty, if_neg Bool.false_ne_true, h]
  rfl

theorem ofBody_exact {cs : List Char} {v : Version} (hc : ',' ∉ cs) (h : exactVersion cs = .ok v) :
    ofBody true true cs = .ok (exactly v) := by
  simp only [ofBody, splitOnce?_eq_none hc, h]
  rfl

theorem exactVersion_of_isBound (h : IsBound a w) (hw : w.wildcard = false) :
    exactVersion a = .ok w.version := by
  simp [exactVersion, h.reads, hw]

theorem bound?_of_isBound (h : IsBound a w) (hw : w.wildcard = false) (inclusive : Bool) :
    bound? a inclusive = .ok (some ⟨w.version, inclusive⟩) :=
  bound?_of_exactVersion (exactVersion_of_isBound h hw) inclusive

theorem bound?_nil (inclusive : Bool) : bound? [] inclusive = .ok none := rfl

theorem ofBody_pair {low high : List Char} (hc : ',' ∉ low) {x y : Option Bound} {l u : Bool}
    (hl : bound? low l = .ok x) (hh : bound? high u = .ok y) :
    ofBody l u (low ++ ',' :: high) = .ok ⟨x, y⟩ := by
  simp only [ofBody, splitOnce?_append hc, hl, hh]
  rfl

theorem ofBody_single (h : IsBound a w) (hw : w.wildcard = false) :
    ofBody true true a = .ok (exactly w.version) :=
  ofBody_exact (h.not_mem (by decide)) (exactVersion_of_isBound h hw)

theorem contains_bounds (low high : Bound) (v : Version) :
    contains ⟨some low, some high⟩ v = true ↔
      (atLeast low.version low.inclusive).contains v = true ∧
        (atMost high.version high.inclusive).contains v = true := by
  simp [contains, atLeast, atMost, lowerAllows, upperAllows]

theorem exists_next? (hn : 1 ≤ w.given) : ∃ next, w.next? = some next := by
  simp only [WrittenVersion.next?]
  split
  · omega
  all_goals exact ⟨_, rfl⟩

def hyphenated (a b : List Char) : List Char := a ++ ' ' :: '-' :: ' ' :: b

theorem not_mem_hyphenated (ha : IsBound a v) (hb : IsBound b w) {c : Char}
    (hp : isPlain c = false) (hc : c ≠ ' ') : c ∉ hyphenated a b := by
  have hhyphen : c ≠ '-' := by
    rintro rfl
    cases hp
  simp [hyphenated, ha.not_mem hp, hb.not_mem hp, hc, hhyphen]

theorem trim_hyphenated (ha : IsBound a v) (hb : IsBound b w) :
    trim (hyphenated a b) = hyphenated a b := by
  obtain ⟨c, rest, hc, -⟩ := ha.exists_cons
  obtain ⟨d, tail, hd, -⟩ := hb.exists_cons
  have hfirst : (hyphenated a b).head? = a.head? := by simp [hyphenated, hc]
  have hlast : (hyphenated a b).getLast? = b.getLast? := by
    simp [hyphenated, hd, List.getLast?_append, List.getLast?_cons]
  refine trim_of_ends (fun e he => ha.isBlank e ?_) (fun e he => hb.isBlank e ?_)
  · exact List.mem_of_mem_head? (hfirst ▸ he)
  · exact List.mem_of_mem_getLast? (hlast ▸ he)

/-- A hyphen range cuts what its two comparators cut. -/
theorem ofHyphen_of_isBound (ha : IsBound a v) (hb : IsBound b w) : ofHyphen a b =
    .ok ((ofRelation .atLeast v).intersect? (ofRelation .atMost w)) := by
  have hv : v.given ≠ 0 := Nat.one_le_iff_ne_zero.mp ha.numbered
  have hw : w.given ≠ 0 := Nat.one_le_iff_ne_zero.mp hb.numbered
  obtain ⟨next, hnext⟩ := exists_next? hb.numbered
  cases hwild : w.wildcard <;>
    simp [ofHyphen, ha.reads, hb.reads, ofRelation, pastWildcard?, hv, hw, hwild, hnext]

theorem isEverything_eq_false {cs : List Char} (h : ' ' ∈ cs) : isEverything cs = false := by
  rw [← Bool.not_eq_true]
  intro he
  rcases cases_of_isEverything he with rfl | rfl | rfl | rfl | rfl <;> exact absurd h (by decide)

theorem ofAlternative_hyphenated (ha : IsBound a v) (hb : IsBound b w) :
    ofAlternative (hyphenated a b) =
      .ok ((ofRelation .atLeast v).intersect? (ofRelation .atMost w)) := by
  have heverything : isEverything (hyphenated a b) = false :=
    isEverything_eq_false (by simp [hyphenated])
  have hsplit : splitHyphen? (hyphenated a b) = some (a, b) :=
    splitHyphen?_append (ha.not_mem (by decide)) b
  rw [ofAlternative, heverything, if_neg Bool.false_ne_true, hsplit]
  exact ofHyphen_of_isBound ha hb

end Interval

namespace VersionRange

open DependencyAudit.Relation DependencyAudit.Interval Text

variable {a b : List Char} {v w : WrittenVersion}

/-- Two expressions that can be read and hold the same versions. -/
def Agree (s t : List Char) : Prop :=
  ∃ r r', ofText (String.ofList s) = .ok r ∧ ofText (String.ofList t) = .ok r' ∧
    ∀ v, r.contains v = r'.contains v

theorem Denotes.agree {s t : List Char} {P : Version → Prop} (hs : Denotes s P)
    (ht : Denotes t P) : Agree s t := by
  obtain ⟨r, hr, hmean⟩ := hs.exists_ofText
  obtain ⟨r', hr', hmean'⟩ := ht.exists_ofText
  refine ⟨r, r', hr, hr', fun v => ?_⟩
  rw [Bool.eq_iff_iff, hmean, hmean']

theorem Denotes.congr {s : List Char} {P Q : Version → Prop} (h : Denotes s P)
    (hPQ : ∀ v, P v ↔ Q v) : Denotes s Q := by
  obtain ⟨is, his, hmean⟩ := h
  exact ⟨is, his, fun v => (hmean v).trans (hPQ v)⟩

theorem denotes_set {ts : List (List Char)} {text : List Char} (hts : ∀ t ∈ ts, IsComparator t)
    (h : SpellsSet ts text) : Denotes text fun u => ∀ t ∈ ts, Satisfies t u := by
  have halone := SpellsAlternatives.single h.spellsAlternative
  exact (halone.denotes (by simpa using hts)).congr fun u => by simp

theorem denotes_comparator (h : IsBound a w) (r : Relation) :
    Denotes (r.chars ++ a) fun u => (ofRelation r w).contains u = true := by
  refine (denotes_set ?_ (spellsSet_singleton _)).congr fun u => ?_
  · simpa using h.isComparator r
  · simp [satisfies_iff (h.ofComparator r)]

theorem denotes_comparators (ha : IsBound a v) (hb : IsBound b w) (r s : Relation) :
    Denotes (r.chars ++ a ++ ' ' :: (s.chars ++ b)) fun u =>
      (ofRelation r v).contains u = true ∧ (ofRelation s w).contains u = true := by
  have hblank : ∀ c ∈ [' '], isSeparator c = true := by simp [isSeparator, isBlank]
  have hspell := SpellsSet.cons (spellsComparator_self (r.chars ++ a)) hblank (by simp)
    (spellsSet_singleton (s.chars ++ b))
  refine (denotes_set ?_ hspell).congr fun u => ?_
  · simpa using ⟨ha.isComparator r, hb.isComparator s⟩
  · simp [satisfies_iff (ha.ofComparator r), satisfies_iff (hb.ofComparator s)]

theorem denotes_hyphenated (ha : IsBound a v) (hb : IsBound b w) :
    Denotes (hyphenated a b) fun u =>
      (ofRelation .atLeast v).contains u = true ∧ (ofRelation .atMost w).contains u = true := by
  have hbracket : isBracketed (hyphenated a b) = false := isBracketed_of_not_mem
    ⟨not_mem_hyphenated ha hb (by decide) (by decide),
      not_mem_hyphenated ha hb (by decide) (by decide)⟩
  have halone : alternatives (hyphenated a b) = [hyphenated a b] :=
    alternatives_of_not_mem (not_mem_hyphenated ha hb (by decide) (by decide))
  refine ⟨[(ofRelation .atLeast v).intersect? (ofRelation .atMost w)].filterMap id, ?_, fun u => ?_⟩
  · rw [trim_hyphenated ha hb, intervalsOf, hbracket, if_neg Bool.false_ne_true, halone,
      List.mapM_cons, trim_hyphenated ha hb, ofAlternative_hyphenated ha hb]
    rfl
  · rw [exists_mem_filterMap_cons, exists_mem_intersect?_iff]
    simp

theorem denotes_inBrackets {body : List Char}
    (hb : ∀ c ∈ body, isClosing c = false ∧ isBlank c = false) {l u : Bool} {i : Interval}
    (hi : ofBody l u body = .ok i) : Denotes (inBrackets l u body) fun v => i.contains v = true := by
  have htrim : trim (inBrackets l u body) = inBrackets l u body := by
    refine trim_of_not_blank fun c hc => ?_
    simp only [inBrackets, List.mem_cons, List.mem_append, List.not_mem_nil, or_false] at hc
    rcases hc with rfl | hc | rfl
    · cases l <;> rfl
    · exact (hb c hc).2
    · cases u <;> rfl
  have hbracket : isBracketed (inBrackets l u body) = true := by cases l <;> rfl
  refine ⟨if i.crosses then [] else [i], ?_, fun v => ?_⟩
  · rw [htrim, intervalsOf, if_pos hbracket, ofBrackets_inBrackets (fun c hc => (hb c hc).1) hi]
  · by_cases hx : i.crosses = true
    · simp [hx, contains_of_crosses hx v]
    · simp [hx]

/-- A hyphen range holds the versions of its two comparators, and so does an interval in brackets with
two bounds, one bound or a single version, where wildcards are left out. -/
theorem notations_agree (ha : IsBound a v) (hb : IsBound b w) :
    Agree (hyphenated a b) (chars .atLeast ++ a ++ ' ' :: (chars .atMost ++ b)) ∧
    (v.wildcard = false → w.wildcard = false →
      (∀ l u, Agree (inBrackets l u (a ++ ',' :: b))
        (chars (lowerBound l) ++ a ++ ' ' :: (chars (upperBound u) ++ b))) ∧
      Agree (inBrackets true true a) a ∧
      (∀ l u, Agree (inBrackets l u (a ++ [','])) (chars (lowerBound l) ++ a)) ∧
      ∀ l u, Agree (inBrackets l u (',' :: b)) (chars (upperBound u) ++ b)) := by
  have hcomma : isClosing ',' = false ∧ isBlank ',' = false := by decide
  refine ⟨(denotes_hyphenated ha hb).agree (denotes_comparators ha hb .atLeast .atMost),
    fun hv hw => ⟨fun l u => ?_, ?_, fun l u => ?_, fun l u => ?_⟩⟩
  · have hbody := ofBody_pair (ha.not_mem (by decide)) (bound?_of_isBound ha hv l)
      (bound?_of_isBound hb hw u)
    have hinside := List.forall_mem_append.mpr
      ⟨ha.inside, List.forall_mem_cons.mpr ⟨hcomma, hb.inside⟩⟩
    refine (denotes_inBrackets hinside hbody).agree
      ((denotes_comparators ha hb (lowerBound l) (upperBound u)).congr fun x => ?_)
    rw [ofRelation_lowerBound ha.numbered hv, ofRelation_upperBound hb.numbered hw, contains_bounds]
  · have hbody := ofBody_single ha hv
    rw [← ofRelation_same ha.numbered hv] at hbody
    exact (denotes_inBrackets ha.inside hbody).agree (denotes_comparator ha .same)
  · have hbody := ofBody_pair (ha.not_mem (by decide)) (bound?_of_isBound ha hv l) (bound?_nil u)
    have hinside := List.forall_mem_append.mpr ⟨ha.inside, List.forall_mem_singleton.mpr hcomma⟩
    have hcomparator := denotes_comparator ha (lowerBound l)
    rw [ofRelation_lowerBound ha.numbered hv] at hcomparator
    exact (denotes_inBrackets hinside hbody).agree hcomparator
  · have hbody := ofBody_pair List.not_mem_nil (bound?_nil l) (bound?_of_isBound hb hw u)
    have hinside : ∀ c ∈ ',' :: b, isClosing c = false ∧ isBlank c = false :=
      List.forall_mem_cons.mpr ⟨hcomma, hb.inside⟩
    have hcomparator := denotes_comparator hb (upperBound u)
    rw [ofRelation_upperBound hb.numbered hw] at hcomparator
    exact (denotes_inBrackets hinside hbody).agree hcomparator

/-- An inverted pair of bounds, one of them a pre-release. -/
theorem notations_agree_inverted :
    let a := "2.0.0-rc.1".toList
    let b := "1.2".toList
    let v : WrittenVersion := ⟨⟨2, 0, 0, [⟨"rc".toList⟩, ⟨"1".toList⟩], []⟩, 3, false⟩
    let w : WrittenVersion := ⟨.release 1 2 0, 2, false⟩
    (IsBound a v ∧ IsBound b w ∧ v.wildcard = false ∧ w.wildcard = false) ∧
      Agree "2.0.0-rc.1 - 1.2".toList ">=2.0.0-rc.1 <=1.2".toList ∧
      Agree "[2.0.0-rc.1,1.2)".toList ">=2.0.0-rc.1 <1.2".toList ∧
      Agree "[2.0.0-rc.1]".toList "2.0.0-rc.1".toList ∧
      Agree "(2.0.0-rc.1,)".toList ">2.0.0-rc.1".toList ∧
      Agree "(,1.2]".toList "<=1.2".toList := by
  intro a b v w
  have hclosing (cs : List Char) (h : cs.any isClosing = false) : ∀ c ∈ cs, isClosing c = false := by
    simpa using h
  have ha : IsBound a v :=
    ⟨List.all_eq_true.mp (by decide +kernel), hclosing a (by decide +kernel), by decide +kernel,
      by decide⟩
  have hb : IsBound b w :=
    ⟨List.all_eq_true.mp (by decide +kernel), hclosing b (by decide +kernel), by decide +kernel,
      by decide⟩
  obtain ⟨hhyphen, hexact⟩ := notations_agree ha hb
  obtain ⟨hpair, hsingle, hlower, hupper⟩ := hexact rfl rfl
  exact ⟨⟨ha, hb, rfl, rfl⟩, hhyphen, hpair true false, hsingle, hlower false false,
    hupper false true⟩

end VersionRange
end DependencyAudit
