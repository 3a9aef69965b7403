import Mathlib.Data.List.Basic
import DependencyAudit.Json.Reader
import DependencyAudit.Json.Writer

/-! What the writer writes is read back as it was. -/
namespace DependencyAudit

/-- Text in which nothing can go on with characters of the kind. -/
def Stops (p : Char → Bool) (cs : List Char) : Prop := ∀ c ∈ cs.head?, p c = false

theorem Stops.mono {p q : Char → Bool} {cs : List Char} (h : Stops p cs)
    (hq : ∀ c, q c = true → p c = true) : Stops q cs := by
  intro c hc
  have hp := h c hc
  by_contra hn
  simp [hq c (by simpa using hn)] at hp

theorem takeWhile_append_of_stops {p : Char → Bool} {xs cs : List Char} (hx : ∀ c ∈ xs, p c = true)
    (hs : Stops p cs) : (xs ++ cs).takeWhile p = xs := by
  rw [List.takeWhile_append_of_pos hx]
  cases cs with
  | nil => simp
  | cons c cs => simp [hs c (by simp)]

theorem dropWhile_append_of_stops {p : Char → Bool} {xs cs : List Char} (hx : ∀ c ∈ xs, p c = true)
    (hs : Stops p cs) : (xs ++ cs).dropWhile p = cs := by
  rw [List.dropWhile_append_of_pos hx]
  cases cs with
  | nil => simp
  | cons c cs => simp [hs c (by simp)]

namespace Decimal

def Exponent.IsWritten (e : Exponent) : Prop := e.digits ≠ [] ∧ ∀ c ∈ e.digits, c.isDigit = true

/-- Digits before the point without needless zeros, and digits in the power of ten. -/
structure Numeral.IsWritten (n : Numeral) : Prop where
  whole_ne_nil : n.whole ≠ []
  whole_digits : ∀ c ∈ n.whole, c.isDigit = true
  whole_head : n.whole.head? = some '0' → n.whole.length = 1
  fraction_digits : ∀ c ∈ n.fraction, c.isDigit = true
  exponent : ∀ e ∈ n.exponent, e.IsWritten

end Decimal

/-- A string of characters, as the writer is given it. -/
def RawString.IsClean (s : RawString) : Prop := ∃ t : String, s = .ofString t

mutual

/-- No flaw, no half of a pair, and every numeral as it is written. -/
def Json.IsClean : Json → Prop
  | .null => True
  | .bool _ => True
  | .number n => n.IsWritten
  | .string s => s.IsClean
  | .array is => is.IsClean
  | .object ms => ms.IsClean
  | .flawed _ => False

def Items.IsClean : Items → Prop
  | .closed => True
  | .flawed _ => False
  | .item head rest => head.IsClean ∧ rest.IsClean

def Members.IsClean : Members → Prop
  | .closed => True
  | .flawed _ => False
  | .member key value rest => key.IsClean ∧ value.IsClean ∧ rest.IsClean

end

namespace Json.Reader

open Decimal

/-- A character that could belong to a numeral, or be taken for it. -/
def inNumeral (c : Char) : Bool := c.isDigit || c == '.' || c == 'e' || c == 'E'

theorem whole_append {digits rest : List Char} (hn : digits ≠ [])
    (hd : ∀ c ∈ digits, c.isDigit = true)
    (hz : digits.head? = some '0' → digits.length = 1) (hs : Stops Char.isDigit rest) :
    whole (digits ++ rest) = .ok (digits, rest) := by
  have he : digits.isEmpty = false := by simpa using hn
  have hc : (digits.head? == some '0' && decide (digits.length > 1)) = false := by
    by_cases h : digits.head? = some '0'
    · simp [hz h]
    · simp [h]
  simp [whole, takeWhile_append_of_stops hd hs, dropWhile_append_of_stops hd hs, he, hc]

theorem fraction_append {digits rest : List Char} (hd : ∀ c ∈ digits, c.isDigit = true)
    (hs : Stops Char.isDigit rest) (hp : Stops (· == '.') rest) :
    fraction ((if digits.isEmpty then [] else '.' :: digits) ++ rest) = .ok (digits, rest) := by
  cases digits with
  | nil =>
    simp only [List.isEmpty_nil, if_true, List.nil_append, fraction]
    split
    · simpa using hp '.' (by simp)
    · rfl
  | cons d ds =>
    have ht := takeWhile_append_of_stops hd hs
    have hr := dropWhile_append_of_stops hd hs
    simp only [List.cons_append] at ht hr
    simp [fraction, ht, hr]

theorem exponent_append {e : Exponent} (he : e.IsWritten) {rest : List Char}
    (hs : Stops Char.isDigit rest) : exponent (e.chars ++ rest) = .ok (some e, rest) := by
  have ht := takeWhile_append_of_stops he.2 hs
  have hr := dropWhile_append_of_stops he.2 hs
  obtain ⟨negative, digits⟩ := e
  have hn : digits.isEmpty = false := by simpa using he.1
  cases negative <;> simp [exponent, Exponent.chars, ht, hr, hn]

theorem exponent_of_stops {rest : List Char} (hs : Stops (fun c => c == 'e' || c == 'E') rest) :
    exponent rest = .ok (none, rest) := by
  cases rest with
  | nil => rfl
  | cons c rest =>
    have hc : ¬(c = 'e' ∨ c = 'E') := by simpa using hs c (by simp)
    simp [exponent, hc]

/-- A numeral is read to its end where nothing follows that could belong to it. -/
theorem numeral_chars_append {n : Numeral} (hn : n.IsWritten) {rest : List Char}
    (hs : Stops inNumeral rest) :
    numeral n.negative (n.whole ++ (if n.fraction.isEmpty then [] else '.' :: n.fraction) ++
      (n.exponent.map (·.chars)).getD [] ++ rest) = .ok (n, rest) := by
  have hdigit : Stops Char.isDigit rest := hs.mono (by simp [inNumeral]; tauto)
  have hpoint : Stops (· == '.') rest := hs.mono (by simp [inNumeral])
  have hletter : Stops (fun c => c == 'e' || c == 'E') rest := hs.mono (by simp [inNumeral])
  obtain ⟨negative, w, f, e⟩ := n
  -- What follows the digits before the point, and what follows those after it.
  have hexp : exponent ((e.map (·.chars)).getD [] ++ rest) = .ok (e, rest) ∧
      Stops Char.isDigit ((e.map (·.chars)).getD [] ++ rest) ∧
      Stops (· == '.') ((e.map (·.chars)).getD [] ++ rest) := by
    cases e with
    | none => exact ⟨exponent_of_stops hletter, by simpa using hdigit, by simpa using hpoint⟩
    | some e =>
      refine ⟨exponent_append (hn.exponent e rfl) hdigit, ?_, ?_⟩ <;>
        simp [Stops, Exponent.chars]
  have hfrac := fraction_append hn.fraction_digits hexp.2.1 hexp.2.2
  have hstop : Stops Char.isDigit ((if f.isEmpty then [] else '.' :: f) ++
      ((e.map (·.chars)).getD [] ++ rest)) := by
    cases f with
    | nil => simpa using hexp.2.1
    | cons d ds => simp [Stops]
  have hwhole := whole_append hn.whole_ne_nil hn.whole_digits hn.whole_head hstop
  simp only [List.append_assoc] at hwhole hfrac ⊢
  simp only [numeral, hwhole, hfrac, hexp.1, bind, Except.bind, pure, Except.pure]

theorem hexUnit?_control : ∀ n < 32, hexUnit? '0' '0' (hexDigit (n / 16)) (hexDigit (n % 16)) =
    some n ∧ unitPart n = .char (Char.ofNat n) := by
  decide

theorem string_of_plain {c : Char} (cs : List Char) (hq : c ≠ '"') (hb : c ≠ '\\')
    (hc : ¬c.toNat < 0x20) : string (c :: cs) = addPart (.char c) (string cs) := by
  rw [string]
  · simp [hc]
  all_goals simp_all

/-- What is written for a character is read as the character. -/
theorem string_escaped (c : Char) (cs : List Char) :
    string (escaped c ++ cs) = addPart (.char c) (string cs) := by
  unfold escaped
  split
  any_goals rfl
  rename_i hq hb _ _ _ _ _
  split
  · rename_i hc
    obtain ⟨hu, hp⟩ := hexUnit?_control c.toNat hc
    simp only [List.cons_append, List.nil_append, string, hu, hp, Char.ofNat_toNat]
  · rename_i hc
    exact string_of_plain cs hq hb hc

/-- A string that holds characters only is read back after its opening quote. -/
theorem string_stringChars (t : List Char) (rest : List Char) :
    string ((t.map StringPart.char).flatMap partChars ++ '"' :: rest) =
      (⟨t.map .char, none⟩, rest) := by
  induction t with
  | nil => simp [string]
  | cons c t ih =>
    rw [List.map_cons, List.flatMap_cons, List.append_assoc, partChars, string_escaped, ih]
    rfl

theorem skipSpace_cons {c : Char} (cs : List Char) (h : isSpace c = false) :
    skipSpace (c :: cs) = c :: cs := by
  simp [skipSpace, h]

theorem not_isSpace_of_isDigit {c : Char} (h : c.isDigit = true) : isSpace c = false ∧ c ≠ ']' := by
  constructor
  · by_contra hs
    simp only [isSpace, Bool.not_eq_false, Bool.or_eq_true, beq_iff_eq] at hs
    rcases hs with ((rfl | rfl) | rfl) | rfl <;> cases h
  · rintro rfl
    cases h

/-- The first character of a value starts neither space nor the end of a list. -/
theorem exists_compactChars_eq {j : Json} (h : j.IsClean) :
    ∃ c cs, j.compactChars = c :: cs ∧ isSpace c = false ∧ c ≠ ']' := by
  cases j with
  | null => exact ⟨_, _, rfl, by decide, by decide⟩
  | bool b => cases b <;> exact ⟨_, _, rfl, by decide, by decide⟩
  | number n =>
    obtain ⟨negative, w, f, e⟩ := n
    cases w with
    | nil => exact absurd rfl h.whole_ne_nil
    | cons d w =>
      cases negative with
      | true => exact ⟨'-', _, rfl, by decide, by decide⟩
      | false => exact ⟨d, _, rfl, not_isSpace_of_isDigit (h.whole_digits d List.mem_cons_self)⟩
  | string s => exact ⟨_, _, rfl, by decide, by decide⟩
  | array is => exact ⟨_, _, rfl, by decide, by decide⟩
  | object ms => exact ⟨_, _, rfl, by decide, by decide⟩
  | flawed f => exact h.elim

theorem value_chars {n : Numeral} (hn : n.IsWritten) {rest : List Char}
    (hs : Stops inNumeral rest) (fuel : ℕ) :
    value (fuel + 1) (n.chars ++ rest) = (.number n, rest) := by
  have hread := numeral_chars_append hn hs
  obtain ⟨negative, w, f, e⟩ := n
  cases negative with
  | true =>
    simp only [List.append_assoc] at hread
    have hm : isSpace '-' = false := by decide
    simp only [Numeral.chars, if_true, List.cons_append, List.nil_append, List.append_assoc, value,
      skipSpace_cons _ hm, number, hread]
  | false =>
    cases w with
    | nil => exact absurd rfl hn.whole_ne_nil
    | cons d w =>
      have hd : d.isDigit = true := hn.whole_digits d List.mem_cons_self
      simp only [List.append_assoc, List.cons_append] at hread
      simp only [Numeral.chars, List.nil_append, List.append_assoc, List.cons_append, value,
        skipSpace_cons _ (not_isSpace_of_isDigit hd).1, Bool.false_eq_true, if_false]
      split
      any_goals cases hd
      simp only [hd, if_true, number, hread]

theorem stops_compactItems {is : Items} (h : is.IsClean) (rest : List Char) :
    Stops inNumeral (compactItems false is ++ rest) := by
  cases is with
  | closed => simp [Stops, compactItems, inNumeral]
  | flawed f => exact h.elim
  | item head more => simp [Stops, compactItems, inNumeral]

theorem stops_compactMembers {ms : Members} (h : ms.IsClean) (rest : List Char) :
    Stops inNumeral (compactMembers false ms ++ rest) := by
  cases ms with
  | closed => simp [Stops, compactMembers, inNumeral]
  | flawed f => exact h.elim
  | member key v more => simp [Stops, compactMembers, inNumeral]

mutual

/-- A value is read to its end; twice as many steps as characters are enough. -/
theorem value_compactChars (j : Json) (h : j.IsClean) {rest : List Char} (hr : Stops inNumeral rest)
    (fuel : ℕ) (hf : 2 * j.compactChars.length ≤ fuel) :
    value fuel (j.compactChars ++ rest) = (j, rest) := by
  obtain ⟨c, cs, hc, -, -⟩ := exists_compactChars_eq h
  cases fuel with
  | zero => simp [hc] at hf
  | succ fuel =>
    match j with
    | .null => simp [compactChars, value, skipSpace, isSpace, literal]
    | .bool b => cases b <;> simp [compactChars, literalChars, value, skipSpace, isSpace, literal]
    | .number n => exact value_chars h hr fuel
    | .string s =>
      obtain ⟨t, rfl⟩ := h
      have hs := string_stringChars t.toList rest
      simp [compactChars, stringChars, value, skipSpace, isSpace, RawString.ofString, hs]
    | .array is =>
      simp only [compactChars, List.length_cons] at hf
      have hi := items_compactItems is h true rest fuel (by omega)
      simp [compactChars, value, skipSpace, isSpace, hi]
    | .object ms =>
      simp only [compactChars, List.length_cons] at hf
      have hm := members_compactMembers ms h true rest fuel (by omega)
      simp [compactChars, value, skipSpace, isSpace, hm]
    | .flawed f => exact h.elim

theorem items_compactItems (is : Items) (h : is.IsClean) (first : Bool) (rest : List Char)
    (fuel : ℕ) (hf : 2 * (compactItems first is).length ≤ fuel) :
    items fuel first (compactItems first is ++ rest) = (is, rest) := by
  match is, fuel with
  | .flawed f, _ => exact h.elim
  | .closed, 0 => simp [compactItems] at hf
  | .closed, fuel + 1 => simp [compactItems, items, skipSpace, isSpace]
  | .item head more, fuel =>
    obtain ⟨c, cs, hc, hspace, hne⟩ := exists_compactChars_eq h.1
    have hhead : 0 < head.compactChars.length := by simp [hc]
    have hmore : 0 < (compactItems false more).length := by
      cases more <;> simp_all [compactItems, Items.IsClean]
    cases fuel with
    | zero => simp [compactItems, hc] at hf
    | succ fuel =>
      simp only [compactItems, List.length_append] at hf
      have hv := value_compactChars head h.1 (stops_compactItems h.2 rest) fuel (by omega)
      have hm := items_compactItems more h.2 false rest fuel (by omega)
      cases first with
      | true =>
        simp only [hc, List.cons_append] at hv
        simp only [compactItems, if_true, List.nil_append, List.append_assoc, hc, List.cons_append,
          items, skipSpace_cons _ hspace, if_neg hne, true_or, hv, hm]
      | false =>
        simp only [hc, List.cons_append] at hv
        simp [compactItems, items, skipSpace, isSpace, hc, hv, hm]

theorem members_compactMembers (ms : Members) (h : ms.IsClean) (first : Bool) (rest : List Char)
    (fuel : ℕ) (hf : 2 * (compactMembers first ms).length ≤ fuel) :
    members fuel first (compactMembers first ms ++ rest) = (ms, rest) := by
  match ms, fuel with
  | .flawed f, _ => exact h.elim
  | .closed, 0 => simp [compactMembers] at hf
  | .closed, fuel + 1 => simp [compactMembers, members, skipSpace, isSpace]
  | .member key v more, 0 => simp [compactMembers] at hf
  | .member key v more, fuel + 1 =>
    obtain ⟨⟨t, rfl⟩, hclean, hmore⟩ := h
    simp only [compactMembers, List.length_append, List.length_cons] at hf
    have hs := string_stringChars t.toList
      (':' :: v.compactChars ++ compactMembers false more ++ rest)
    have hv := value_compactChars v hclean (stops_compactMembers hmore rest) fuel (by omega)
    have hm := members_compactMembers more hmore false rest fuel (by omega)
    simp only [List.append_assoc, List.cons_append] at hs hv hm
    cases first <;>
      simp [compactMembers, members, skipSpace, isSpace, stringChars, RawString.ofString, hs, hv, hm]

end

/-- A document is read as the value from which it was written, and nothing follows it. -/
theorem document_compact {j : Json} (h : j.IsClean) : document j.compact = (j, false) := by
  have hs : Stops inNumeral [] := by simp [Stops]
  have hv := value_compactChars j h hs (2 * j.compactChars.length + 2) (by omega)
  rw [List.append_nil] at hv
  simp [document, compact, hv, skipSpace]

end Json.Reader
end DependencyAudit
