import DependencyAudit.Proofs.Text.Digits
import DependencyAudit.Proofs.Toml.Strings
import DependencyAudit.Toml.Reader

/-! Strings, numbers, truth values and arrays of strings are read back from what is written for
them. -/
namespace DependencyAudit.Toml

/-- The text ends, or goes on with what may stand after a value. -/
def Closes (rest : List Char) : Prop := ∀ c ∈ rest.head?, c = '\n' ∨ c = ',' ∨ c = ']'

theorem Closes.stops {rest : List Char} (h : Closes rest) {p : Char → Bool}
    (hline : p '\n' = false) (hcomma : p ',' = false) (hbracket : p ']' = false) : Stops p rest := by
  intro c hc
  rcases h c hc with rfl | rfl | rfl <;> assumption

/-- Characters that are skipped before an item and before a line. -/
def isSkipped (c : Char) : Bool := isGap c || c == '\n' || c == '\r' || c == '#'

theorem skipGaps_of_stops {cs : List Char} (h : Stops isGap cs) : skipGaps cs = cs := by
  cases cs with
  | nil => rfl
  | cons c cs =>
    have hc : isGap c = false := h c (by simp)
    simp [skipGaps, hc]

theorem skipLines_of_stops {cs : List Char} (h : Stops isSkipped cs) (fuel : ℕ) :
    skipLines (fuel + 1) cs = some cs := by
  have hgaps : skipGaps cs = cs := skipGaps_of_stops (h.mono (by simp +contextual [isSkipped]))
  rw [skipLines, hgaps]
  cases cs with
  | nil => rfl
  | cons c cs =>
    have hc : isSkipped c = false := h c (by simp)
    split
    any_goals rfl
    all_goals
      rename_i he
      cases he
      cases hc

theorem skipLines_line (fuel : ℕ) (cs : List Char) :
    skipLines (fuel + 1) ('\n' :: cs) = skipLines fuel cs := by
  rw [skipLines]
  rfl

theorem skipLines_gap {c : Char} (h : isGap c = true) (fuel : ℕ) (cs : List Char) :
    skipLines (fuel + 1) (c :: cs) = skipLines (fuel + 1) cs := by
  have hgaps : skipGaps (c :: cs) = skipGaps cs := by simp [skipGaps, h]
  rw [skipLines, skipLines, hgaps]

theorem value_boolChars (b : Bool) (fuel depth : ℕ) (rest : List Char) :
    value (fuel + 1) depth (boolChars b ++ rest) = some (.bool b, rest) := by
  cases b <;> rfl

/-- Strings begin with a quote. -/
theorem exists_stringChars_eq (cs : List Char) :
    ∃ c more, stringChars cs = c :: more ∧ (c = '"' ∨ c = '\'') := by
  unfold stringChars
  simp only
  split
  · exact ⟨_, _, rfl, Or.inl rfl⟩
  · split
    · exact ⟨_, _, rfl, Or.inr rfl⟩
    · split
      · exact ⟨_, _, rfl, Or.inl rfl⟩
      · split
        · exact ⟨_, _, rfl, Or.inr rfl⟩
        · split <;> exact ⟨_, _, rfl, Or.inl rfl⟩

theorem value_stringChars (s : String) {rest : List Char} (hr : Closes rest) (fuel depth : ℕ) :
    value (fuel + 1) depth (stringChars s.toList ++ rest) = some (.string s, rest) := by
  have hread := string_stringChars s.toList (hr.stops (p := fun c => c == '"' || c == '\'')
    (by decide) (by decide) (by decide))
  obtain ⟨c, more, hc, hquote⟩ := exists_stringChars_eq s.toList
  rw [hc, List.cons_append] at hread ⊢
  rcases hquote with rfl | rfl <;> rw [value, hread] <;> simp

section Numbers

variable {digits rest : List Char}

theorem digitRun_append (hn : digits ≠ []) (hd : ∀ c ∈ digits, c.isDigit = true)
    (hs : Stops Char.isDigit rest) (hu : Stops (· == '_') rest) :
    digitRun Char.isDigit (digits ++ rest) = some (digits, rest) := by
  induction digits with
  | nil => exact absurd rfl hn
  | cons d ds ih =>
    have hdigit := hd d List.mem_cons_self
    cases ds with
    | nil =>
      cases rest with
      | nil => simp [digitRun, hdigit]
      | cons c rest =>
        have hc : c.isDigit = false := hs c (by simp)
        have hc' : c ≠ '_' := by simpa using hu c (by simp)
        rw [List.cons_append, List.nil_append, digitRun, if_pos hdigit]
        · simp [hc]
        · exact fun _ _ h => absurd h hc'
    | cons e es =>
      have he : e.isDigit = true := hd e (by simp)
      have hne : e ≠ '_' := by
        rintro rfl
        cases he
      have ih := ih (by simp) fun c hc => hd c (List.mem_cons_of_mem _ hc)
      rw [List.cons_append] at ih
      rw [List.cons_append, List.cons_append, digitRun, if_pos hdigit]
      · rw [if_pos he, ih]
        rfl
      · exact fun _ _ h => absurd h hne

theorem expect_of_stops {c : Char} {cs : List Char} (h : Stops (· == c) cs) :
    expect c cs = none := by
  cases cs with
  | nil => rfl
  | cons d cs =>
    have hd : d ≠ c := by simpa using h d (by simp)
    simp [expect, Ne.symm hd]

theorem ne_of_isDigit {c d : Char} (hd : d.isDigit = true) (hc : c.isDigit = false) : d ≠ c := by
  rintro rfl
  rw [hd] at hc
  cases hc

theorem stops_digits {c : Char} (hc : c.isDigit = false) (hd : ∀ d ∈ digits, d.isDigit = true)
    (hs : Stops (· == c) rest) : Stops (· == c) (digits ++ rest) := by
  cases digits with
  | nil => exact hs
  | cons d ds => simpa [Stops] using ne_of_isDigit (hd d List.mem_cons_self) hc

/-- Digits of a date or a time are read out of a run of digits. -/
theorem fixedDigits_append (hs : Stops Char.isDigit rest) {count n : ℕ} {left : List Char}
    (h : fixedDigits count (digits ++ rest) = some (n, left)) :
    left = digits.drop count ++ rest := by
  simp only [fixedDigits, Bool.and_eq_true, decide_eq_true_eq] at h
  split at h
  · rename_i hrun
    cases h
    by_cases hle : count ≤ digits.length
    · rw [List.drop_append_of_le_length hle]
    · -- Otherwise the run goes on into the rest, which does not begin with a digit.
      cases rest with
      | nil => simp
      | cons c rest =>
        have hc : c.isDigit = false := hs c (by simp)
        obtain ⟨more, hmore⟩ : ∃ more, count = digits.length + (more + 1) :=
          ⟨count - digits.length - 1, by omega⟩
        subst hmore
        rw [List.take_length_add_append, List.take_succ_cons] at hrun
        simp [hc] at hrun
  · cases h

/-- A run of digits followed by something else begins neither a date nor a time. -/
theorem dateTime_append (hd : ∀ c ∈ digits, c.isDigit = true) (hs : Stops Char.isDigit rest)
    (hdash : Stops (· == '-') rest) (hcolon : Stops (· == ':') rest) :
    dateTime (digits ++ rest) = none := by
  have hstop : ∀ {c : Char}, c.isDigit = false → Stops (· == c) rest → ∀ count,
      Stops (· == c) (digits.drop count ++ rest) := fun hc hr count =>
    stops_digits hc (fun d hm => hd d (List.mem_of_mem_drop hm)) hr
  have hdate : fullDate (digits ++ rest) = none := by
    cases h : fixedDigits 4 (digits ++ rest) with
    | none => simp [fullDate, h]
    | some x =>
      have hx := fixedDigits_append hs h
      simp [fullDate, h, hx, expect_of_stops (hstop (by decide) hdash 4)]
  have htime : partialTime (digits ++ rest) = none := by
    cases h : fixedDigits 2 (digits ++ rest) with
    | none => simp [partialTime, h]
    | some x =>
      have hx := fixedDigits_append hs h
      simp [partialTime, h, hx, expect_of_stops (hstop (by decide) hcolon 2)]
  simp [dateTime, hdate, htime]

theorem exists_decimal_eq (n : ℕ) :
    ∃ d ds, Text.decimal n = d :: ds ∧ d.isDigit = true ∧ ∀ e ∈ ds, e.isDigit = true := by
  obtain ⟨d, ds, hds⟩ := List.exists_cons_of_ne_nil (Text.decimal_ne_nil n)
  have hdigit : ∀ e ∈ d :: ds, e.isDigit = true := by
    rw [← hds]
    exact fun e => Text.isDigit_of_mem_decimal
  exact ⟨d, ds, hds, List.forall_mem_cons.mp hdigit⟩

theorem signedWhole_decimal (n : ℕ) (hs : Stops Char.isDigit rest) (hu : Stops (· == '_') rest) :
    signedWhole (Text.decimal n ++ rest) = some ((false, Text.decimal n), rest) := by
  have hrun := digitRun_append (Text.decimal_ne_nil n) (fun c hc => Text.isDigit_of_mem_decimal hc) hs
    hu
  have hzero : ¬((Text.decimal n).head? == some '0' && decide ((Text.decimal n).length > 1)) = true := by
    intro h
    simp only [Bool.and_eq_true, beq_iff_eq, decide_eq_true_eq] at h
    have hn := Text.eq_zero_of_head?_decimal h.1
    rw [hn, Text.decimal_of_lt (by decide)] at h
    simp at h
  obtain ⟨d, ds, hds, hdigit, -⟩ := exists_decimal_eq n
  rw [hds, List.cons_append] at hrun ⊢
  rw [hds] at hzero
  rw [signedWhole, hrun]
  · simp only [Option.bind_eq_bind, Option.bind_some, if_neg hzero]
  all_goals exact fun _ he => ne_of_isDigit hdigit rfl (List.cons.inj he).1

theorem float_decimal (n : ℕ) (hr : Closes rest) : float (Text.decimal n ++ rest) = none := by
  have hsigned := signedWhole_decimal n (hr.stops (by decide) (by decide) (by decide))
    (hr.stops (by decide) (by decide) (by decide))
  have hfraction : fraction? rest = none := by
    cases rest with
    | nil => rfl
    | cons c rest => rcases hr c (by simp) with rfl | rfl | rfl <;> rfl
  have hexponent : exponent? rest = none := by
    cases rest with
    | nil => rfl
    | cons c rest => rcases hr c (by simp) with rfl | rfl | rfl <;> rfl
  simp [float, hsigned, hfraction, hexponent]

theorem specialFloat_of_isDigit {d : Char} (hd : d.isDigit = true) (cs : List Char) :
    specialFloat (d :: cs) = none := by
  have hne : ∀ c : Char, c.isDigit = false → ∀ cs', d :: cs ≠ c :: cs' :=
    fun c hc cs' he => ne_of_isDigit hd hc (List.cons.inj he).1
  simp only [specialFloat]
  split
  any_goals rfl
  all_goals
    rename_i he
    split at he
    · exact (hne '+' rfl _ ‹_›).elim
    · exact (hne '-' rfl _ ‹_›).elim
    · exact (hne _ rfl _ he).elim

theorem integer_decimal {n : ℕ} (hn : (n : Int) ≤ greatestInteger) (hr : Closes rest) :
    integer (Text.decimal n ++ rest) = some (.integer n, rest) := by
  have hsigned := signedWhole_decimal n (hr.stops (by decide) (by decide) (by decide))
    (hr.stops (by decide) (by decide) (by decide))
  have hrange : inRange n = true := by
    have hlow : leastInteger ≤ n :=
      Int.le_trans (by decide : leastInteger ≤ 0) (Int.natCast_nonneg n)
    simp [inRange, hlow, hn]
  obtain ⟨d, ds, hds, -, hdigits⟩ := exists_decimal_eq n
  rw [hds, List.cons_append] at hsigned ⊢
  -- No base is named behind the first digit.
  have hbase : ∀ c : Char, c.isDigit = false → Stops (· == c) rest → ∀ cs,
      d :: (ds ++ rest) ≠ '0' :: c :: cs := by
    intro c hc hs cs he
    have hstop := stops_digits hc hdigits hs
    rw [(List.cons.inj he).2] at hstop
    simpa using hstop c (by simp)
  rw [integer, hsigned]
  · simp [← hds, hrange]
  · exact hbase 'x' rfl (hr.stops (by decide) (by decide) (by decide))
  · exact hbase 'o' rfl (hr.stops (by decide) (by decide) (by decide))
  · exact hbase 'b' rfl (hr.stops (by decide) (by decide) (by decide))

/-- A number that a document can hold is read back from its digits. -/
theorem value_decimal {n : ℕ} (hn : (n : Int) ≤ greatestInteger) (hr : Closes rest)
    (fuel depth : ℕ) :
    value (fuel + 1) depth (Text.decimal n ++ rest) = some (.integer n, rest) := by
  have hdate : dateTime (Text.decimal n ++ rest) = none :=
    dateTime_append (fun c hc => Text.isDigit_of_mem_decimal hc)
      (hr.stops (by decide) (by decide) (by decide)) (hr.stops (by decide) (by decide) (by decide))
      (hr.stops (by decide) (by decide) (by decide))
  have hfloat := float_decimal n hr
  have hinteger := integer_decimal hn hr
  obtain ⟨d, ds, hds, hdigit, -⟩ := exists_decimal_eq n
  rw [hds, List.cons_append] at hdate hfloat hinteger ⊢
  have hnumber : number (d :: (ds ++ rest)) = some (.integer n, rest) := by
    simp only [number, hdate, hfloat, specialFloat_of_isDigit hdigit, hinteger]
    rfl
  rw [value, hnumber]
  · exact List.cons_ne_nil _ _
  all_goals exact fun _ he => ne_of_isDigit hdigit rfl (List.cons.inj he).1

end Numbers

section Arrays

/-- The items of an array that stands on several lines. -/
def itemLines (items : List (List Char)) : List Char :=
  items.flatMap fun item => [' ', ' ', ' ', ' '] ++ item ++ [',', '\n']

theorem stops_stringChars (cs rest : List Char) : Stops isSkipped (stringChars cs ++ rest) := by
  obtain ⟨c, more, hc, hquote⟩ := exists_stringChars_eq cs
  rw [hc]
  rcases hquote with rfl | rfl <;> simp [Stops, isSkipped, isGap]

/-- What is read behind the first item. -/
def behindItem (item : Node) (fuel depth : ℕ) : Reader (List Node)
  | ',' :: rest => (items fuel depth rest).map fun (more, rest) => (item :: more, rest)
  | ']' :: rest => some ([item], rest)
  | _ => none

theorem items_stringChars (s : String) {rest : List Char} (hr : Closes rest)
    (hs : Stops isSkipped rest) (fuel depth : ℕ) :
    items (fuel + 2) depth (stringChars s.toList ++ rest) =
      behindItem (.string s) (fuel + 1) depth rest := by
  have hstart := stops_stringChars s.toList rest
  have hread := value_stringChars s hr fuel depth
  obtain ⟨c, more, hc, hquote⟩ := exists_stringChars_eq s.toList
  rw [hc, List.cons_append] at hstart hread ⊢
  have hne : c ≠ ']' := by rcases hquote with rfl | rfl <;> decide
  rw [items, skipLines_of_stops hstart]
  simp only [Option.bind_eq_bind, Option.bind_some]
  split
  · rename_i he
    exact absurd (List.cons.inj he).1 hne
  · rw [hread, Option.bind_some, skipLines_of_stops hs, Option.bind_some]
    cases rest with
    | nil => rfl
    | cons d rest =>
      rcases hr d (by simp) with rfl | rfl | rfl
      · rfl
      · rw [behindItem, Option.map_eq_bind]
        rfl
      · rfl

theorem items_none (rest : List Char) (fuel depth : ℕ) :
    items (fuel + 1) depth (']' :: rest) = some ([], rest) := by
  rw [items]
  rfl

/-- Line breaks and gaps before an item are skipped. -/
theorem items_skip {cs cs' : List Char} (hs : Stops isSkipped cs')
    (h : skipLines (cs.length + 1) cs = some cs') (fuel depth : ℕ) :
    items (fuel + 1) depth cs = items (fuel + 1) depth cs' := by
  rw [items, items, h, skipLines_of_stops hs]

theorem items_indented {cs : List Char} (hs : Stops isSkipped cs) (fuel depth : ℕ) :
    items (fuel + 1) depth ('\n' :: ' ' :: ' ' :: ' ' :: ' ' :: cs) =
      items (fuel + 1) depth cs := by
  apply items_skip hs
  rw [skipLines_line, List.length_cons, skipLines_gap rfl, skipLines_gap rfl, skipLines_gap rfl,
    skipLines_gap rfl, skipLines_of_stops hs]

theorem items_itemLines (values : List String) (rest : List Char) {fuel : ℕ}
    (hf : values.length + 1 < fuel) (depth : ℕ) :
    items fuel depth
        ('\n' :: (itemLines (values.map fun s => stringChars s.toList) ++ ']' :: rest)) =
      some (values.map .string, rest) := by
  induction values generalizing fuel with
  | nil =>
    obtain ⟨fuel, rfl⟩ : ∃ n, fuel = n + 1 := ⟨fuel - 1, by omega⟩
    have hs : Stops isSkipped (']' :: rest) := by simp [Stops, isSkipped, isGap]
    rw [items_skip hs, items_none]
    · rfl
    · exact (skipLines_line _ _).trans (skipLines_of_stops hs _)
  | cons s values ih =>
    obtain ⟨fuel, rfl⟩ : ∃ n, fuel = n + 2 := ⟨fuel - 2, by omega⟩
    rw [List.length_cons] at hf
    have hs : ∀ cs, Stops isSkipped (',' :: cs) := by simp [Stops, isSkipped, isGap]
    have hstart := stops_stringChars s.toList (',' :: '\n' ::
      (itemLines (values.map fun s => stringChars s.toList) ++ ']' :: rest))
    have hline : itemLines ((s :: values).map fun s => stringChars s.toList) ++ ']' :: rest =
        ' ' :: ' ' :: ' ' :: ' ' :: (stringChars s.toList ++ ',' :: '\n' ::
          (itemLines (values.map fun s => stringChars s.toList) ++ ']' :: rest)) := by
      simp [itemLines]
    rw [hline, items_indented hstart, items_stringChars s (by simp [Closes]) (hs _),
      behindItem, ih (by omega)]
    rfl

/-- An array of strings, on one line or on several. -/
theorem value_arrayChars (values : List String) (rest : List Char) {fuel : ℕ}
    (hf : values.length + 2 < fuel) (depth : ℕ) :
    value fuel (depth + 1) (arrayChars (values.map fun s => stringChars s.toList) ++ rest) =
      some (.array (values.map .string), rest) := by
  obtain ⟨fuel, rfl⟩ : ∃ n, fuel = n + 3 := ⟨fuel - 3, by omega⟩
  match values with
  | [] => rw [List.map_nil, arrayChars, List.cons_append, value, List.singleton_append, items_none]; rfl
  | [s] =>
    have hs : Stops isSkipped (']' :: rest) := by simp [Stops, isSkipped, isGap]
    simp only [List.map_cons, List.map_nil, arrayChars, List.cons_append, List.append_assoc,
      List.nil_append]
    rw [value, items_stringChars s (by simp [Closes]) hs]
    rfl
  | s :: s' :: values =>
    have hlines := items_itemLines (s :: s' :: values) rest
      (show (s :: s' :: values).length + 1 < fuel + 2 by omega) depth
    have htext : arrayChars ((s :: s' :: values).map fun s => stringChars s.toList) ++ rest =
        '[' :: '\n' :: (itemLines ((s :: s' :: values).map fun s => stringChars s.toList) ++
          ']' :: rest) := by
      simp [arrayChars, itemLines]
    rw [htext, value, hlines]
    rfl

end Arrays

end DependencyAudit.Toml
