import DependencyAudit.Proofs.Json.Reading
import DependencyAudit.Toml.Writer

/-! Every kind of string that is written is read back as it was. -/
namespace DependencyAudit.Toml

theorem scalar?_control : ∀ n < 128,
    scalar? ['0', '0', upperHex (n / 16), upperHex (n % 16)] = some (Char.ofNat n) := by
  decide +kernel

theorem toNat_of_isControl {c : Char} (h : isControl c = true) : c.toNat < 128 := by
  simp only [isControl, Bool.or_eq_true, decide_eq_true_eq, beq_iff_eq] at h
  omega

theorem isPlain_of_not_isControl {c : Char} (h : isControl c = false) : isPlain c = true := by
  simp [isPlain, h]

/-- What stands for a character that is no quote, or for a quote that is escaped. -/
def escaped (long : Bool) (c : Char) : List Char := escapeFrom long 2 [c]

theorem escapeFrom_cons {long : Bool} {quotes : ℕ} {c : Char}
    (h : c = '"' → ¬quotes < if long then 2 else 0) (cs : List Char) :
    escapeFrom long quotes (c :: cs) = escaped long c ++ escapeFrom long 0 cs := by
  simp only [escaped, escapeFrom]
  split
  any_goals rfl
  · rw [if_neg (h rfl)]
    cases long <;> rfl
  · cases long <;> rfl
  · split <;> rfl

theorem basicString_escaped (c : Char) (cs : List Char) :
    basicString (escaped false c ++ cs) = add c (basicString cs) := by
  simp only [escaped, escapeFrom]
  split
  any_goals rfl
  rename_i hq _ _ _ _ _ hb
  split
  · rename_i hc
    have hs := scalar?_control c.toNat (toNat_of_isControl hc)
    simp [basicString, hs]
  · rename_i hc
    have hp := isPlain_of_not_isControl (by simpa using hc)
    have hb : (c != '\\') = true := by simpa using hb
    rw [List.cons_append, List.nil_append, basicString]
    · rw [hp, hb]
      rfl
    all_goals simp_all

/-- Strings in double quotes on one line. -/
theorem basicString_escapeFrom (cs rest : List Char) :
    basicString (escapeFrom false 0 cs ++ '"' :: rest) = some (cs, rest) := by
  induction cs with
  | nil => rfl
  | cons c cs ih =>
    rw [escapeFrom_cons (by simp), List.append_assoc, basicString_escaped, ih]
    rfl

/-- Strings in single quotes on one line. -/
theorem literalString_append {cs : List Char} (h : ∀ c ∈ cs, isPlain c = true ∧ c ≠ '\'')
    (rest : List Char) : literalString (cs ++ '\'' :: rest) = some (cs, rest) := by
  induction cs with
  | nil => rfl
  | cons c cs ih =>
    obtain ⟨hp, hq⟩ := h c List.mem_cons_self
    rw [List.cons_append, literalString, if_pos hp, ih fun c hc => h c (List.mem_cons_of_mem _ hc)]
    · rfl
    · exact hq

theorem longBasic_escaped (c : Char) (cs : List Char) :
    longBasic false (escaped true c ++ cs) = add c (longBasic false cs) := by
  simp only [escaped, escapeFrom]
  split
  any_goals rfl
  rename_i hq _ _ hn _ hr hb
  split
  · rename_i hc
    have hs := scalar?_control c.toNat (toNat_of_isControl hc)
    simp [longBasic, hs]
  · rename_i hc
    have hp := isPlain_of_not_isControl (by simpa using hc)
    have hb : (c != '\\') = true := by simpa using hb
    rw [List.cons_append, List.nil_append, longBasic]
    · simp [hp, hb]
    all_goals simp_all

/-- What stands for a character does not begin with a quote, nor with a line break unless the
character is one. -/
theorem exists_escaped_eq (long : Bool) (c : Char) :
    ∃ d ds, escaped long c = d :: ds ∧ d ≠ '"' ∧ d ≠ '\r' ∧ (c ≠ '\n' → d ≠ '\n') := by
  simp only [escaped, escapeFrom]
  split
  any_goals cases long <;> exact ⟨_, _, rfl, by decide, by decide, by simp⟩
  rename_i hq _ _ _ _ hr _
  split
  · exact ⟨_, _, rfl, by decide, by decide, by simp⟩
  · exact ⟨c, _, rfl, hq, hr, id⟩

theorem escapeFrom_ne_quote {long : Bool} {quotes : ℕ} {c : Char}
    (h : c = '"' → ¬quotes < if long then 2 else 0) (cs rest more : List Char) :
    escapeFrom long quotes (c :: cs) ++ rest ≠ '"' :: more := by
  obtain ⟨d, ds, hd, hq, -⟩ := exists_escaped_eq long c
  rw [escapeFrom_cons h, hd]
  simp [hq]

/-- A quote is read as itself where no two quotes follow. -/
theorem longBasic_quote {cs : List Char} (h : ∀ more, cs ≠ '"' :: '"' :: more) :
    longBasic false ('"' :: cs) = add '"' (longBasic false cs) := by
  rw [longBasic]
  · rfl
  all_goals simp_all

/-- Three quotes and up to two before them close a string, where no quote follows. -/
theorem longBasic_closing {rest : List Char} (hr : Stops (· == '"') rest) :
    longBasic false ('"' :: '"' :: '"' :: rest) = some ([], rest) ∧
    longBasic false ('"' :: '"' :: '"' :: '"' :: rest) = some (['"'], rest) ∧
    longBasic false ('"' :: '"' :: '"' :: '"' :: '"' :: rest) = some (['"', '"'], rest) := by
  cases rest with
  | nil => exact ⟨rfl, rfl, rfl⟩
  | cons c rest =>
    have hc : c ≠ '"' := by simpa using hr c (by simp)
    refine ⟨?_, ?_, ?_⟩ <;> rw [longBasic] <;> simp [hc]

/-- Strings in three double quotes; `quotes` counts those right before that are not escaped. -/
theorem longBasic_escapeFrom (cs : List Char) {rest : List Char} (hr : Stops (· == '"') rest)
    (quotes : ℕ) : longBasic false (escapeFrom true quotes cs ++ '"' :: '"' :: '"' :: rest) =
      some (cs, rest) := by
  induction cs generalizing quotes with
  | nil => exact (longBasic_closing hr).1
  | cons c cs ih =>
    by_cases hq : c = '"' ∧ quotes < 2
    · obtain ⟨rfl, hlt⟩ := hq
      have hstep : escapeFrom true quotes ('"' :: cs) = '"' :: escapeFrom true (quotes + 1) cs := by
        simp [escapeFrom, hlt]
      -- The quotes that end the string are read with the closing ones, all others one by one.
      by_cases hend : cs = [] ∨ cs = ['"'] ∧ quotes = 0
      · rcases hend with rfl | ⟨rfl, rfl⟩
        · rw [hstep]
          exact (longBasic_closing hr).2.1
        · exact (longBasic_closing hr).2.2
      · rw [hstep, List.cons_append, longBasic_quote, ih]
        · rfl
        · intro more
          obtain ⟨c, cs, rfl⟩ := List.exists_cons_of_ne_nil fun h => hend (Or.inl h)
          by_cases hq : c = '"' ∧ quotes = 0
          · obtain ⟨rfl, rfl⟩ := hq
            have hne : cs ≠ [] := fun h => hend (Or.inr ⟨by rw [h], rfl⟩)
            obtain ⟨c, cs, rfl⟩ := List.exists_cons_of_ne_nil hne
            have hnext : escapeFrom true 2 (c :: cs) ++ '"' :: '"' :: '"' :: rest ≠ '"' :: more :=
              escapeFrom_ne_quote (by simp) cs _ more
            simpa [escapeFrom] using hnext
          · have hlast : c = '"' → ¬quotes + 1 < 2 := fun hc hlt => hq ⟨hc, by omega⟩
            exact escapeFrom_ne_quote hlast cs _ _
    · rw [escapeFrom_cons (by simpa using hq), List.append_assoc, longBasic_escaped, ih]
      rfl

theorem le_longestRun (c : Char) (current longest : ℕ) (cs : List Char) :
    current ≤ longestRun c current longest cs ∧ longest ≤ longestRun c current longest cs := by
  induction cs generalizing current longest with
  | nil => exact ⟨Nat.le_max_left _ _, Nat.le_max_right _ _⟩
  | cons d cs ih =>
    rw [longestRun]
    split
    · have := ih (current + 1) longest
      omega
    · have := ih 0 (max current longest)
      omega

theorem not_mem_of_longestRun {c : Char} {cs : List Char} (h : longestRun c 0 0 cs = 0) : c ∉ cs := by
  induction cs with
  | nil => simp
  | cons d cs ih =>
    rw [longestRun] at h
    split at h
    · have hle := (le_longestRun c (0 + 1) 0 cs).1
      omega
    · rename_i hd
      simpa [hd] using ih h

/-- A quote is read as itself where no two quotes follow. -/
theorem longLiteral_quote {cs : List Char} (h : ∀ more, cs ≠ '\'' :: '\'' :: more) :
    longLiteral ('\'' :: cs) = add '\'' (longLiteral cs) := by
  rw [longLiteral]
  · rfl
  all_goals simp_all

theorem longLiteral_other {c : Char} (hc : isPlain c = true ∨ c = '\n') (hq : c ≠ '\'')
    (cs : List Char) : longLiteral (c :: cs) = add c (longLiteral cs) := by
  by_cases hn : c = '\n'
  · subst hn
    rw [longLiteral]
  · have hp : isPlain c = true := hc.resolve_right hn
    have hr : c ≠ '\r' := by
      rintro rfl
      cases hp
    rw [longLiteral, if_pos hp]
    all_goals simp_all

theorem longLiteral_closing {rest : List Char} (hr : Stops (· == '\'') rest) :
    longLiteral ('\'' :: '\'' :: '\'' :: rest) = some ([], rest) ∧
    longLiteral ('\'' :: '\'' :: '\'' :: '\'' :: rest) = some (['\''], rest) ∧
    longLiteral ('\'' :: '\'' :: '\'' :: '\'' :: '\'' :: rest) = some (['\'', '\''], rest) := by
  cases rest with
  | nil => exact ⟨rfl, rfl, rfl⟩
  | cons c rest =>
    have hc : c ≠ '\'' := by simpa using hr c (by simp)
    refine ⟨?_, ?_, ?_⟩ <;> rw [longLiteral] <;> simp [hc]

/-- Strings in three single quotes, with no more than two of them in a row. -/
theorem longLiteral_append {cs rest : List Char} (hr : Stops (· == '\'') rest)
    (hp : ∀ c ∈ cs, isPlain c = true ∨ c = '\n') {current longest : ℕ}
    (h : longestRun '\'' current longest cs ≤ 2) :
    longLiteral (cs ++ '\'' :: '\'' :: '\'' :: rest) = some (cs, rest) := by
  induction cs generalizing current longest with
  | nil => exact (longLiteral_closing hr).1
  | cons c cs ih =>
    have hrest := fun c hc => hp c (List.mem_cons_of_mem _ hc)
    rw [longestRun] at h
    split at h
    · rename_i hc
      subst hc
      by_cases hend : cs = [] ∨ cs = ['\'']
      · rcases hend with rfl | rfl
        · exact (longLiteral_closing hr).2.1
        · exact (longLiteral_closing hr).2.2
      · rw [List.cons_append, longLiteral_quote, ih hrest h]
        · rfl
        · intro more he
          obtain ⟨c, cs, rfl⟩ := List.exists_cons_of_ne_nil fun h => hend (Or.inl h)
          rw [List.cons_append, List.cons.injEq] at he
          obtain ⟨rfl, he⟩ := he
          have hne : cs ≠ [] := fun h => hend (Or.inr (by rw [h]))
          obtain ⟨d, cs, rfl⟩ := List.exists_cons_of_ne_nil hne
          obtain rfl : d = '\'' := (List.cons.inj he).1
          -- This would be the third of a row.
          have hle := (le_longestRun '\'' (current + 1 + 1 + 1) longest cs).1
          simp only [longestRun, if_true] at h
          omega
    · rename_i hc
      rw [List.cons_append, longLiteral_other (hp c List.mem_cons_self) (Ne.symm hc), ih hrest h]
      rfl

/-- The text cannot go on with a quote. -/
def Unquoted (rest : List Char) : Prop := Stops (fun c => c == '"' || c == '\'') rest

theorem string_double {cs : List Char} (h : ∀ more, cs ≠ '"' :: '"' :: more) :
    string ('"' :: cs) = (basicString cs).map fun (s, rest) => (String.ofList s, rest) := by
  rw [string]
  exact h

theorem string_single {cs : List Char} (h : ∀ more, cs ≠ '\'' :: '\'' :: more) :
    string ('\'' :: cs) = (literalString cs).map fun (s, rest) => (String.ofList s, rest) := by
  rw [string]
  exact h

theorem string_basicChars (cs : List Char) {rest : List Char} (hr : Unquoted rest) :
    string (basicChars cs ++ rest) = some (String.ofList cs, rest) := by
  have hopen : ∀ more, escapeFrom false 0 cs ++ '"' :: rest ≠ '"' :: '"' :: more := by
    intro more
    cases cs with
    | nil =>
      rintro he
      obtain rfl : rest = '"' :: more := (List.cons.inj he).2
      simpa using hr '"' (by simp)
    | cons c cs => exact escapeFrom_ne_quote (by simp) cs _ _
  rw [basicChars, List.cons_append, List.cons_append, List.append_assoc, List.singleton_append,
    string_double hopen, basicString_escapeFrom]
  rfl

theorem string_literal {cs rest : List Char} (h : ∀ c ∈ cs, isPlain c = true ∧ c ≠ '\'')
    (hr : Unquoted rest) :
    string ('\'' :: cs ++ ['\''] ++ rest) = some (String.ofList cs, rest) := by
  have hopen : ∀ more, cs ++ '\'' :: rest ≠ '\'' :: '\'' :: more := by
    intro more he
    cases cs with
    | nil =>
      obtain rfl : rest = '\'' :: more := (List.cons.inj he).2
      simpa using hr '\'' (by simp)
    | cons c cs => exact (h c List.mem_cons_self).2 (List.cons.inj he).1
  rw [List.cons_append, List.cons_append, List.append_assoc, List.singleton_append,
    string_single hopen, literalString_append h]
  rfl

def isLineBreak (c : Char) : Bool := c == '\n' || c == '\r'

theorem dropLineBreak_of_stops {cs : List Char} (h : Stops isLineBreak cs) :
    dropLineBreak cs = cs := by
  cases cs with
  | nil => rfl
  | cons c cs =>
    have hc : isLineBreak c = false := h c (by simp)
    rw [dropLineBreak]
    all_goals
      rintro _ he
      cases he
      cases hc

/-- The line break after the opening quotes is dropped, and there is one where the string could begin
with one of its own. -/
theorem dropLineBreak_longChars {cs content : List Char}
    (h : '\n' ∉ cs → Stops isLineBreak content) :
    dropLineBreak ((if cs.contains '\n' then ['\n'] else []) ++ content) = content := by
  split
  · rfl
  · rename_i hline
    exact dropLineBreak_of_stops (h (by simpa using hline))

theorem string_longBasic (cs : List Char) {rest : List Char} (hr : Unquoted rest) :
    string (longChars '"' cs (escapeFrom true 0 cs) ++ rest) = some (String.ofList cs, rest) := by
  have hread := longBasic_escapeFrom cs (hr.mono (by simp +contextual)) 0
  have hstart : '\n' ∉ cs → Stops isLineBreak (escapeFrom true 0 cs ++ '"' :: '"' :: '"' :: rest) := by
    intro hline
    cases cs with
    | nil => simp [Stops, isLineBreak, escapeFrom]
    | cons c cs =>
      by_cases hq : c = '"'
      · subst hq
        simp [Stops, isLineBreak, escapeFrom]
      · obtain ⟨d, ds, hd, -, hcr, hlf⟩ := exists_escaped_eq true c
        have hlf := hlf (by rintro rfl; simp at hline)
        rw [escapeFrom_cons (fun h => absurd h hq), hd]
        simp [Stops, isLineBreak, hcr, hlf]
  rw [← dropLineBreak_longChars hstart] at hread
  simp only [longChars, List.append_assoc, List.cons_append, List.nil_append, string, hread]
  rfl

theorem string_longLiteral {cs rest : List Char} (hp : ∀ c ∈ cs, isPlain c = true ∨ c = '\n')
    (h : longestRun '\'' 0 0 cs ≤ 2) (hr : Unquoted rest) :
    string (longChars '\'' cs cs ++ rest) = some (String.ofList cs, rest) := by
  have hread := longLiteral_append (hr.mono (by simp +contextual)) hp h
  have hstart : '\n' ∉ cs → Stops isLineBreak (cs ++ '\'' :: '\'' :: '\'' :: rest) := by
    intro hline
    cases cs with
    | nil => simp [Stops, isLineBreak]
    | cons c cs =>
      have hlf : c ≠ '\n' := by
        rintro rfl
        simp at hline
      have hcr : c ≠ '\r' := by
        rintro rfl
        exact absurd (hp '\r' List.mem_cons_self) (by decide)
      simp [Stops, isLineBreak, hcr, hlf]
  rw [← dropLineBreak_longChars hstart] at hread
  simp only [longChars, List.append_assoc, List.cons_append, List.nil_append, string, hread]
  rfl

theorem isPlain_of_not_needsEscape {cs : List Char} (h : cs.any needsEscape = false) :
    ∀ c ∈ cs, isPlain c = true ∨ c = '\n' := by
  intro c hc
  have hn : needsEscape c = false := by
    simpa using List.any_eq_false.mp h c hc
  by_cases hlf : c = '\n'
  · exact Or.inr hlf
  · left
    simp only [needsEscape, isPlain] at hn ⊢
    cases hcontrol : isControl c <;> simp_all

/-- A string of any characters is read back in whatever kind it is written. -/
theorem string_stringChars (cs : List Char) {rest : List Char} (hr : Unquoted rest) :
    string (stringChars cs ++ rest) = some (String.ofList cs, rest) := by
  unfold stringChars
  simp only
  split
  · exact string_basicChars cs hr
  · split
    · rename_i h
      simp only [Bool.and_eq_true, Bool.not_eq_true', decide_eq_true_eq] at h
      obtain ⟨⟨hidden, hsingle⟩, hline⟩ := h
      refine string_literal (fun c hc => ?_) hr
      have hlf : c ≠ '\n' := by
        rintro rfl
        simp [hc] at hline
      have hq : c ≠ '\'' := by
        rintro rfl
        exact not_mem_of_longestRun hsingle hc
      exact ⟨(isPlain_of_not_needsEscape hidden c hc).resolve_right hlf, hq⟩
    · split
      · exact string_longBasic cs hr
      · split
        · rename_i h
          simp only [Bool.and_eq_true, Bool.not_eq_true', decide_eq_true_eq] at h
          exact string_longLiteral (isPlain_of_not_needsEscape h.1) h.2 hr
        · split
          · exact string_longBasic cs hr
          · exact string_basicChars cs hr

end DependencyAudit.Toml
