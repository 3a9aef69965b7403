import DependencyAudit.Proofs.Toml.Values

/-! A document that is written line by line is read back as the tables that its lines make up. -/
namespace DependencyAudit.Toml

/-- The text is read as the value, whatever stands after it. -/
structure IsText (n : Node) (text : List Char) : Prop where
  stops : ∀ rest, Stops isGap (text ++ rest)
  value_append : ∀ rest, Closes rest → ∀ fuel, text.length + 2 ≤ fuel → ∀ depth,
    value fuel (depth + 1) (text ++ rest) = some (n, rest)

theorem isText_stringChars (s : String) : IsText (.string s) (stringChars s.toList) where
  stops rest := (stops_stringChars s.toList rest).mono (by simp +contextual [isSkipped])
  value_append rest hr fuel hf depth := by
    obtain ⟨fuel, rfl⟩ : ∃ n, fuel = n + 1 := ⟨fuel - 1, by omega⟩
    exact value_stringChars s hr fuel (depth + 1)

theorem isText_boolChars (b : Bool) : IsText (.bool b) (boolChars b) where
  stops rest := by cases b <;> simp [Stops, boolChars, isGap]
  value_append rest _ fuel hf depth := by
    obtain ⟨fuel, rfl⟩ : ∃ n, fuel = n + 1 := ⟨fuel - 1, by omega⟩
    exact value_boolChars b fuel (depth + 1) rest

theorem isText_decimal {n : ℕ} (hn : (n : Int) ≤ greatestInteger) :
    IsText (.integer n) (Text.decimal n) where
  stops rest := by
    obtain ⟨d, ds, hds, hdigit, -⟩ := exists_decimal_eq n
    simp [hds, Stops, isGap, ne_of_isDigit hdigit]
  value_append rest hr fuel hf depth := by
    obtain ⟨fuel, rfl⟩ : ∃ n, fuel = n + 1 := ⟨fuel - 1, by omega⟩
    exact value_decimal hn hr fuel (depth + 1)

theorem length_lt_arrayChars (items : List (List Char)) : items.length < (arrayChars items).length := by
  have hlines : items.length ≤ (itemLines items).length := by
    induction items with
    | nil => simp
    | cons item items ih =>
      simp only [itemLines, List.flatMap_cons, List.length_append, List.length_cons] at ih ⊢
      omega
  rcases items with - | ⟨item, - | ⟨item', items⟩⟩
  · simp [arrayChars]
  · simp [arrayChars]
  · rw [itemLines] at hlines
    simp only [arrayChars, List.length_append, List.length_cons] at hlines ⊢
    omega

theorem isText_arrayChars (values : List String) :
    IsText (.array (values.map .string)) (arrayChars (values.map fun s => stringChars s.toList)) where
  stops rest := by
    match values with
    | [] => simp [Stops, arrayChars, isGap]
    | [s] => simp [Stops, arrayChars, isGap]
    | s :: s' :: values => simp [Stops, arrayChars, isGap]
  value_append rest _ fuel hf depth := by
    have hlength := length_lt_arrayChars (values.map fun s => stringChars s.toList)
    rw [List.length_map] at hlength
    exact value_arrayChars values rest (by omega) depth

/-- A name that stands without quotes. -/
structure IsName (name : List Char) : Prop where
  ne_nil : name ≠ []
  bare : ∀ c ∈ name, isBare c = true

/-- Text that nothing can be skipped in, with a character that belongs to a name. -/
theorem IsName.stops {name : List Char} (hn : IsName name) {p : Char → Bool}
    (hp : ∀ c, isBare c = true → p c = false) (rest : List Char) : Stops p (name ++ rest) := by
  obtain ⟨c, cs, rfl⟩ := List.exists_cons_of_ne_nil hn.ne_nil
  simpa [Stops] using hp c (hn.bare c List.mem_cons_self)

theorem IsName.append_ne {name : List Char} (hn : IsName name) {c : Char} (hc : isBare c = false)
    (rest cs : List Char) : name ++ rest ≠ c :: cs := by
  obtain ⟨d, ds, rfl⟩ := List.exists_cons_of_ne_nil hn.ne_nil
  intro he
  obtain rfl : d = c := (List.cons.inj he).1
  rw [hn.bare d List.mem_cons_self] at hc
  cases hc

theorem isSkipped_of_isBare (c : Char) (h : isBare c = true) : isSkipped c = false := by
  by_contra hs
  simp only [isSkipped, isGap, Bool.not_eq_false, Bool.or_eq_true, beq_iff_eq] at hs
  rcases hs with (((rfl | rfl) | rfl) | rfl) | rfl <;> cases h

theorem simpleKey_append {name rest : List Char} (hn : IsName name) (hs : Stops isBare rest) :
    simpleKey (name ++ rest) = some (String.ofList name, rest) := by
  have htake := takeWhile_append_of_stops hn.bare hs
  have hdrop := dropWhile_append_of_stops hn.bare hs
  have hempty : name.isEmpty = false := by simpa using hn.ne_nil
  rw [simpleKey]
  · simp [htake, hdrop, hempty]
  · exact hn.append_ne rfl rest
  · exact hn.append_ne rfl rest

theorem key_append {name rest : List Char} (hn : IsName name) (hs : Stops isBare rest)
    (hp : Stops (· == '.') (skipGaps rest)) :
    key (name ++ rest) = some ([String.ofList name], skipGaps rest) := by
  have hgap : Stops isGap (name ++ rest) :=
    hn.stops (fun c hc => by
      have := isSkipped_of_isBare c hc
      simp_all [isSkipped]) rest
  rw [key, depthLimit, dottedKey, skipGaps_of_stops hgap, simpleKey_append hn hs]
  simp only [Option.bind_eq_bind, Option.bind_some]
  split
  · rename_i he
    rw [he] at hp
    simpa using hp '.' (by simp)
  · rfl

theorem lineEnd_line (cs : List Char) : lineEnd ('\n' :: cs) = some cs := rfl

theorem pairLine_pairChars {name text : List Char} {n : Node} (hn : IsName name)
    (ht : IsText n text) (rest : List Char) :
    pairLine (pairChars name text ++ rest) = some (.pair ([String.ofList name], n), rest) := by
  have htext : pairChars name text ++ rest = name ++ ' ' :: '=' :: ' ' :: (text ++ '\n' :: rest) := by
    simp [pairChars]
  have hkey : key (name ++ ' ' :: '=' :: ' ' :: (text ++ '\n' :: rest)) =
      some ([String.ofList name], '=' :: ' ' :: (text ++ '\n' :: rest)) :=
    key_append hn (by simp [Stops, isBare]) (by simp [Stops, skipGaps, isGap])
  have hgap : skipGaps (' ' :: (text ++ '\n' :: rest)) = text ++ '\n' :: rest :=
    skipGaps_of_stops (ht.stops _)
  have hvalue := ht.value_append ('\n' :: rest) (by simp [Closes])
    (2 * (' ' :: (text ++ '\n' :: rest)).length + 2) (by simp; omega) 78
  rw [htext, pairLine, hkey]
  simp only [Option.bind_eq_bind, Option.bind_some]
  rw [show skipGaps ('=' :: ' ' :: (text ++ '\n' :: rest)) = '=' :: ' ' :: (text ++ '\n' :: rest) from
    rfl]
  simp only [hgap, depthLimit, hvalue, Option.bind_some, lineEnd_line]
  rfl

theorem headerLine_tableHeader {name : List Char} (hn : IsName name) (rest : List Char) :
    headerLine ('[' :: (name ++ ']' :: '\n' :: rest)) =
      some (.header [String.ofList name] false, rest) := by
  have hkey : key (name ++ ']' :: '\n' :: rest) =
      some ([String.ofList name], ']' :: '\n' :: rest) :=
    key_append hn (by simp [Stops, isBare]) (by simp [Stops, skipGaps, isGap])
  rw [headerLine, hkey]
  · rfl
  · exact hn.append_ne rfl _

theorem headerLine_elementHeader {name : List Char} (hn : IsName name) (rest : List Char) :
    headerLine ('[' :: '[' :: (name ++ ']' :: ']' :: '\n' :: rest)) =
      some (.header [String.ofList name] true, rest) := by
  have hkey : key (name ++ ']' :: ']' :: '\n' :: rest) =
      some ([String.ofList name], ']' :: ']' :: '\n' :: rest) :=
    key_append hn (by simp [Stops, isBare]) (by simp [Stops, skipGaps, isGap])
  rw [headerLine, hkey]
  rfl

/-- An empty line, and then a header. -/
theorem lines_header {cs rest : List Char} {l : Line} {ls : List Line} {fuel : ℕ}
    (hheader : headerLine ('[' :: cs) = some (l, rest)) (hrest : lines fuel rest = some ls) :
    lines (fuel + 1) ('\n' :: '[' :: cs) = some (l :: ls) := by
  rw [lines, skipLines_line, List.length_cons, skipLines_of_stops (by simp [Stops, isSkipped, isGap])]
  simp only [Option.bind_eq_bind, Option.bind_some, hheader, hrest]
  rfl

/-- Lines and what is written for them. -/
inductive Spells : List Char → List Line → Prop
  | nil : Spells [] []
  | pair {name text rest : List Char} {n : Node} {ls : List Line} :
    IsName name → IsText n text → Spells rest ls →
    Spells (pairChars name text ++ rest) (.pair ([String.ofList name], n) :: ls)
  | table {name rest : List Char} {ls : List Line} :
    IsName name → Spells rest ls →
    Spells (tableHeader name ++ rest) (.header [String.ofList name] false :: ls)
  | element {name rest : List Char} {ls : List Line} :
    IsName name → Spells rest ls →
    Spells (elementHeader name ++ rest) (.header [String.ofList name] true :: ls)

namespace Spells

variable {text text' : List Char} {ls ls' : List Line}

theorem append (h : Spells text ls) (h' : Spells text' ls') : Spells (text ++ text') (ls ++ ls') := by
  induction h with
  | nil => exact h'
  | pair hn ht _ ih =>
    rw [List.append_assoc]
    exact .pair hn ht ih
  | table hn _ ih =>
    rw [List.append_assoc]
    exact .table hn ih
  | element hn _ ih =>
    rw [List.append_assoc]
    exact .element hn ih

theorem lines_eq (h : Spells text ls) {fuel : ℕ} (hf : text.length < fuel) :
    lines fuel text = some ls := by
  induction h generalizing fuel with
  | nil =>
    obtain ⟨fuel, rfl⟩ : ∃ n, fuel = n + 1 := ⟨fuel - 1, by omega⟩
    rfl
  | @pair name text rest n ls hn ht _ ih =>
    obtain ⟨fuel, rfl⟩ : ∃ n, fuel = n + 1 := ⟨fuel - 1, by omega⟩
    have hline := pairLine_pairChars hn ht rest
    have hstart : Stops isSkipped (pairChars name text ++ rest) := by
      rw [pairChars, List.append_assoc, List.append_assoc, List.append_assoc]
      exact hn.stops isSkipped_of_isBare _
    have hbracket : ∀ cs, pairChars name text ++ rest ≠ '[' :: cs := by
      rw [pairChars, List.append_assoc, List.append_assoc, List.append_assoc]
      exact hn.append_ne rfl _
    have hrest : lines fuel rest = some ls := by
      simp only [pairChars, List.length_append, List.length_cons] at hf
      exact ih (by omega)
    rw [lines, skipLines_of_stops hstart]
    simp only [Option.bind_eq_bind, Option.bind_some]
    split
    · rename_i he
      simp [pairChars] at he
    · rename_i he
      exact absurd he (hbracket _)
    · simp only [hline, Option.bind_some, hrest]
      rfl
  | @table name rest ls hn _ ih =>
    obtain ⟨fuel, rfl⟩ : ∃ n, fuel = n + 1 := ⟨fuel - 1, by omega⟩
    have htext : tableHeader name ++ rest = '\n' :: '[' :: (name ++ ']' :: '\n' :: rest) := by
      simp [tableHeader]
    rw [htext] at hf ⊢
    simp only [List.length_cons, List.length_append] at hf
    exact lines_header (headerLine_tableHeader hn rest) (ih (by omega))
  | @element name rest ls hn _ ih =>
    obtain ⟨fuel, rfl⟩ : ∃ n, fuel = n + 1 := ⟨fuel - 1, by omega⟩
    have htext : elementHeader name ++ rest =
        '\n' :: '[' :: '[' :: (name ++ ']' :: ']' :: '\n' :: rest) := by
      simp [elementHeader]
    rw [htext] at hf ⊢
    simp only [List.length_cons, List.length_append] at hf
    exact lines_header (headerLine_elementHeader hn rest) (ih (by omega))

end Spells

end DependencyAudit.Toml
