/-! Cutting a text at separators. -/
namespace DependencyAudit.Text

/-- The text before and after the first `sep`. -/
def splitOnce? (sep : Char) : List Char → Option (List Char × List Char)
  | [] => none
  | c :: cs =>
    if c = sep then some ([], cs) else (splitOnce? sep cs).map fun (a, b) => (c :: a, b)

theorem eq_of_splitOnce? {sep : Char} {cs a b : List Char} (h : splitOnce? sep cs = some (a, b)) :
    cs = a ++ sep :: b ∧ sep ∉ a := by
  induction cs generalizing a with
  | nil => simp [splitOnce?] at h
  | cons c cs ih =>
    simp only [splitOnce?] at h
    split at h
    · simp_all
    · rename_i hc
      obtain ⟨⟨a', b'⟩, h', he⟩ := Option.map_eq_some_iff.1 h
      simp only [Prod.mk.injEq] at he
      obtain ⟨rfl, rfl⟩ := he
      obtain ⟨rfl, hm⟩ := ih h'
      simp only [List.cons_append, List.mem_cons, not_or, true_and]
      exact ⟨fun e => hc e.symm, hm⟩

/-- The text before and after the last `sep`. -/
def splitLast? (sep : Char) (cs : List Char) : Option (List Char × List Char) :=
  (splitOnce? sep cs.reverse).map fun (a, b) => (b.reverse, a.reverse)

/-- Every piece between characters that satisfy `p`, empty pieces included. -/
def pieces (p : Char → Bool) : List Char → List (List Char)
  | [] => [[]]
  | c :: cs =>
    if p c then [] :: pieces p cs
    else match pieces p cs with
      | [] => [[c]]
      | w :: ws => (c :: w) :: ws

theorem pieces_ne_nil (p : Char → Bool) (cs : List Char) : pieces p cs ≠ [] := by
  induction cs with
  | nil => simp [pieces]
  | cons c cs ih =>
    simp only [pieces]
    split
    · simp
    · split <;> simp

/-- The pieces that are not empty. -/
def words (p : Char → Bool) (cs : List Char) : List (List Char) :=
  (pieces p cs).filter (!·.isEmpty)

/-- The pieces joined by one `sep` each. -/
def joinWith (sep : Char) : List (List Char) → List Char
  | [] => []
  | [w] => w
  | w :: ws => w ++ sep :: joinWith sep ws

theorem joinWith_pieces (sep : Char) (cs : List Char) :
    joinWith sep (pieces (· == sep) cs) = cs := by
  induction cs with
  | nil => rfl
  | cons c cs ih =>
    simp only [pieces]
    split
    · rename_i h
      cases hp : pieces (· == sep) cs with
      | nil => exact absurd hp (pieces_ne_nil _ _)
      | cons w ws => simp_all [joinWith]
    · cases hp : pieces (· == sep) cs with
      | nil => exact absurd hp (pieces_ne_nil _ _)
      | cons w ws => cases ws <;> simp_all [joinWith]

/-- Whether `needle` stands somewhere in the text. -/
def occurs (needle : List Char) : List Char → Bool
  | [] => needle.isEmpty
  | c :: cs => needle.isPrefixOf (c :: cs) || occurs needle cs

theorem occurs_iff (needle cs : List Char) : occurs needle cs = true ↔ needle <:+: cs := by
  induction cs with
  | nil => simp [occurs]
  | cons c cs ih => simp [occurs, ih, List.infix_cons_iff]

/-- What follows the first place where `needle` stands. -/
def afterFirst? (needle : List Char) : List Char → Option (List Char)
  | [] => if needle.isEmpty then some [] else none
  | c :: cs =>
    if needle.isPrefixOf (c :: cs) then some ((c :: cs).drop needle.length)
    else afterFirst? needle cs

end DependencyAudit.Text
