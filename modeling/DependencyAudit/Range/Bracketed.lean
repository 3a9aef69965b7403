import DependencyAudit.Range.Fault
import DependencyAudit.Range.Interval

/-! Intervals in brackets: square where the bound belongs to the interval, round where not. -/
namespace DependencyAudit.Interval

def exactVersion (cs : List Char) : Except RangeFault Version :=
  match WrittenVersion.ofChars cs with
  | .error fault => .error (.version fault)
  | .ok w =>
    if w.wildcard then .error (.wildcardBound (String.ofList (Text.trim cs))) else .ok w.version

/-- A bound, missing where only blanks are written. -/
def bound? (cs : List Char) (inclusive : Bool) : Except RangeFault (Option Bound) :=
  if (Text.trim cs).isEmpty then .ok none
  else (exactVersion cs).map fun v => some ⟨v, inclusive⟩

/-- What stands between the brackets: a single version, or two bounds. -/
def ofBody (lowerInclusive upperInclusive : Bool) (body : List Char) :
    Except RangeFault Interval :=
  match Text.splitOnce? ',' body with
  | none =>
    if lowerInclusive && upperInclusive then (exactVersion body).map exactly
    else .error (.looseSingle (String.ofList body))
  | some (low, high) => do
    let lower ← bound? low lowerInclusive
    let upper ← bound? high upperInclusive
    return ⟨lower, upper⟩

def isClosing (c : Char) : Bool := c == ']' || c == ')'

/-- The rest of the list after one interval: blanks, at most one comma, blanks. -/
def dropSeparator (cs : List Char) : List Char :=
  match Text.trimStart cs with
  | ',' :: rest => Text.trimStart rest
  | rest => rest

theorem length_trimStart_le (cs : List Char) : (Text.trimStart cs).length ≤ cs.length :=
  (List.dropWhile_suffix _).length_le

theorem length_dropSeparator_le (cs : List Char) : (dropSeparator cs).length ≤ cs.length := by
  have h := length_trimStart_le cs
  unfold dropSeparator
  split
  · rename_i rest e
    have := length_trimStart_le rest
    rw [e] at h
    simp only [List.length_cons] at h
    omega
  · exact h

def opening? : List Char → Option (Bool × List Char)
  | '[' :: cs => some (true, cs)
  | '(' :: cs => some (false, cs)
  | _ => none

theorem length_of_opening? {cs rest : List Char} {b : Bool} (h : opening? cs = some (b, rest)) :
    cs.length = rest.length + 1 := by
  unfold opening? at h
  split at h <;> simp_all

/-- The intervals of a list that leave something, in order. -/
def ofBrackets (cs : List Char) : Except RangeFault (List Interval) :=
  if cs.isEmpty then .ok []
  else match ho : opening? cs with
    | none => .error (.missingBracket (String.ofList cs))
    | some (lowerInclusive, inner) =>
      match hc : inner.dropWhile (!isClosing ·) with
      | [] => .error .unterminated
      | close :: rest =>
        have : (dropSeparator rest).length < cs.length := by
          have h1 := length_of_opening? ho
          have h2 := (List.dropWhile_suffix (!isClosing ·) (l := inner)).length_le
          have h3 := length_dropSeparator_le rest
          rw [hc] at h2
          simp only [List.length_cons] at h2
          omega
        match ofBody lowerInclusive (close == ']') (inner.takeWhile (!isClosing ·)) with
        | .error fault => .error fault
        | .ok i =>
          (ofBrackets (dropSeparator rest)).map fun more => if i.crosses then more else i :: more
termination_by cs.length

end DependencyAudit.Interval
