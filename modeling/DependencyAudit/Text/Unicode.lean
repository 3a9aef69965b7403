/-! Text from bytes in UTF-8, where bytes that form no character are replaced. -/
namespace DependencyAudit.Text

/-- A character of which bytes are still missing: how many, the bounds of the next one, and the bits
of those before. -/
structure Partial where
  missing : Nat
  low : Nat
  high : Nat
  bits : Nat
deriving DecidableEq

def replacement : Char := '\ufffd'

/-- A first byte that announces further ones. -/
def announce? (b : Nat) : Option Partial :=
  if 0xC2 ≤ b && b ≤ 0xDF then some ⟨1, 0x80, 0xBF, b - 0xC0⟩
  else if 0xE0 ≤ b && b ≤ 0xEF then
    some ⟨2, if b = 0xE0 then 0xA0 else 0x80, if b = 0xED then 0x9F else 0xBF, b - 0xE0⟩
  else if 0xF0 ≤ b && b ≤ 0xF4 then
    some ⟨3, if b = 0xF0 then 0x90 else 0x80, if b = 0xF4 then 0x8F else 0xBF, b - 0xF0⟩
  else none

/-- The characters that a first byte gives at once, and the character that it begins. -/
def first (b : Nat) : List Char × Option Partial :=
  if b < 0x80 then ([Char.ofNat b], none)
  else match announce? b with
    | some p => ([], some p)
    | none => ([replacement], none)

/-- Each longest beginning of a character that does not go on as it should is replaced by one
replacement character. -/
def decodeFrom : Option Partial → List UInt8 → List Char
  | none, [] => []
  | some _, [] => [replacement]
  | none, b :: bs =>
    let (cs, p) := first b.toNat
    cs ++ decodeFrom p bs
  | some p, b :: bs =>
    let n := b.toNat
    if p.low ≤ n && n ≤ p.high then
      let bits := p.bits * 64 + (n - 0x80)
      if p.missing = 1 then Char.ofNat bits :: decodeFrom none bs
      else decodeFrom (some ⟨p.missing - 1, 0x80, 0xBF, bits⟩) bs
    else
      let (cs, p) := first n
      replacement :: cs ++ decodeFrom p bs

/-- A byte order mark at the start does not belong to the text. -/
def ofBytes (bytes : ByteArray) : String :=
  match bytes.toList with
  | 0xEF :: 0xBB :: 0xBF :: bs => String.ofList (decodeFrom none bs)
  | bs => String.ofList (decodeFrom none bs)

end DependencyAudit.Text
