import DependencyAudit.Coordinate.Basic

/-! Hashes of coordinates. The version is not hashed, so that all versions of a package fall into one
bucket. -/
namespace DependencyAudit

/-- What a hash is computed by: a state that takes in texts, and of each optional text first whether it
is there. -/
structure Hasher (σ : Type) where
  text : σ → String → σ
  isThere : σ → Bool → σ

def Hasher.optional {σ : Type} (h : Hasher σ) (s : σ) : Option String → σ
  | none => h.isThere s false
  | some t => h.text (h.isThere s true) t

def Coordinate.hash {σ : Type} (h : Hasher σ) (s : σ) (c : Coordinate) : σ :=
  h.text (h.optional (h.text s c.ecosystem) c.group) c.name

end DependencyAudit
