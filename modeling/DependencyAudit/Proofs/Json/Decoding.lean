import DependencyAudit.Json.Decoder
import DependencyAudit.Proofs.Json.Reading
import DependencyAudit.Proofs.Text.Digits

/-! Decoders of values that were put together by the writers of the same types. -/
namespace DependencyAudit

theorem exists_of_bind {ε α β : Type} {x : Except ε α} {f : α → Except ε β} {b : β}
    (h : x >>= f = .ok b) : ∃ a, x = .ok a ∧ f a = .ok b := by
  cases x with
  | error e => cases h
  | ok a => exact ⟨a, rfl, h⟩

@[simp] theorem RawString.read_ofString (s : String) : (RawString.ofString s).read = .ok s := by
  simp [RawString.read]

namespace Items

theorem isClean_ofList {js : List Json} (h : ∀ j ∈ js, j.IsClean) : (ofList js).IsClean := by
  induction js with
  | nil => trivial
  | cons j js ih =>
    exact ⟨h j List.mem_cons_self, ih fun j hj => h j (List.mem_cons_of_mem _ hj)⟩

end Items

namespace Members

theorem isClean_ofList {fields : List (String × Json)} (h : ∀ x ∈ fields, x.2.IsClean) :
    (ofList fields).IsClean := by
  induction fields with
  | nil => trivial
  | cons x fields ih =>
    exact ⟨⟨x.1, rfl⟩, h x List.mem_cons_self, ih fun x hx => h x (List.mem_cons_of_mem _ hx)⟩

end Members

namespace Json

theorem isClean_ofString (s : String) : (ofString s).IsClean := ⟨s, rfl⟩

theorem isClean_record {fields : List (String × Json)} (h : ∀ x ∈ fields, x.2.IsClean) :
    (record fields).IsClean :=
  Members.isClean_ofList h

theorem isClean_ofList {js : List Json} (h : ∀ j ∈ js, j.IsClean) : (ofList js).IsClean :=
  Items.isClean_ofList h

theorem mem_optional {name : String} {j : Option Json} {x : String × Json}
    (h : x ∈ optional name j) : j = some x.2 := by
  cases j with
  | none => simp [optional] at h
  | some j =>
    obtain rfl : x = (name, j) := by simpa [optional] using h
    rfl

end Json

namespace Decimal.Numeral

theorem isWritten_ofNat (n : ℕ) : (ofNat n).IsWritten where
  whole_ne_nil := Text.decimal_ne_nil n
  whole_digits _ h := Text.isDigit_of_mem_decimal h
  whole_head h := by
    rw [Text.eq_zero_of_head?_decimal h]
    rfl
  fraction_digits _ h := by simp [ofNat] at h
  exponent _ h := by simp [ofNat] at h

@[simp] theorem amount_ofNat {n : ℕ} (h : n < Text.numberLimit) :
    (ofNat n).amount = .natural n := by
  simp [amount, ofNat, h]

end Decimal.Numeral

namespace Decoder

variable {α : Type}

/-- A clean value is decoded as it was before it was written. -/
theorem decode_compact (d : Decoder α) {j : Json} (h : j.IsClean) :
    d.decode j.compact = d greatestDepth j := by
  simp only [decode, Json.Reader.document_compact h]
  cases d greatestDepth j <;> rfl

theorem exists_of_decode {d : Decoder α} {text : String} {x : α} (h : d.decode text = .ok x) :
    ∃ j, d greatestDepth j = .ok x := by
  unfold decode at h
  dsimp only at h
  split at h
  · cases h
  · rename_i hd
    split at h
    · cases h
    · cases h
      exact ⟨_, hd⟩

@[simp] theorem string_ofString (depth : Depth) (s : String) :
    string depth (.ofString s) = .ok s := by
  simp [string, Json.ofString]

theorem natural_ofNat (expected : String) (depth : Depth) {n : ℕ} (h : n < Text.numberLimit) :
    natural expected depth (.ofNat n) = .ok n := by
  simp [natural, Json.ofNat, h]

theorem items_ofList {d : Decoder α} {depth : Depth} {toJson : α → Json} {xs : List α}
    (h : ∀ x ∈ xs, d depth (toJson x) = .ok x) :
    items d depth (.ofList (xs.map toJson)) = .ok xs := by
  induction xs with
  | nil => rfl
  | cons x xs ih =>
    have hx := h x List.mem_cons_self
    have hxs := ih fun x hx => h x (List.mem_cons_of_mem _ hx)
    simp only [List.map_cons, Items.ofList, items, hx, hxs]
    rfl

theorem list_ofList {d : Decoder α} {depth : Depth} {toJson : α → Json} {xs : List α}
    (h : ∀ x ∈ xs, d depth (toJson x) = .ok x) :
    list d (depth + 1) (.ofList (xs.map toJson)) = .ok xs :=
  items_ofList h

theorem pairs_ofList {d : Decoder α} {depth : Depth} {toJson : α → Json}
    {xs : List (String × α)} (h : ∀ x ∈ xs, d depth (toJson x.2) = .ok x.2) :
    pairs d depth (.ofList (xs.map fun x => (x.1, toJson x.2))) = .ok xs := by
  induction xs with
  | nil => rfl
  | cons x xs ih =>
    have hx := h x List.mem_cons_self
    have hxs := ih fun x hx => h x (List.mem_cons_of_mem _ hx)
    simp only [List.map_cons, Members.ofList, pairs, RawString.read_ofString, hx, hxs]
    rfl

theorem dictionary_record {d : Decoder α} {depth : Depth} {toJson : α → Json}
    {xs : List (String × α)} (h : ∀ x ∈ xs, d depth (toJson x.2) = .ok x.2) :
    dictionary d (depth + 1) (.record (xs.map fun x => (x.1, toJson x.2))) = .ok xs :=
  pairs_ofList h

/-! What every field keeps holds of a record that is decoded. -/
section Invariant

variable {ρ : Type} {P : ρ → Prop} {fields : List (Field ρ)} {depth : Depth} {r r' : ρ}

def Field.Keeps (field : Field ρ) (P : ρ → Prop) : Prop :=
  ∀ depth j r r', P r → field.put depth j r = .ok r' → P r'

theorem Field.keeps_required {d : Decoder α} {set : α → ρ → ρ} {name : String}
    (h : ∀ depth j x r, P r → d depth j = .ok x → P (set x r)) :
    (Decoder.required name d set).Keeps P := by
  intro depth j r r' hr he
  cases hd : d depth j with
  | error e => simp [Decoder.required, hd, Except.map] at he
  | ok x =>
    obtain rfl : set x r = r' := by simpa [Decoder.required, hd, Except.map] using he
    exact h depth j x r hr hd

theorem Field.keeps_defaulted {d : Decoder α} {set : α → ρ → ρ} {name : String}
    (h : ∀ depth j x r, P r → d depth j = .ok x → P (set x r)) : (defaulted name d set).Keeps P :=
  @Field.keeps_required _ _ _ _ _ name h

theorem of_members (hput : ∀ field ∈ fields, field.Keeps P) :
    ∀ (ms : Members) (seen : List String) {seen' : List String} {r : ρ}, P r →
      members fields depth seen r ms = .ok (seen', r') → P r'
  | .closed, _, _, r, hr, h => by
    cases h
    exact hr
  | .flawed _, _, _, _, _, h => by cases h
  | .member key value rest, seen, seen', r, hr, h => by
    obtain ⟨k, -, h⟩ := exists_of_bind h
    split at h
    · rename_i field hfind
      split at h
      · cases h
      · obtain ⟨r₁, h₁, h⟩ := exists_of_bind h
        have hr₁ := hput field (List.mem_of_find?_eq_some hfind) _ _ _ _ hr h₁
        exact of_members hput rest _ hr₁ h
    · split at h
      · cases h
      · exact of_members hput rest _ hr h

theorem of_sequence (label : String) (hput : ∀ field ∈ fields, field.Keeps P) (count : ℕ)
    (is : Items) (hr : P r) (h : sequence label count depth r fields is = .ok r') : P r' := by
  induction fields generalizing count r is with
  | nil => cases is <;> cases h; exact hr
  | cons field fields ih =>
    have hrest : ∀ f ∈ fields, f.Keeps P := fun f hf => hput f (List.mem_cons_of_mem _ hf)
    cases is with
    | closed =>
      simp only [sequence] at h
      split at h
      · cases h
      · exact ih hrest _ _ hr h
    | flawed f => cases h
    | item head rest =>
      obtain ⟨r₁, h₁, h⟩ := exists_of_bind h
      exact ih hrest _ _ (hput field List.mem_cons_self _ _ _ _ hr h₁) h

theorem of_record {label : String} {blank : ρ} {j : Json}
    (hput : ∀ field ∈ fields, field.Keeps P) (hblank : P blank)
    (h : record label fields blank depth j = .ok r') : P r' := by
  unfold record at h
  split at h
  · cases h
  · cases h
  · obtain ⟨⟨seen, r⟩, hm, h⟩ := exists_of_bind h
    dsimp only at h
    split at h
    · cases h
    · cases h
      exact of_members hput _ _ hblank hm
  · exact of_sequence _ hput _ _ hblank h
  · obtain ⟨_, -, h⟩ := exists_of_bind h
    cases h

end Invariant

theorem of_pairs {d : Decoder α} {depth : Depth} {P : α → Prop}
    (hd : ∀ depth j x, d depth j = .ok x → P x) :
    ∀ (ms : Members) {xs : List (String × α)}, pairs d depth ms = .ok xs → ∀ x ∈ xs, P x.2
  | .closed, _, h, x, hx => by
    cases h
    simp at hx
  | .flawed _, _, h, _, _ => by cases h
  | .member key value rest, xs, h, x, hx => by
    obtain ⟨k, -, h⟩ := exists_of_bind h
    obtain ⟨y, hy, h⟩ := exists_of_bind h
    obtain ⟨ys, hys, h⟩ := exists_of_bind h
    cases h
    rcases List.mem_cons.mp hx with rfl | hx
    · exact hd _ _ _ hy
    · exact of_pairs hd rest hys x hx

theorem of_dictionary {d : Decoder α} {depth : Depth} {P : α → Prop}
    (hd : ∀ depth j x, d depth j = .ok x → P x) {j : Json} {xs : List (String × α)}
    (h : dictionary d depth j = .ok xs) : ∀ x ∈ xs, P x.2 := by
  unfold dictionary at h
  split at h
  · cases h
  · exact of_pairs hd _ h
  · obtain ⟨_, -, h⟩ := exists_of_bind h
    cases h

end Decoder
end DependencyAudit
