import DependencyAudit.Cache.Store

/-! What a store holds under its keys, and how commits change it. -/
namespace DependencyAudit

/-- The entry of the last pair with the key. -/
def lastUnder (key : String) : List (String × Entry) → Option Entry
  | [] => none
  | (k, e) :: rest => (lastUnder key rest).or (if k = key then some e else none)

theorem lastUnder_append (key : String) (xs ys : List (String × Entry)) :
    lastUnder key (xs ++ ys) = (lastUnder key ys).or (lastUnder key xs) := by
  induction xs with
  | nil => simp [lastUnder]
  | cons x xs ih => simp [lastUnder, ih, Option.or_assoc]

theorem lastUnder_eq_none_iff {key : String} {xs : List (String × Entry)} :
    lastUnder key xs = none ↔ ∀ x ∈ xs, x.1 ≠ key := by
  induction xs with
  | nil => simp [lastUnder]
  | cons x xs ih => simp [lastUnder, ih, and_comm]

/-- Where every key stands once, the last pair with a key is the only one. -/
theorem lastUnder_of_mem {key : String} {xs : List (String × Entry)} {e : Entry}
    (hn : (xs.map (·.1)).Nodup) (h : (key, e) ∈ xs) : lastUnder key xs = some e := by
  induction xs with
  | nil => simp at h
  | cons x xs ih =>
    rw [List.map_cons, List.nodup_cons] at hn
    rcases List.mem_cons.mp h with rfl | h
    · have hk : lastUnder key xs = none := lastUnder_eq_none_iff.mpr fun x hx he =>
        hn.1 (List.mem_map.mpr ⟨x, hx, he⟩)
      simp [lastUnder, hk]
    · simp [lastUnder, ih hn.2 h]

theorem mem_of_lastUnder {key : String} {xs : List (String × Entry)} {e : Entry}
    (h : lastUnder key xs = some e) : (key, e) ∈ xs := by
  induction xs with
  | nil => cases h
  | cons x xs ih =>
    rw [lastUnder, Option.or_eq_some_iff] at h
    rcases h with h | ⟨-, h⟩
    · exact List.mem_cons_of_mem _ (ih h)
    · split at h
      · rename_i hk
        cases h
        exact hk ▸ List.mem_cons_self
      · cases h

namespace Entries

theorem get?_putAll (es : Entries) (pairs : List (String × Entry)) (key : String) :
    (es.putAll pairs).get? key = (lastUnder key pairs).or (es.get? key) := by
  induction pairs generalizing es with
  | nil => simp [putAll, lastUnder]
  | cons x pairs ih =>
    obtain ⟨k, e⟩ := x
    have h := ih (es.put k e)
    simp only [putAll, List.foldl_cons] at h ⊢
    rw [h, get?_put, lastUnder, Option.or_assoc]
    split <;> simp

@[simp] theorem get?_empty (key : String) : empty.get? key = none := rfl

theorem lastUnder_filterMap (f : String → Option Entry) (keys : List String) (key : String) :
    lastUnder key (keys.filterMap fun k => (f k).map (k, ·)) =
      if key ∈ keys then f key else none := by
  induction keys with
  | nil => simp [lastUnder]
  | cons k keys ih =>
    by_cases hk : k = key
    · subst hk
      cases hf : f k with
      | none => simp [ih, hf]
      | some e => by_cases hm : k ∈ keys <;> simp [lastUnder, ih, hf, hm]
    · have hk' : key ≠ k := fun e => hk e.symm
      cases hf : f k <;> simp [lastUnder, ih, hf, hk, hk']

theorem get?_getMany (es : Entries) (lifetime : Lifetime) (now : Timestamp) (keys : List String)
    (key : String) : (es.getMany lifetime now keys).get? key =
      if key ∈ keys then es.getLive? lifetime now key else none := by
  rw [getMany, get?_putAll, lastUnder_filterMap]
  simp

theorem getLive?_remove (es : Entries) (lifetime : Lifetime) (now : Timestamp) (k key : String) :
    (es.remove k).getLive? lifetime now key =
      if key = k then none else es.getLive? lifetime now key := by
  by_cases hk : key = k
  · subst hk
    have hfind : (es.pairs.filter (·.1 != key)).find? (·.1 == key) = none := by
      rw [List.find?_eq_none]
      intro x hx
      simpa using (List.mem_filter.mp hx).2
    simp [getLive?, get?, remove, hfind]
  · have hfind : (es.pairs.filter (·.1 != k)).find? (·.1 == key) = es.pairs.find? (·.1 == key) := by
      rw [List.find?_filter]
      congr 1
      funext x
      by_cases hx : x.1 = key <;> simp [hx, hk]
    simp [getLive?, get?, remove, hfind, hk]

/-- A key that stands twice is found where it stands first, and then no more. -/
theorem lastUnder_takeLive (es : Entries) (lifetime : Lifetime) (now : Timestamp)
    (keys : List String) (key : String) :
    lastUnder key (takeLive lifetime now es keys) =
      if key ∈ keys then es.getLive? lifetime now key else none := by
  induction keys generalizing es with
  | nil => rfl
  | cons k keys ih =>
    have ih := ih (es.remove k)
    rw [getLive?_remove] at ih
    by_cases hk : key = k
    · subst hk
      cases he : es.getLive? lifetime now key <;> simp [takeLive, lastUnder, he, ih]
    · have hk' : k ≠ key := fun e => hk e.symm
      cases he : es.getLive? lifetime now k <;> simp [takeLive, lastUnder, he, ih, hk, hk']

theorem get?_takeMany (es : Entries) (lifetime : Lifetime) (now : Timestamp) (keys : List String)
    (key : String) : (es.takeMany lifetime now keys).get? key =
      if key ∈ keys then es.getLive? lifetime now key else none := by
  rw [takeMany, get?_putAll, lastUnder_takeLive]
  simp

end Entries

/-- `after` is `before` with the last entries of a batch over it, except for entries that may have
been dropped. -/
def Overlays (drops : Entry → Prop) (batch : List (String × Entry))
    (before after : String → Option Entry) : Prop :=
  ∀ key, after key = (lastUnder key batch).or (before key) ∨
    (after key = none ∧ ∃ e, (lastUnder key batch).or (before key) = some e ∧ drops e)

namespace Overlays

variable {drops drops' : Entry → Prop} {batch batch' : List (String × Entry)}
  {c c' c'' : String → Option Entry}

theorem refl (drops : Entry → Prop) (c : String → Option Entry) : Overlays drops [] c c := by
  intro key
  exact Or.inl (by simp [lastUnder])

theorem mono (h : Overlays drops batch c c') (hd : ∀ e, drops e → drops' e) :
    Overlays drops' batch c c' := by
  intro key
  rcases h key with hk | ⟨hn, e, he, hde⟩
  · exact Or.inl hk
  · exact Or.inr ⟨hn, e, he, hd e hde⟩

/-- What the second batch does not touch is as the first one left it. -/
theorem trans (h : Overlays drops batch c c') (h' : Overlays drops batch' c' c'') :
    Overlays drops (batch ++ batch') c c'' := by
  intro key
  rw [lastUnder_append, Option.or_assoc]
  rcases h' key with hk' | ⟨hn, e, he, hd⟩
  · cases hl : lastUnder key batch' with
    | some e => exact Or.inl (by simp [hk', hl])
    | none => simpa [hk', hl] using h key
  · refine Or.inr ⟨hn, e, ?_, hd⟩
    cases hl : lastUnder key batch' with
    | some x => simpa [hl] using he
    | none =>
      have hc : c' key = some e := by simpa [hl] using he
      rcases h key with hk | ⟨hk, _⟩
      · simpa [hk] using hc
      · simp [hk] at hc

/-- Where nothing can be dropped the overlay is exact. -/
theorem eq_of_keeps (h : Overlays drops batch c c') {key : String}
    (hk : ∀ e, (lastUnder key batch).or (c key) = some e → ¬drops e) :
    c' key = (lastUnder key batch).or (c key) := by
  rcases h key with h | ⟨_, e, he, hd⟩
  · exact h
  · exact absurd hd (hk e he)

end Overlays

namespace Store

variable {σ : Type}

/-- What a store holds and when an entry is live. A commit puts all of its batch over the rest, or
fails and leaves all as it was; it may drop entries that are not live. -/
structure View (store : Store σ) where
  content : σ → String → Option Entry
  isLive : Timestamp → Entry → Bool
  drops : Timestamp → Entry → Prop
  not_live_of_drops : ∀ {now e}, drops now e → isLive now e = false
  get?_fetch : ∀ {now keys s found}, store.fetch now keys s = .ok found →
    ∀ key ∈ keys, found.get? key = (content s key).filter (isLive now)
  overlays_commit : ∀ {now batch s s'}, now.IsValid → (∀ x ∈ batch, x.2.createdAt.IsValid) →
    store.commit now batch s = (.ok (), s') → Overlays (drops now) batch (content s) (content s')
  content_of_error : ∀ {now batch s e s'}, now.IsValid → (∀ x ∈ batch, x.2.createdAt.IsValid) →
    store.commit now batch s = (.error e, s') → content s' = content s

/-- The state after some commits. -/
def after (store : Store σ) : List (Timestamp × List (String × Entry)) → σ → σ
  | [], s => s
  | (now, batch) :: rest, s => after store rest (store.commit now batch s).2

/-- Every commit succeeds from a state on. -/
def Accepts (store : Store σ) (s : σ) : Prop :=
  ∀ before now batch, (store.commit now batch (store.after before s)).1 = .ok ()

/-- Every read succeeds from a state on. -/
def Reads (store : Store σ) (s : σ) : Prop :=
  ∀ before now keys, ∃ found, store.fetch now keys (store.after before s) = .ok found

theorem Reads.fetch {store : Store σ} {s : σ} (h : store.Reads s) (now : Timestamp)
    (keys : List String) : ∃ found, store.fetch now keys s = .ok found :=
  h [] now keys

theorem Reads.commit {store : Store σ} {s : σ} (h : store.Reads s) {now : Timestamp}
    {batch : List (String × Entry)} {outcome : Except CommitFailure Unit} {s' : σ}
    (hc : store.commit now batch s = (outcome, s')) : store.Reads s' := by
  intro before now' keys
  have h := h ((now, batch) :: before) now' keys
  rwa [after, hc] at h

theorem Accepts.commit {store : Store σ} {s : σ} (h : store.Accepts s) (now : Timestamp)
    (batch : List (String × Entry)) :
    ∃ s', store.commit now batch s = (.ok (), s') ∧ store.Accepts s' := by
  refine ⟨(store.commit now batch s).2, Prod.ext (h [] now batch) rfl, ?_⟩
  intro before now' batch'
  exact h ((now, batch) :: before) now' batch'

/-- Every read of a state succeeds. -/
def Readable (store : Store σ) (s : σ) : Prop :=
  ∀ now keys, ∃ found, store.fetch now keys s = .ok found

/-- Reads of a state succeed always or never, and they do before and after a commit that wrote
something. -/
structure Rereads (store : Store σ) (P : σ → Prop) : Prop where
  readable_of_fetch : ∀ {now keys s found}, store.fetch now keys s = .ok found → store.Readable s
  commit_nil : ∀ now s, store.commit now [] s = (.ok (), s)
  of_commit : ∀ {now batch s s'}, P s → batch ≠ [] → store.commit now batch s = (.ok (), s') →
    store.Readable s ∧ store.Readable s' ∧ P s'

end Store

namespace Entries

theorem getLive?_eq (es : Entries) (lifetime : Lifetime) (now : Timestamp) (key : String) :
    es.getLive? lifetime now key = (es.get? key).filter fun e => !e.isExpired lifetime now := rfl

end Entries

/-- A store in memory forgets nothing by itself. -/
def memoryView (lifetime : Lifetime) : (memoryStore lifetime).View where
  content es key := es.get? key
  isLive now e := !e.isExpired lifetime now
  drops _ _ := False
  not_live_of_drops h := h.elim
  get?_fetch := by
    intro now keys es found h key hk
    cases h
    rw [Entries.get?_getMany, if_pos hk, Entries.getLive?_eq]
  overlays_commit := by
    intro now batch es es' _ _ h
    cases h
    intro key
    exact Or.inl (Entries.get?_putAll es batch key)
  content_of_error := by
    intro now batch es e es' _ _ h
    cases h

theorem accepts_memoryStore (lifetime : Lifetime) (es : Entries) :
    (memoryStore lifetime).Accepts es := fun _ _ _ => rfl

theorem rereads_memoryStore (lifetime : Lifetime) :
    (memoryStore lifetime).Rereads fun _ => True where
  readable_of_fetch _ _ _ := ⟨_, rfl⟩
  commit_nil _ _ := rfl
  of_commit _ _ _ := ⟨fun _ _ => ⟨_, rfl⟩, fun _ _ => ⟨_, rfl⟩, trivial⟩

theorem reads_memoryStore (lifetime : Lifetime) (es : Entries) :
    (memoryStore lifetime).Reads es := fun _ _ _ => ⟨_, rfl⟩

end DependencyAudit
