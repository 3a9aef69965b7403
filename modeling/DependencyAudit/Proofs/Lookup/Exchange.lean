import DependencyAudit.Proofs.Cache.View
import DependencyAudit.Proofs.Lookup.Assignment
import DependencyAudit.Lookup.Run

/-! The batches of a run one after another: how far they come, and what stops them. -/
namespace DependencyAudit

/-- All packages that a run asks for, in order. -/
def RunRecord.requested {α : Type} (r : RunRecord α) : List String :=
  r.requests.flatMap (·.coordinates)

namespace Lookup

variable {σ τ : Type} (l : Lookup) (store : Store σ) (transport : Transport τ) (clock : Clock)

/-- The batches of a run that starts with the store in a state. -/
def batches (now : Timestamp) (s : σ) : List Batch :=
  Batch.chunks l.batchSize (l.misses (l.cached store now s))

/-- The batches are answered and committed one after another, with these assignments; `index` counts
the batches before. -/
inductive Exchanged : ℕ → List Batch → List Assignment → σ → τ → σ → τ → Prop
  | done {index : ℕ} {s : σ} {t : τ} : Exchanged index [] [] s t s t
  | next {index : ℕ} {b : Batch} {bs : List Batch} {reports : List PackageReport}
    {founds : List Assignment} {s s' s'' : σ} {t t' t'' : τ} :
    transport.send (l.request b) t = (.ok reports, t') →
    store.commit (clock (index + 1)) (entries (clock (index + 1)) (b.assign reports)) s =
      (.ok (), s') →
    Exchanged (index + 1) bs founds s' t' s'' t'' →
    Exchanged index (b :: bs) (b.assign reports :: founds) s t s'' t''

/-- A batch is not answered, or its reports are not committed. -/
inductive Fails (now : Timestamp) (b : Batch) (s : σ) (t : τ) : AuditError → σ → τ → Prop
  | transport {e : TransportError} {t' : τ} :
    transport.send (l.request b) t = (.error e, t') → Fails now b s t (.transport e) s t'
  | commit {reports : List PackageReport} {e : CommitFailure} {s' : σ} {t' : τ} :
    transport.send (l.request b) t = (.ok reports, t') →
    store.commit now (entries now (b.assign reports)) s = (.error e, s') →
    Fails now b s t (.ofCommit e) s' t'

variable {l store transport clock}

/-- Either every batch is exchanged, or a first one fails and nothing is asked for after it. -/
theorem fetchAll_cases (l : Lookup) (store : Store σ) (transport : Transport τ) (clock : Clock)
    (index : ℕ) (bs : List Batch) (s : σ) (t : τ) :
    (∃ founds s' t', Exchanged l store transport clock index bs founds s t s' t' ∧
      l.fetchAll store transport clock index bs s t =
        (⟨bs.map l.request, .ok founds.flatten⟩, s', t')) ∨
    ∃ done b rest founds s₁ t₁ e s' t', bs = done ++ b :: rest ∧
      Exchanged l store transport clock index done founds s t s₁ t₁ ∧
      Fails l store transport (clock (index + done.length + 1)) b s₁ t₁ e s' t' ∧
      l.fetchAll store transport clock index bs s t =
        (⟨(done ++ [b]).map l.request, .error e⟩, s', t') := by
  induction bs generalizing index s t with
  | nil => exact Or.inl ⟨[], s, t, .done, rfl⟩
  | cons b bs ih =>
    cases hsend : transport.send (l.request b) t with
    | mk answer t₁ =>
      cases answer with
      | error e =>
        refine Or.inr ⟨[], b, bs, [], s, t, .transport e, s, t₁, rfl, .done, .transport hsend, ?_⟩
        simp [fetchAll, hsend]
      | ok reports =>
        cases hcommit : store.commit (clock (index + 1))
            (entries (clock (index + 1)) (b.assign reports)) s with
        | mk outcome s₁ =>
          cases outcome with
          | error e =>
            refine Or.inr ⟨[], b, bs, [], s, t, .ofCommit e, s₁, t₁, rfl, .done,
              .commit hsend hcommit, ?_⟩
            simp [fetchAll, hsend, hcommit]
          | ok =>
            rcases ih (index + 1) s₁ t₁ with ⟨founds, s', t', hx, hf⟩ |
              ⟨done, b', rest, founds, s₂, t₂, e, s', t', rfl, hx, hfail, hf⟩
            · refine Or.inl ⟨_, s', t', .next hsend hcommit hx, ?_⟩
              simp [fetchAll, hsend, hcommit, hf, Except.map]
            · have hi : index + (b :: done).length = index + 1 + done.length := by
                simp only [List.length_cons]
                omega
              refine Or.inr ⟨b :: done, b', rest, _, s₂, t₂, e, s', t', rfl,
                .next hsend hcommit hx, by rwa [hi], ?_⟩
              simp [fetchAll, hsend, hcommit, hf, Except.map]

theorem gather_cases (l : Lookup) (store : Store σ) (transport : Transport τ) (clock : Clock) (s : σ)
    (t : τ) :
    (∃ founds s' t',
      Exchanged l store transport clock 0 (l.batches store (clock 0) s) founds s t s' t' ∧
      l.gather store transport clock s t = (⟨(l.batches store (clock 0) s).map l.request,
        .ok (l.cached store (clock 0) s ++ founds.flatten)⟩, s', t')) ∨
    ∃ done b rest founds s₁ t₁ e s' t', l.batches store (clock 0) s = done ++ b :: rest ∧
      Exchanged l store transport clock 0 done founds s t s₁ t₁ ∧
      Fails l store transport (clock (done.length + 1)) b s₁ t₁ e s' t' ∧
      l.gather store transport clock s t = (⟨(done ++ [b]).map l.request, .error e⟩, s', t') := by
  have hg : l.gather store transport clock s t =
      let r := l.fetchAll store transport clock 0 (l.batches store (clock 0) s) s t
      (⟨r.1.requests, r.1.result.map (l.cached store (clock 0) s ++ ·)⟩, r.2) := rfl
  rcases fetchAll_cases l store transport clock 0 (l.batches store (clock 0) s) s t with
    ⟨founds, s', t', hx, hf⟩ | ⟨done, b, rest, founds, s₁, t₁, e, s', t', hb, hx, hfail, hf⟩
  · exact Or.inl ⟨founds, s', t', hx, by rw [hg, hf]; rfl⟩
  · rw [Nat.zero_add] at hfail
    exact Or.inr ⟨done, b, rest, founds, s₁, t₁, e, s', t', hb, hx, hfail, by rw [hg, hf]; rfl⟩

/-- A run exchanges all of its batches, or it stops at the first one that fails. -/
theorem run_cases (l : Lookup) (store : Store σ) (transport : Transport τ) (clock : Clock) (s : σ)
    (t : τ) :
    (∃ founds s' t',
      Exchanged l store transport clock 0 (l.batches store (clock 0) s) founds s t s' t' ∧
      l.run store transport clock s t =
        (⟨(l.batches store (clock 0) s).map l.request, .ok (l.registrations.map
          (l.answer (l.cached store (clock 0) s ++ founds.flatten)))⟩, s', t')) ∨
    ∃ done b rest founds s₁ t₁ e s' t', l.batches store (clock 0) s = done ++ b :: rest ∧
      Exchanged l store transport clock 0 done founds s t s₁ t₁ ∧
      Fails l store transport (clock (done.length + 1)) b s₁ t₁ e s' t' ∧
      l.run store transport clock s t = (⟨(done ++ [b]).map l.request, .error e⟩, s', t') := by
  rcases gather_cases l store transport clock s t with
    ⟨founds, s', t', hx, hg⟩ | ⟨done, b, rest, founds, s₁, t₁, e, s', t', hb, hx, hfail, hg⟩
  · exact Or.inl ⟨founds, s', t', hx, by rw [run, hg]; rfl⟩
  · exact Or.inr ⟨done, b, rest, founds, s₁, t₁, e, s', t', hb, hx, hfail, by rw [run, hg]; rfl⟩

/-- What the commits of the assignments write, in order. -/
def written (clock : Clock) (index : ℕ) : List Assignment → List (String × Entry)
  | [] => []
  | found :: founds => entries (clock (index + 1)) found ++ written clock (index + 1) founds

theorem mem_entries {now : Timestamp} {found : Assignment} {key : String} {e : Entry} :
    (key, e) ∈ entries now found ↔ ∃ p, (key, p) ∈ found ∧ e = .ofReport p now := by
  simp only [entries, List.mem_map, Prod.mk.injEq]
  constructor
  · rintro ⟨⟨k, p⟩, hm, rfl, rfl⟩
    exact ⟨p, hm, rfl⟩
  · rintro ⟨p, hm, rfl⟩
    exact ⟨(key, p), hm, rfl, rfl⟩

/-- Every pair that is written holds a whole report and the time of the commit of its batch. -/
theorem mem_written {index : ℕ} {founds : List Assignment} {key : String} {e : Entry} :
    (key, e) ∈ written clock index founds ↔
      ∃ i found p, founds[i]? = some found ∧ (key, p) ∈ found ∧
        e = .ofReport p (clock (index + i + 1)) := by
  induction founds generalizing index with
  | nil => simp [written]
  | cons found founds ih =>
    rw [written, List.mem_append, mem_entries, ih]
    constructor
    · rintro (⟨p, hm, he⟩ | ⟨i, found', p, hf, hm, he⟩)
      · exact ⟨0, found, p, rfl, hm, he⟩
      · have hi : index + (i + 1) + 1 = index + 1 + i + 1 := by omega
        exact ⟨i + 1, found', p, by simpa using hf, hm, by rwa [hi]⟩
    · rintro ⟨i, found', p, hf, hm, he⟩
      cases i with
      | zero =>
        obtain rfl : found = found' := by simpa using hf
        exact Or.inl ⟨p, hm, he⟩
      | succ i =>
        have hi : index + (i + 1) + 1 = index + 1 + i + 1 := by omega
        exact Or.inr ⟨i, found', p, by simpa using hf, hm, by rwa [← hi]⟩

/-- What is written stands under the keys of the assignments. -/
theorem map_fst_written (clock : Clock) (index : ℕ) (founds : List Assignment) :
    (written clock index founds).map (·.1) = founds.flatten.map (·.1) := by
  induction founds generalizing index with
  | nil => rfl
  | cons found founds ih =>
    rw [written, List.map_append, ih, List.flatten_cons, List.map_append]
    simp [entries]

namespace Exchanged

variable {index : ℕ} {bs : List Batch} {founds : List Assignment} {s s' : σ} {t t' : τ}

theorem length_eq (h : Exchanged l store transport clock index bs founds s t s' t') :
    founds.length = bs.length := by
  induction h with
  | done => rfl
  | next _ _ _ ih => simp [ih]

/-- Only keys of exchanged batches are written. -/
theorem key_of_mem (h : Exchanged l store transport clock index bs founds s t s' t')
    {x : String × PackageReport} (hx : x ∈ founds.flatten) : ∃ r ∈ bs.flatten, r.key = x.1 := by
  induction h with
  | done => simp at hx
  | next hsend hcommit hx' ih =>
    rw [List.flatten_cons, List.mem_append] at hx
    rcases hx with hx | hx
    · obtain ⟨r, hr, hk⟩ := Batch.key_mem_assign hx
      exact ⟨r, by simp [hr], hk⟩
    · obtain ⟨r, hr, hk⟩ := ih hx
      exact ⟨r, by simp [hr], hk⟩

/-- What every commit keeps the batches keep. -/
theorem keeps {P : σ → Prop}
    (hP : ∀ {now batch s outcome s'}, store.commit now batch s = (outcome, s') → P s → P s')
    (h : Exchanged l store transport clock index bs founds s t s' t') (hs : P s) : P s' := by
  induction h with
  | done => exact hs
  | next _ hcommit _ ih => exact ih (hP hcommit hs)

theorem reads (h : Exchanged l store transport clock index bs founds s t s' t')
    (hs : store.Reads s) : store.Reads s' :=
  h.keeps (fun hcommit hs => hs.commit hcommit) hs

theorem nodup_keys (h : Exchanged l store transport clock index bs founds s t s' t')
    (hn : (bs.flatten.map (·.key)).Nodup) : (founds.flatten.map (·.1)).Nodup := by
  induction h with
  | done => simp
  | next hsend hcommit hx ih =>
    rw [List.flatten_cons, List.map_append, List.nodup_append] at hn ⊢
    refine ⟨Batch.nodup_keys_assign hn.1 _, ih hn.2.1, ?_⟩
    intro a ha c hc
    obtain ⟨x, hxm, rfl⟩ := List.mem_map.mp ha
    obtain ⟨y, hym, rfl⟩ := List.mem_map.mp hc
    obtain ⟨r, hr, hrk⟩ := Batch.key_mem_assign hxm
    obtain ⟨r', hr', hrk'⟩ := hx.key_of_mem hym
    rw [← hrk, ← hrk']
    exact hn.2.2 _ (List.mem_map.mpr ⟨r, hr, rfl⟩) _ (List.mem_map.mpr ⟨r', hr', rfl⟩)

/-- The commits put what is written over what the store held. -/
theorem overlays (v : store.View) (hclock : ∀ i, (clock i).IsValid)
    (h : Exchanged l store transport clock index bs founds s t s' t') :
    Overlays (fun e => ∃ i < founds.length, v.drops (clock (index + i + 1)) e)
      (written clock index founds) (v.content s) (v.content s') := by
  induction h with
  | done => exact Overlays.refl _ _
  | @next index _ _ _ founds _ _ _ _ _ _ hsend hcommit hx ih =>
    have hb := v.overlays_commit (hclock _) ?_ hcommit
    · rw [written]
      refine (hb.mono ?_).trans (ih.mono ?_)
      · intro e he
        exact ⟨0, by simp, he⟩
      · rintro e ⟨i, hi, he⟩
        have hj : index + (i + 1) + 1 = index + 1 + i + 1 := by omega
        exact ⟨i + 1, by simpa using hi, by rwa [hj]⟩
    · rintro ⟨key, e⟩ hm
      obtain ⟨p, _, rfl⟩ := mem_entries.mp hm
      exact hclock _

end Exchanged

namespace Fails

variable {now : Timestamp} {b : Batch} {s s' : σ} {t t' : τ} {e : AuditError}

theorem keeps {P : σ → Prop}
    (hP : ∀ {now batch s outcome s'}, store.commit now batch s = (outcome, s') → P s → P s')
    (h : Fails l store transport now b s t e s' t') (hs : P s) : P s' := by
  cases h with
  | transport _ => exact hs
  | commit _ hcommit => exact hP hcommit hs

theorem reads (h : Fails l store transport now b s t e s' t') (hs : store.Reads s) :
    store.Reads s' :=
  h.keeps (fun hcommit hs => hs.commit hcommit) hs

/-- A batch that fails leaves the store as it was. -/
theorem content_eq (v : store.View) (hnow : now.IsValid)
    (h : Fails l store transport now b s t e s' t') : v.content s' = v.content s := by
  cases h with
  | transport _ => rfl
  | commit _ hcommit =>
    refine v.content_of_error hnow ?_ hcommit
    rintro ⟨key, x⟩ hm
    obtain ⟨p, _, rfl⟩ := mem_entries.mp hm
    exact hnow

end Fails

/-- What every commit keeps a run keeps. -/
theorem keeps_run {P : σ → Prop}
    (hP : ∀ {now batch s outcome s'}, store.commit now batch s = (outcome, s') → P s → P s') {s : σ}
    (hs : P s) (t : τ) : P (l.run store transport clock s t).2.1 := by
  rcases run_cases l store transport clock s t with ⟨founds, s', t', hx, hr⟩ |
    ⟨done, b, rest, founds, s₁, t₁, e, s', t', -, hx, hfail, hr⟩
  · rw [hr]
    exact hx.keeps hP hs
  · rw [hr]
    exact hfail.keeps hP (hx.keeps hP hs)

theorem requested_map_request {α : Type} (bs : List Batch) (result : Except AuditError α) :
    (RunRecord.mk (bs.map l.request) result).requested = bs.flatten.map (·.target.purl) := by
  rw [RunRecord.requested, List.flatMap_map, List.map_flatten, List.flatMap_def]
  rfl

theorem flatten_batches (l : Lookup) (store : Store σ) (now : Timestamp) (s : σ) :
    (l.batches store now s).flatten = l.misses (l.cached store now s) :=
  Batch.flatten_chunks _ _

/-- A run asks for the packages that are not cached, in order; when it fails, for the first of
them. -/
theorem requested_run (l : Lookup) (store : Store σ) (transport : Transport τ) (clock : Clock)
    (s : σ) (t : τ) :
    let r := (l.run store transport clock s t).1
    let wanted := (l.misses (l.cached store (clock 0) s)).map (·.target.purl)
    r.requested <+: wanted ∧ (∀ ps, r.result = .ok ps → r.requested = wanted) := by
  rw [← flatten_batches]
  rcases run_cases l store transport clock s t with ⟨founds, s', t', _, hr⟩ |
    ⟨done, b, rest, founds, s₁, t₁, e, s', t', hb, _, _, hr⟩
  · simp only [hr, requested_map_request]
    exact ⟨List.prefix_refl _, fun _ _ => trivial⟩
  · simp only [hr, requested_map_request, hb]
    refine ⟨List.IsPrefix.map _ ⟨rest.flatten, by simp⟩, ?_⟩
    intro ps h
    cases h

end Lookup
end DependencyAudit
