import DependencyAudit.Proofs.Cache.FileSession

/-! Any number of handles on one file answer as one store in memory. -/
namespace DependencyAudit

open FileStore

/-- A store in memory holds what has been written to it. -/
theorem stateAfter_memoryStore (lifetime : Lifetime) (calls : List TimedCall) :
    (memoryStore lifetime).stateAfter calls .empty = Entries.empty.putAll (written calls) := by
  change calls.foldl _ (Entries.empty.putAll []) = _
  refine List.foldl_hom Entries.empty.putAll fun ps c => ?_
  cases hc : c.call <;>
    simp [Store.perform, memoryStore, StoreCall.writtenAfter, hc, Entries.putAll, List.foldl_append]

/-- A store in memory gives the last entry that was written under a key, while it is live. -/
theorem exists_reply_of_memoryStore {lifetime : Lifetime}
    {before after : List (TimedCall × StoreOutcome)} {c : TimedCall} {outcome : StoreOutcome}
    {key : String} (hc : c.call.AsksFor key)
    (h : (memoryStore lifetime).replies ((before ++ (c, outcome) :: after).map (·.1)) .empty =
      (before ++ (c, outcome) :: after).map (·.2)) :
    ∃ reply, outcome = .ok reply ∧ reply.under key =
      (lastUnder key (written (before.map (·.1)))).filter fun e => !e.isExpired lifetime c.now := by
  simp only [List.map_append, List.map_cons, Store.replies_append, stateAfter_memoryStore,
    Store.replies] at h
  have hrest := (List.append_inj h (by simp [Store.length_replies])).2
  rw [← (List.cons.inj hrest).1]
  obtain ⟨now, call⟩ := c
  cases call with
  | get k =>
    obtain rfl : k = key := hc
    exact ⟨_, rfl, by simp [StoreReply.under, Entries.getLive?, Entries.get?_putAll]⟩
  | getMany keys =>
    refine ⟨_, rfl, ?_⟩
    rw [StoreReply.under, Entries.get?_getMany, if_pos (show key ∈ keys from hc)]
    simp [Entries.getLive?, Entries.get?_putAll]
  | commit batch => exact hc.elim
  | clear => exact hc.elim

theorem held_of_empty {f : FileStore} {d : Disk} (h : d.at? f.route = .ok (.file .empty)) :
    f.held d = .empty := by
  have htext : String.fromUTF8? .empty = some "" := fromUTF8?_toUTF8 ""
  simp only [held, h, htext, Option.map_some, Option.getD_some]
  rfl

section

variable {path : String} {hours : ℕ} {d : Disk} {steps : List SessionStep}

theorem createdAt_isValid_of_mem_session
    (hb : ∀ c ∈ issued 0 steps, ∀ y ∈ c.call.batch, y.2.createdAt.IsValid) :
    ∀ x ∈ session path hours steps [] d, ∀ y ∈ x.1.call.batch, y.2.createdAt.IsValid :=
  fun x hx => hb x.1 ((session_sublist (Nat.le_refl 0)).subset (List.mem_map_of_mem hx))

/-- The calls on a file that starts empty, so far as they succeed. -/
theorem replies_of_empty (hd : d.at? (.ofText path) = .ok (.file .empty))
    (hb : ∀ c ∈ issued 0 steps, ∀ y ∈ c.call.batch, y.2.createdAt.IsValid) :
    (pruningStore (.ofHours hours)).replies
        (((session path hours steps [] d).filter (·.2.isOk)).map (·.1)) .empty =
      ((session path hours steps [] d).filter (·.2.isOk)).map (·.2) := by
  have htext : (opened path hours).HasText d := ⟨"", hd⟩
  have hheld : (opened path hours).held d = .empty := held_of_empty hd
  rw [← hheld]
  exact replies_session (List.forall_mem_nil _) htext (createdAt_isValid_of_mem_session hb)

/-- Where nothing stands in the way, these are all the calls. -/
theorem session_of_usable (hd : d.at? (.ofText path) = .ok (.file .empty))
    (hb : ∀ c ∈ issued 0 steps, ∀ y ∈ c.call.batch, y.2.createdAt.IsValid)
    (hu : (opened path hours).Usable d) :
    (session path hours steps [] d).map (·.1) = issued 0 steps ∧
      (session path hours steps [] d).filter (·.2.isOk) = session path hours steps [] d := by
  have htext : (opened path hours).HasText d := ⟨"", hd⟩
  obtain ⟨hcalls, hall⟩ := session_usable (List.forall_mem_nil _) htext hu
    (createdAt_isValid_of_mem_session hb)
  exact ⟨hcalls, List.filter_eq_self.mpr hall⟩

end

/-- On a file that starts empty, the calls that succeed through any number of handles have the
outcomes that one store in memory gives to them: each reader is given the entry that was written last
under its key through any handle, until it expires. Where nothing stands in the way, these are all
the calls. -/
theorem session_answers_as_memory (path : String) (hours : ℕ) (d : Disk) (steps : List SessionStep)
    (hd : d.at? (.ofText path) = .ok (.file .empty)) (ht : Timely (issued 0 steps)) :
    let log := session path hours steps [] d
    let done := log.filter (·.2.isOk)
    (memoryStore (.ofHours hours)).replies (done.map (·.1)) .empty = done.map (·.2) ∧
    (∀ before after c outcome key, done = before ++ (c, outcome) :: after → c.call.AsksFor key →
      ∃ reply, outcome = .ok reply ∧ reply.under key = (lastUnder key
        (written (before.map (·.1)))).filter fun e => !e.isExpired (.ofHours hours) c.now) ∧
    ((opened path hours).Usable d →
      log.map (·.2) = (memoryStore (.ofHours hours)).replies (issued 0 steps) .empty) := by
  intro log done
  have hsub : (log.map (·.1)).Sublist (issued 0 steps) := session_sublist (Nat.le_refl 0)
  have hdone : Timely (done.map (·.1)) := ht.sublist ((List.filter_sublist.map _).trans hsub)
  have hvalid : ∀ c ∈ issued 0 steps, ∀ y ∈ c.call.batch, y.2.createdAt.IsValid :=
    fun c hc y hy => (ht.created c hc y hy).1
  have hmemory : (memoryStore (.ofHours hours)).replies (done.map (·.1)) .empty = done.map (·.2) :=
    (replies_pruningStore_empty _ hdone).symm.trans (replies_of_empty hd hvalid)
  refine ⟨hmemory, fun before after c outcome key heq hc => ?_, fun hu => ?_⟩
  · rw [heq] at hmemory
    exact exists_reply_of_memoryStore hc hmemory
  · obtain ⟨hcalls, hall⟩ : log.map (·.1) = issued 0 steps ∧ done = log :=
      session_of_usable hd hvalid hu
    rw [hall, hcalls] at hmemory
    exact hmemory.symm

/-- One handle commits a key twice and an entry that soon expires, another drops that entry as it
commits, and a third is opened after all was cleared. -/
theorem session_answers_as_memory_three :
    let d : Disk := { Disk.empty with nodes := [(["c"], .file .empty)] }
    let day : Date := ⟨2020, 1, 1⟩
    let old : Entry := ⟨"old", ⟨day, 0, 0⟩⟩
    let first : Entry := ⟨"first", ⟨day, 3600, 0⟩⟩
    let last : Entry := ⟨"last", ⟨day, 3600, 0⟩⟩
    let steps : List SessionStep := [.opening, .opening,
      .calling 0 ⟨⟨day, 3600, 0⟩, .commit [("k", first), ("old", old), ("k", last)]⟩,
      .calling 1 ⟨⟨day, 3600, 0⟩, .getMany ["k", "old", "k"]⟩,
      .calling 1 ⟨⟨day, 3601, 0⟩, .commit [("m", last)]⟩,
      .calling 0 ⟨⟨day, 3602, 0⟩, .getMany ["m", "old", "k"]⟩,
      .calling 0 ⟨⟨day, 3603, 0⟩, .clear⟩, .opening,
      .calling 2 ⟨⟨day, 3604, 0⟩, .get "k"⟩]
    d.at? (.ofText "/c") = .ok (.file .empty) ∧ Timely (issued 0 steps) ∧ (opened "/c" 1).Usable d ∧
      (session "/c" 1 steps [] d).map (·.2) = [.ok .done, .ok (.entries ⟨[("k", last), ("old", old)]⟩),
        .ok .done, .ok (.entries ⟨[("k", last), ("m", last)]⟩), .ok .done, .ok (.entry none)] := by
  intro d day old first last steps
  have hd : d.at? (.ofText "/c") = .ok (.file .empty) := by decide +kernel
  have ht : Timely (issued 0 steps) := by decide +kernel
  have hu : (opened "/c" 1).Usable d := by decide +kernel
  exact ⟨hd, ht, hu, ((session_answers_as_memory "/c" 1 d steps hd ht).2.2 hu).trans
    (by decide +kernel)⟩

/-- Two sessions in which a reader is not given what a store in memory gives. In the first the entry
was made in a leap second at noon: its age shrinks by a second at midnight, so that it would be live
again after it has been dropped. In the second the commit fails, as a directory stands where the lock
should be. -/
theorem session_differs_from_memory :
    let file : List (Place × DiskNode) := [(["c"], .file .empty)]
    let d : Disk := { Disk.empty with nodes := file }
    let blocked : Disk := { Disk.empty with nodes := (["c.lock"], .directory) :: file }
    let day : Date := ⟨2020, 1, 1⟩
    let leap : Entry := ⟨"leap", ⟨day, 43199, 1500000000⟩⟩
    let other : Entry := ⟨"other", ⟨day, 43200, 0⟩⟩
    let steps : List SessionStep := [.opening,
      .calling 0 ⟨⟨day, 43200, 0⟩, .commit [("k", leap)]⟩,
      .calling 0 ⟨⟨day, 86399, 900000000⟩, .commit [("m", other)]⟩,
      .calling 0 ⟨⟨day.next, 0, 0⟩, .get "k"⟩]
    let steps' : List SessionStep := [.opening,
      .calling 0 ⟨⟨day, 43200, 0⟩, .commit [("k", other)]⟩,
      .calling 0 ⟨⟨day, 43201, 0⟩, .get "k"⟩]
    (d.at? (.ofText "/c") = .ok (.file .empty) ∧
      (issued 0 steps).Pairwise (fun c c' => c.now.instant ≤ c'.now.instant) ∧
      (∀ c ∈ issued 0 steps, ∀ x ∈ c.call.batch, x.2.createdAt.IsValid) ∧
      (session "/c" 12 steps [] d).map (·.2) = [.ok .done, .ok .done, .ok (.entry none)] ∧
      (memoryStore (.ofHours 12)).replies (issued 0 steps) .empty =
        [.ok .done, .ok .done, .ok (.entry (some leap))]) ∧
    blocked.at? (.ofText "/c") = .ok (.file .empty) ∧ Timely (issued 0 steps') ∧
      (session "/c" 12 steps' [] blocked).map (·.2) =
        [.error (.cache (.write "/c" 1 DiskFault.isDirectory.message)), .ok (.entry none)] ∧
      (memoryStore (.ofHours 12)).replies (issued 0 steps') .empty =
        [.ok .done, .ok (.entry (some other))] := by
  intro file d blocked day leap other steps steps'
  have hd : d.at? (.ofText "/c") = .ok (.file .empty) := by decide +kernel
  have hvalid : ∀ c ∈ issued 0 steps, ∀ x ∈ c.call.batch, x.2.createdAt.IsValid := by decide +kernel
  have hu : (opened "/c" 12).Usable d := by decide +kernel
  obtain ⟨hcalls, hall⟩ := session_of_usable hd hvalid hu
  have hreplies : (pruningStore (.ofHours 12)).replies _ .empty = _ := replies_of_empty hd hvalid
  rw [hall, hcalls] at hreplies
  have hpruned : (pruningStore (.ofHours 12)).replies (issued 0 steps) .empty =
      [.ok .done, .ok .done, .ok (.entry none)] := by decide +kernel
  exact ⟨⟨hd, by decide +kernel, hvalid, hreplies.symm.trans hpruned, by decide +kernel⟩,
    by decide +kernel⟩

end DependencyAudit
