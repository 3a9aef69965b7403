import DependencyAudit.Proofs.Disk.Places

/-! Paths that differ in their last name only. What the shorter of two such names means is a place
wherever the longer one means a place. -/
namespace DependencyAudit

namespace Route

variable {absolute slash slash' : Bool} {names : List String} {name name' : String}

/-- A path that a file can have: neither empty nor ended by a slash. -/
structure NamesFile (r : Route) : Prop where
  slash : r.slash = false
  nonempty : r.names ≠ [] ∨ r.absolute = true

theorem slash_withEnding (r : Route) (ending : String) : (r.withEnding ending).slash = false := by
  obtain ⟨names, stem, hbeside, -⟩ := r.exists_stem
  rw [hbeside]

theorem isNameable_concat_iff : isNameable ⟨absolute, names ++ [name], slash⟩ = true ↔
    isNameable ⟨absolute, names, slash⟩ = true ∧ '\x00' ∉ name.toList := by
  simp [isNameable, List.all_append]

theorem byteSize_concat_le (h : name'.utf8ByteSize ≤ name.utf8ByteSize) :
    byteSize ⟨absolute, names ++ [name'], slash'⟩ ≤
      byteSize ⟨absolute, names ++ [name], slash⟩ := by
  simp only [byteSize, ← List.sum_eq_foldr, List.map_append, List.sum_append, List.map_cons,
    List.map_nil, List.sum_singleton]
  omega

theorem byteSize_le_concat :
    byteSize ⟨absolute, names, slash'⟩ ≤ byteSize ⟨absolute, names ++ [name], slash⟩ := by
  simp only [byteSize, ← List.sum_eq_foldr, List.map_append, List.sum_append]
  omega

end Route

namespace Disk

open Route

variable {d : Disk} {r : Route} {p : Place} {absolute slash slash' : Bool} {names : List String}
  {name name' : String}

/-- The empty path means no place, though it can be walked. -/
theorem place_eq_ok_iff : d.place r = .ok p ↔
    check r = .ok () ∧ (r.names ≠ [] ∨ r.absolute = true ∨ r.slash = true) ∧
      d.walk (d.start r) r.names = .ok p := by
  simp only [place, bind, Except.bind]
  cases check r with
  | error fault => simp
  | ok _ =>
    dsimp only
    split
    · rename_i hempty
      simp only [Bool.and_eq_true, List.isEmpty_iff, Bool.not_eq_true'] at hempty
      simp [hempty, throw, throwThe, MonadExceptOf.throw]
    · rename_i hempty
      simp only [Bool.and_eq_true, List.isEmpty_iff, Bool.not_eq_true'] at hempty
      have hsome : r.names ≠ [] ∨ r.absolute = true ∨ r.slash = true := by grind
      simp [hsome]

/-- A name that is no longer than another can stand in its place. -/
theorem exists_place_of_le (h : d.place ⟨absolute, names ++ [name], slash⟩ = .ok p)
    (hsize : name'.utf8ByteSize ≤ name.utf8ByteSize)
    (hzero : '\x00' ∈ name'.toList → '\x00' ∈ name.toList) :
    ∃ q, d.place ⟨absolute, names ++ [name'], slash'⟩ = .ok q := by
  obtain ⟨hcheck, -, hwalk⟩ := place_eq_ok_iff.mp h
  rw [check_eq_ok_iff, isNameable_concat_iff] at hcheck
  obtain ⟨m, hm, hlast⟩ := walk_append_eq_ok.mp hwalk
  obtain ⟨hd, hlong, -⟩ := walk_cons_eq_ok.mp hlast
  have hlong' : isTooLong name' = false := by
    simp only [isTooLong, decide_eq_false_iff_not] at hlong ⊢
    omega
  refine ⟨step m name', place_eq_ok_iff.mpr ⟨check_eq_ok_iff.mpr ⟨?_, ?_⟩, by simp, ?_⟩⟩
  · exact isNameable_concat_iff.mpr ⟨hcheck.1.1, mt hzero hcheck.1.2⟩
  · exact Nat.le_trans (byteSize_concat_le hsize) hcheck.2
  · exact walk_append_eq_ok.mpr ⟨m, hm, walk_cons_eq_ok.mpr ⟨hd, hlong', rfl⟩⟩

/-- What a name stands in is a place itself. -/
theorem exists_place_of_concat (h : d.place ⟨absolute, names ++ [name], slash⟩ = .ok p)
    (hsome : names ≠ [] ∨ absolute = true) :
    ∃ q, d.place ⟨absolute, names, slash'⟩ = .ok q := by
  obtain ⟨hcheck, -, hwalk⟩ := place_eq_ok_iff.mp h
  rw [check_eq_ok_iff, isNameable_concat_iff] at hcheck
  obtain ⟨m, hm, -⟩ := walk_append_eq_ok.mp hwalk
  refine ⟨m, place_eq_ok_iff.mpr ⟨check_eq_ok_iff.mpr ⟨hcheck.1.1, ?_⟩, ?_, hm⟩⟩
  · exact Nat.le_trans byteSize_le_concat hcheck.2
  · exact hsome.imp_right Or.inl

/-- A path beside another means a place if one with a longer ending does. -/
theorem exists_place_withEnding {ending ending' : String}
    (h : d.place (r.withEnding ending) = .ok p)
    (hsize : ending'.utf8ByteSize ≤ ending.utf8ByteSize) (hzero : '\x00' ∉ ending'.toList) :
    ∃ q, d.place (r.withEnding ending') = .ok q := by
  obtain ⟨names, stem, hbeside, -⟩ := r.exists_stem
  rw [hbeside] at h ⊢
  refine exists_place_of_le h (by simpa using hsize) ?_
  rw [String.toList_append, String.toList_append, List.mem_append, List.mem_append]
  exact Or.imp_right fun hm => absurd hm hzero

/-- A path of a file means a place if one beside it does. -/
theorem exists_place_of_withEnding {ending : String} (h : d.place (r.withEnding ending) = .ok p)
    (hr : r.NamesFile) : ∃ q, d.place r = .ok q := by
  obtain ⟨names, stem, hbeside, hstem⟩ := r.exists_stem
  rw [hbeside] at h
  obtain ⟨absolute, _, slash⟩ := r
  obtain ⟨rfl, -⟩ | ⟨rfl, -⟩ := hstem
  · refine exists_place_of_le h (by simp) fun hm => ?_
    rw [String.toList_append]
    exact List.mem_append_left _ hm
  · exact exists_place_of_concat h hr.nonempty

/-! Whether an operation succeeds is decided by the directories and by what is refused and locked. -/
section Operations

variable {d' : Disk} {s : Route} {o : Place} {content : ByteArray}

theorem namesFile_of_openFile (h : d.openFile r = .ok (d', p)) : r.NamesFile := by
  obtain ⟨q, hq, -⟩ := exists_of_bind h
  have hs := slash_of_openFile h
  refine ⟨hs, ?_⟩
  simpa [hs] using (place_eq_ok_iff.mp hq).2.1

theorem openFile_eq (hs : r.slash = false) (hp : d.place r = .ok p) :
    d.openFile r = (d.allows .openFile p).bind fun _ =>
      if d.node? p = some .directory then .error .isDirectory
      else .ok (if d.node? p = none then d.put p (.file .empty) else d, p) := by
  simp only [openFile, hp, hs, bind, Except.bind]
  cases d.allows .openFile p with
  | error fault => rfl
  | ok _ =>
    cases d.node? p with
    | none => rfl
    | some node => cases node <;> rfl

theorem write_eq (hs : r.slash = false) (hp : d.place r = .ok p) :
    d.write r content = (d.allows .write p).bind fun _ =>
      if d.node? p = some .directory then .error .isDirectory
      else .ok (d.put p (.file content)) := by
  simp only [write, hp, hs, bind, Except.bind]
  cases d.allows .write p with
  | error fault => rfl
  | ok _ =>
    cases d.node? p with
    | none => rfl
    | some node => cases node <;> rfl

theorem rename_eq (ho : d.place s = .ok o) (hn : d.node? o = some (.file content))
    (hp : d.place r = .ok p) :
    d.rename s r = (d.allows .rename p).bind fun _ =>
      if d.node? p = some .directory then .error .isDirectory
      else .ok ((d.remove o).put p (.file content)) := by
  simp only [rename, ho, hp, hn, bind, Except.bind]
  cases d.allows .rename p with
  | error fault => rfl
  | ok _ =>
    cases d.node? p with
    | none => rfl
    | some node => cases node <;> rfl

theorem SameSetting.symm (h : SameSetting d d') : SameSetting d' d where
  start_eq := h.start_eq.symm
  directory_iff p := (h.directory_iff p).symm
  refused_eq := h.refused_eq.symm
  locks_eq := h.locks_eq.symm

theorem sameSetting_opened (hn : d.node? p ≠ some .directory) :
    SameSetting d (if d.node? p = none then d.put p (.file .empty) else d) := by
  split
  · exact SameSetting.put_file hn _
  · exact SameSetting.refl d

/-- What a lock comes to once its file is open. -/
theorem lock_fst_of_openFile (h : d.openFile r = .ok (d', p)) :
    (d.lock r).1 = (d'.allows .lock p).bind fun _ =>
      match d'.locks.find? (·.1 == p) with
      | some (_, remaining) => if remaining < lockWait then .ok () else .error .locked
      | none => .ok () := by
  simp only [lock, h]
  cases d'.allows .lock p with
  | error fault => rfl
  | ok _ =>
    simp only [Except.bind]
    cases d'.locks.find? (·.1 == p) <;> rfl

namespace SameSetting

theorem exists_place (h : SameSetting d d') (hp : ∃ p, d.place r = .ok p) :
    ∃ p, d'.place r = .ok p :=
  hp.imp fun _ => h.place_iff.mpr

theorem openFile (h : SameSetting d d') (hs : r.slash = false) (hp : d.place r = .ok p) :
    (∃ fault, d.openFile r = .error fault ∧ d'.openFile r = .error fault) ∨
    ∃ d₁ d₁', d.openFile r = .ok (d₁, p) ∧ d'.openFile r = .ok (d₁', p) ∧ SameSetting d₁ d₁' := by
  simp only [openFile_eq hs hp, openFile_eq hs (h.place_iff.mpr hp), h.allows_eq, h.directory_iff]
  cases d.allows .openFile p with
  | error fault => exact Or.inl ⟨fault, rfl, rfl⟩
  | ok _ =>
    by_cases hn : d.node? p = some .directory
    · simp [hn, Except.bind]
    · have hn' : d'.node? p ≠ some .directory := fun hd => hn ((h.directory_iff p).mp hd)
      refine Or.inr ⟨_, _, if_neg hn, if_neg hn, ?_⟩
      exact (sameSetting_opened hn).symm.trans (h.trans (sameSetting_opened hn'))

/-- A lock is refused or given in both. -/
theorem lock_fst_eq (h : SameSetting d d') (hs : r.slash = false) (hp : d.place r = .ok p) :
    (d'.lock r).1 = (d.lock r).1 := by
  obtain ⟨fault, ho, ho'⟩ | ⟨d₁, d₁', ho, ho', hsame⟩ := h.openFile hs hp
  · simp only [lock, ho, ho']
  · rw [lock_fst_of_openFile ho, lock_fst_of_openFile ho', hsame.allows_eq, hsame.locks_eq]

theorem write (h : SameSetting d d') (hs : r.slash = false) (hp : d.place r = .ok p) :
    (∃ fault, d.write r content = .error fault ∧ d'.write r content = .error fault) ∨
    d.node? p ≠ some .directory ∧ d.write r content = .ok (d.put p (.file content)) ∧
      d'.write r content = .ok (d'.put p (.file content)) := by
  simp only [write_eq hs hp, write_eq hs (h.place_iff.mpr hp), h.allows_eq, h.directory_iff]
  cases d.allows .write p with
  | error fault => exact Or.inl ⟨fault, rfl, rfl⟩
  | ok _ => by_cases hn : d.node? p = some .directory <;> simp [hn, Except.bind]

/-- A file is moved in both or in neither. -/
theorem rename (h : SameSetting d d') (ho : d.place s = .ok o)
    (hn : d.node? o = some (.file content)) (hn' : d'.node? o = some (.file content))
    (hp : d.place r = .ok p) :
    (∃ fault, d.rename s r = .error fault ∧ d'.rename s r = .error fault) ∨
    d.node? p ≠ some .directory ∧ d.rename s r = .ok ((d.remove o).put p (.file content)) ∧
      d'.rename s r = .ok ((d'.remove o).put p (.file content)) := by
  simp only [rename_eq ho hn hp, rename_eq (h.place_iff.mpr ho) hn' (h.place_iff.mpr hp),
    h.allows_eq, h.directory_iff]
  cases d.allows .rename p with
  | error fault => exact Or.inl ⟨fault, rfl, rfl⟩
  | ok _ => by_cases hp : d.node? p = some .directory <;> simp [hp, Except.bind]

end SameSetting

end Operations

end Disk
end DependencyAudit
