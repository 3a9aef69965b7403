import DependencyAudit.Disk.Basic
import DependencyAudit.Proofs.Json.Decoding

/-! Files are written and moved while every path goes on to mean the same place, and both succeed where
nothing is in the way. -/
namespace DependencyAudit

/-- The paths beside a path end in the same stem, which is its file name or is empty. -/
theorem Route.exists_stem (r : Route) : ∃ names stem,
    (∀ ending, r.withEnding ending = ⟨r.absolute, names ++ [stem ++ ending], false⟩) ∧
    (r.names = names ++ [stem] ∧ stem ≠ ".." ∨ r.names = names ∧ stem = "") := by
  cases hn : r.fileName? with
  | none => exact ⟨r.names, "", fun ending => by simp [withEnding, hn], Or.inr ⟨rfl, rfl⟩⟩
  | some name =>
    refine ⟨r.names.dropLast, name, fun ending => by simp [withEnding, hn], Or.inl ?_⟩
    unfold fileName? at hn
    split at hn
    · rename_i last hlast
      split at hn
      · cases hn
      · rename_i hne
        cases hn
        exact ⟨(List.dropLast_append_getLast? _ hlast).symm, hne⟩
    · cases hn

namespace Disk

variable {d d' d'' : Disk} {r : Route} {p q m : Place} {names : List String} {name : String}

theorem node?_remove (d : Disk) (p q : Place) :
    (d.remove p).node? q = if q = p ∧ q ≠ [] then none else d.node? q := by
  by_cases hq : q = []
  · simp [node?, hq]
  · by_cases hp : q = p
    · subst hp
      simp [node?, remove, hq]
    · simp [node?, remove, hq, hp, find?_filter_ne _ hp]

theorem walk_cons_eq_ok : d.walk p (name :: names) = .ok q ↔
    d.node? p = some .directory ∧ isTooLong name = false ∧ d.walk (step p name) names = .ok q := by
  simp only [walk]
  split
  · simp_all
  · simp_all
  · split <;> simp_all

theorem directory_of_walk (hn : names ≠ []) (h : d.walk p names = .ok q) :
    d.node? p = some .directory := by
  obtain ⟨name, rest, rfl⟩ := List.exists_cons_of_ne_nil hn
  exact (walk_cons_eq_ok.mp h).1

theorem walk_append_eq_ok {rest : List String} :
    d.walk p (names ++ rest) = .ok q ↔ ∃ m, d.walk p names = .ok m ∧ d.walk m rest = .ok q := by
  induction names generalizing p with
  | nil => simp [walk]
  | cons name names ih =>
    simp only [List.cons_append, walk_cons_eq_ok, ih]
    constructor
    · rintro ⟨hd, hl, m, hm, hq⟩
      exact ⟨m, ⟨hd, hl, hm⟩, hq⟩
    · rintro ⟨m, ⟨hd, hl, hm⟩, hq⟩
      exact ⟨hd, hl, m, hm, hq⟩

theorem walk_of_place (h : d.place r = .ok q) : d.walk (d.start r) r.names = .ok q := by
  obtain ⟨_, -, h⟩ := exists_of_bind h
  split at h
  · cases h
  · exact h

/-- The same directories, of which relative paths start from the same one, and the same is refused
and locked. -/
structure SameSetting (d d' : Disk) : Prop where
  start_eq : d'.workingDirectory = d.workingDirectory
  directory_iff : ∀ p, d'.node? p = some .directory ↔ d.node? p = some .directory
  refused_eq : d'.refused = d.refused
  locks_eq : d'.locks = d.locks

namespace SameSetting

theorem refl (d : Disk) : SameSetting d d := ⟨rfl, fun _ => Iff.rfl, rfl, rfl⟩

theorem trans (h : SameSetting d d') (h' : SameSetting d' d'') : SameSetting d d'' where
  start_eq := h'.start_eq.trans h.start_eq
  directory_iff p := (h'.directory_iff p).trans (h.directory_iff p)
  refused_eq := h'.refused_eq.trans h.refused_eq
  locks_eq := h'.locks_eq.trans h.locks_eq

theorem walk_iff (h : SameSetting d d') :
    d'.walk p names = .ok q ↔ d.walk p names = .ok q := by
  induction names generalizing p with
  | nil => rfl
  | cons name names ih => simp only [walk_cons_eq_ok, ih, h.directory_iff]

/-- Every path means the same place. -/
theorem place_iff (h : SameSetting d d') : d'.place r = .ok q ↔ d.place r = .ok q := by
  have hstart : d'.start r = d.start r := by simp only [start, h.start_eq]
  simp only [place, bind, Except.bind]
  split
  · rfl
  · split
    · rfl
    · rw [hstart]
      exact h.walk_iff

theorem put_file (h : d.node? p ≠ some .directory) (content : ByteArray) :
    SameSetting d (d.put p (.file content)) := by
  refine ⟨rfl, fun q => ?_, rfl, rfl⟩
  by_cases hq : q = p
  · subst hq
    have hroot : q ≠ [] := by
      rintro rfl
      exact h rfl
    simp [node?_put _ _ hroot, h]
  · rw [node?_put_of_ne _ _ hq]

theorem remove (h : d.node? p ≠ some .directory) : SameSetting d (d.remove p) := by
  refine ⟨rfl, fun q => ?_, rfl, rfl⟩
  rw [node?_remove]
  split
  · rename_i hq
    simp [hq.1, h]
  · rfl

end SameSetting

theorem ne_nil_of_node? (h : d.node? p ≠ some .directory) : p ≠ [] := by
  rintro rfl
  exact h rfl

/-- The file beside another is another one, or what it should stand beside is a directory. -/
theorem ne_or_directory {ending : String} (he : ending ≠ "") (hq : d.place r = .ok q)
    (hp : d.place (r.withEnding ending) = .ok p) : p ≠ q ∨ d.node? q = some .directory := by
  obtain ⟨names, stem, hbeside, hstem⟩ := r.exists_stem
  have hq := walk_of_place hq
  have hp := walk_of_place hp
  rw [hbeside] at hp
  obtain ⟨m, hm, hp⟩ := walk_append_eq_ok.mp hp
  obtain ⟨hdirectory, -, hp⟩ := walk_cons_eq_ok.mp hp
  obtain rfl : step m (stem ++ ending) = p := Except.ok.inj hp
  obtain ⟨hnames, hne⟩ | ⟨hnames, rfl⟩ := hstem
  · left
    rw [hnames] at hq
    obtain ⟨m', hm', hq⟩ := walk_append_eq_ok.mp hq
    obtain rfl : m = m' := Except.ok.inj (hm.symm.trans hm')
    obtain ⟨-, -, hq⟩ := walk_cons_eq_ok.mp hq
    obtain rfl : m ++ [stem] = q := by simpa [walk, step, hne] using hq
    intro h
    unfold step at h
    split at h
    · have := congrArg List.length h
      simp at this
    · have h : stem ++ ending = stem := by simpa using h
      exact he (by simpa using h)
  · right
    rw [hnames] at hq
    obtain rfl : m = q := Except.ok.inj (hm.symm.trans hq)
    exact hdirectory

/-- A file that is written beside another leaves that as it is. -/
theorem node?_put_beside {ending : String} (he : ending ≠ "")
    (hp : d.place (r.withEnding ending) = .ok p) (hn : d.node? p ≠ some .directory)
    (hq : d.place r = .ok q) (content : ByteArray) :
    (d.put p (.file content)).node? q = d.node? q := by
  rcases ne_or_directory he hq hp with hne | hd
  · rw [node?_put_of_ne _ _ (Ne.symm hne)]
  · rw [hd]
    exact ((SameSetting.put_file hn content).directory_iff q).mpr hd

/-- Opening leaves the disk as it was, or makes an empty file where nothing was. -/
theorem cases_of_openFile (h : d.openFile r = .ok (d', p)) :
    d' = d ∨ d.place r = .ok p ∧ d.node? p = none ∧ d' = d.put p (.file .empty) := by
  obtain ⟨q, hq, h⟩ := exists_of_bind h
  obtain ⟨_, -, h⟩ := exists_of_bind h
  split at h
  · split at h
    · cases h
    · cases h
      exact Or.inl rfl
  · cases h
  · rename_i hnode
    split at h
    · cases h
    · cases h
      exact Or.inr ⟨hq, hnode, rfl⟩

theorem slash_of_openFile (h : d.openFile r = .ok (d', p)) : r.slash = false := by
  simp only [openFile, bind, Except.bind] at h
  repeat' split at h
  all_goals cases hs : r.slash <;> simp_all [throw, throwThe, MonadExceptOf.throw]

theorem node?_of_openFile (h : d.openFile r = .ok (d', p)) :
    d'.place r = .ok p ∧ ∃ node, d'.node? p = some node := by
  obtain ⟨q, hq, h⟩ := exists_of_bind h
  obtain ⟨_, -, h⟩ := exists_of_bind h
  split at h
  · rename_i hnode
    split at h
    · cases h
    · cases h
      exact ⟨hq, _, hnode⟩
  · cases h
  · rename_i hnode
    have hn : d.node? q ≠ some .directory := by simp [hnode]
    split at h
    · cases h
    · cases h
      exact ⟨(SameSetting.put_file hn _).place_iff.mpr hq, _, node?_put _ _ (ne_nil_of_node? hn)⟩

theorem cases_of_lock {outcome : Except DiskFault Unit} (h : d.lock r = (outcome, d')) :
    d' = d ∨ ∃ p, d.place r = .ok p ∧ d.node? p = none ∧ d' = d.put p (.file .empty) := by
  unfold lock at h
  split at h
  · cases h
    exact Or.inl rfl
  · rename_i opened p ho
    have hd : opened = d' := by
      split at h
      · exact congrArg Prod.snd h
      · split at h <;> exact congrArg Prod.snd h
    subst hd
    exact (cases_of_openFile ho).imp_right fun h => ⟨p, h⟩

theorem sameSetting_lock {outcome : Except DiskFault Unit} (h : d.lock r = (outcome, d')) :
    SameSetting d d' := by
  rcases cases_of_lock h with rfl | ⟨o, -, hn, rfl⟩
  · exact SameSetting.refl _
  · exact SameSetting.put_file (by simp [hn]) _

theorem exists_of_write {content : ByteArray} (h : d.write r content = .ok d') :
    ∃ p, d.place r = .ok p ∧ d.node? p ≠ some .directory ∧ d' = d.put p (.file content) := by
  obtain ⟨p, hp, h⟩ := exists_of_bind h
  obtain ⟨_, -, h⟩ := exists_of_bind h
  split at h
  · cases h
  · rename_i hnode
    split at h
    · cases h
    · cases h
      exact ⟨p, hp, hnode, rfl⟩

/-- After a move the file stands in its new place. -/
theorem exists_of_rename {source target : Route} (h : d.rename source target = .ok d') :
    ∃ o p content, d.place source = .ok o ∧ d.place target = .ok p ∧
      d.node? o = some (.file content) ∧ d'.node? p = some (.file content) ∧ SameSetting d d' := by
  obtain ⟨o, ho, h⟩ := exists_of_bind h
  obtain ⟨p, hp, h⟩ := exists_of_bind h
  obtain ⟨_, -, h⟩ := exists_of_bind h
  split at h
  · cases h
  · cases h
  · cases h
  · rename_i content hfile hnode
    cases h
    have hremove : SameSetting d (d.remove o) := SameSetting.remove (by simp [hfile])
    have hnode' : (d.remove o).node? p ≠ some .directory := fun h =>
      hnode ((hremove.directory_iff p).mp h)
    exact ⟨o, p, content, ho, hp, hfile, node?_put _ _ (ne_nil_of_node? hnode'),
      hremove.trans (SameSetting.put_file hnode' content)⟩

/-- Directories that are all there are not made again. -/
theorem makeAlong_of_walk (h : d.walk p (names ++ [name]) = .ok q) :
    d.makeAlong p names = (.ok (), d) := by
  induction names generalizing p with
  | nil => rfl
  | cons first names ih =>
    obtain ⟨-, hlong, hwalk⟩ := walk_cons_eq_ok.mp h
    have hdirectory := directory_of_walk (by simp) hwalk
    simp only [makeAlong, hlong, Bool.false_eq_true, if_false, hdirectory]
    exact ih hwalk

theorem parent?_eq {parent : Route} (h : r.parent? = some parent) :
    r.names ≠ [] ∧ parent = ⟨r.absolute, r.names.dropLast, false⟩ := by
  simp only [Route.parent?] at h
  split at h
  · rename_i hnil
    split at h
    · rename_i hroot
      simp only [Bool.and_eq_true, Bool.not_eq_true', List.isEmpty_eq_false_iff] at hroot
      cases h
      exact ⟨hroot.2, by rw [hnil, hroot.1]⟩
    · cases h
  · rename_i hne
    cases h
    exact ⟨fun hnil => hne (by rw [hnil]; rfl), rfl⟩

theorem check_eq_ok_iff : check r = .ok () ↔ r.isNameable = true ∧ r.byteSize ≤ pathLimit := by
  unfold check
  split
  · simp_all
  · split <;> simp_all

theorem check_parent? {parent : Route} (h : check r = .ok ()) (hr : r.parent? = some parent) :
    check parent = .ok () := by
  obtain ⟨hne, rfl⟩ := parent?_eq hr
  obtain ⟨absolute, names, slash⟩ := r
  obtain ⟨names, name, rfl⟩ : ∃ names' name, names = names' ++ [name] :=
    ⟨_, _, (List.dropLast_append_getLast hne).symm⟩
  rw [check_eq_ok_iff] at h ⊢
  obtain ⟨hname, hsize⟩ := h
  have hsum : (names.map (·.utf8ByteSize + 1)).sum ≤
      ((names ++ [name]).map (·.utf8ByteSize + 1)).sum := by simp
  constructor
  · simp_all [Route.isNameable]
  · simp only [Route.byteSize, ← List.sum_eq_foldr, List.dropLast_concat] at hsize ⊢
    omega

/-- The directory of a place that is there is not made again. -/
theorem makeParent_of_place (h : d.place r = .ok p) : d.makeParent r = (.ok (), d) := by
  obtain ⟨_, hcheck, -⟩ := exists_of_bind h
  have hwalk := walk_of_place h
  unfold makeParent
  split
  · rename_i parent hparent
    obtain ⟨hne, rfl⟩ := parent?_eq hparent
    have hnames : r.names = r.names.dropLast ++ [r.names.getLast hne] :=
      (List.dropLast_append_getLast hne).symm
    rw [hnames] at hwalk
    simp only [makeDirectories, check_parent? hcheck hparent]
    exact makeAlong_of_walk hwalk
  · rfl

theorem allows_eq_ok_iff {o : DiskOperation} : d.allows o p = .ok () ↔ (o, p) ∉ d.refused := by
  unfold allows
  split <;> simp_all

theorem SameSetting.allows_eq (h : SameSetting d d') (o : DiskOperation) (p : Place) :
    d'.allows o p = d.allows o p := by
  simp only [allows, h.refused_eq]

theorem openFile_of_file {content : ByteArray} (hs : r.slash = false) (hp : d.place r = .ok p)
    (hn : d.node? p = some (.file content)) :
    d.openFile r = (d.allows .openFile p).map fun _ => (d, p) := by
  simp only [openFile, hp, hn, hs, bind, Except.bind]
  cases d.allows .openFile p <;> rfl

/-- The path means a place where a file can be, and some operations are allowed there. -/
structure Permits (d : Disk) (operations : List DiskOperation) (r : Route) : Prop where
  slash : r.slash = false
  exists_place : ∃ p, d.place r = .ok p ∧ d.node? p ≠ some .directory ∧
    ∀ o ∈ operations, d.allows o p = .ok ()

theorem permits_iff {operations : List DiskOperation} : d.Permits operations r ↔
    r.slash = false ∧ ∃ p ∈ (d.place r).toOption, d.node? p ≠ some .directory ∧
      ∀ o ∈ operations, d.allows o p = .ok () := by
  cases hp : d.place r with
  | error fault =>
    simp only [Except.toOption, Option.not_mem_none, false_and, exists_false, and_false, iff_false]
    rintro ⟨-, p, hp', -⟩
    rw [hp] at hp'
    cases hp'
  | ok p =>
    simp only [Except.toOption, Option.mem_def, Option.some.injEq, exists_eq_left']
    constructor
    · rintro ⟨hs, q, hq, hn, ho⟩
      obtain rfl := Except.ok.inj (hp.symm.trans hq)
      exact ⟨hs, hn, ho⟩
    · rintro ⟨hs, hn, ho⟩
      exact ⟨hs, p, hp, hn, ho⟩

instance (d : Disk) (operations : List DiskOperation) (r : Route) :
    Decidable (d.Permits operations r) :=
  decidable_of_iff' _ permits_iff

theorem Permits.mono {operations operations' : List DiskOperation} (h : d.Permits operations r)
    (hsub : operations' ⊆ operations) : d.Permits operations' r :=
  ⟨h.slash, h.exists_place.imp fun _ hp => ⟨hp.1, hp.2.1, fun o ho => hp.2.2 o (hsub ho)⟩⟩

theorem Permits.of_sameSetting {operations : List DiskOperation} (h : d.Permits operations r)
    (hs : SameSetting d d') : d'.Permits operations r := by
  obtain ⟨p, hp, hn, ho⟩ := h.exists_place
  refine ⟨h.slash, p, hs.place_iff.mpr hp, fun hd => hn ((hs.directory_iff p).mp hd), ?_⟩
  intro o hm
  rw [hs.allows_eq, ho o hm]

theorem exists_openFile {operations : List DiskOperation} (h : d.Permits operations r)
    (ho : .openFile ∈ operations) :
    ∃ d' p, d.openFile r = .ok (d', p) ∧ d.place r = .ok p ∧ SameSetting d d' := by
  obtain ⟨p, hp, hn, hall⟩ := h.exists_place
  simp only [openFile, hp, hall .openFile ho, h.slash, bind, Except.bind]
  split
  · exact ⟨d, p, rfl, rfl, SameSetting.refl d⟩
  · contradiction
  · exact ⟨d.put p (.file .empty), p, rfl, rfl, SameSetting.put_file hn _⟩

theorem exists_lock (h : d.Permits [.openFile, .lock] r)
    (hl : ∀ x ∈ d.locks, d.place r = .ok x.1 → x.2 < lockWait) :
    ∃ d', d.lock r = (.ok (), d') := by
  obtain ⟨d', p, hopen, hp, hsame⟩ := exists_openFile h List.mem_cons_self
  obtain ⟨q, hq, -, hall⟩ := h.exists_place
  obtain rfl : p = q := Except.ok.inj (hp.symm.trans hq)
  have hlock : d'.allows .lock p = .ok () := (hsame.allows_eq _ _).trans (hall .lock (by simp))
  refine ⟨d', ?_⟩
  simp only [lock, hopen, hlock, hsame.locks_eq]
  split
  · rename_i x remaining hfind
    have hkey : x = p := by simpa using List.find?_some hfind
    have := hl _ (List.mem_of_find?_eq_some hfind) (hkey ▸ hp)
    simp [this]
  · rfl

theorem exists_write (h : d.Permits [.write] r) (content : ByteArray) :
    ∃ d', d.write r content = .ok d' := by
  obtain ⟨p, hp, hn, hall⟩ := h.exists_place
  refine ⟨d.put p (.file content), ?_⟩
  simp only [write, hp, hall .write List.mem_cons_self, bind, Except.bind, h.slash]
  split
  · contradiction
  · rfl

theorem exists_rename {source target : Route} {operations : List DiskOperation} {content : ByteArray}
    (ho : d.place source = .ok p) (hn : d.node? p = some (.file content))
    (h : d.Permits operations target) (hr : .rename ∈ operations) :
    ∃ d', d.rename source target = .ok d' := by
  obtain ⟨q, hq, hfree, hall⟩ := h.exists_place
  refine ⟨(d.remove p).put q (.file content), ?_⟩
  simp only [rename, ho, hq, hall .rename hr, bind, Except.bind, hn]
  rfl

end Disk
end DependencyAudit
