import Mathlib.Data.List.Basic
import DependencyAudit.Proofs.Text.Pieces
import DependencyAudit.Coordinate.Reading

/-! Which coordinates are read back from what is written for them: those whose ecosystem, name and
version hold none of the marks at which their text is cut. -/
namespace DependencyAudit

namespace Text

/-- Not blank, and with no blanks around it. -/
structure IsTidy (s : String) : Prop where
  ne_nil : s.toList ≠ []
  trim_eq : trim s.toList = s.toList

theorem toList_of_present? {s t : String} (h : present? s = some t) :
    t.toList = trim s.toList ∧ t.toList ≠ [] := by
  simp only [present?] at h
  split at h
  · cases h
  · rename_i hne
    cases h
    exact ⟨String.toList_ofList, by simpa using hne⟩

theorem isTidy_of_present? {s t : String} (h : present? s = some t) : IsTidy t := by
  obtain ⟨ht, hne⟩ := toList_of_present? h
  obtain ⟨hstart, hend⟩ := ends_trim s.toList
  rw [← ht] at hstart hend
  exact ⟨hne, trim_of_ends hstart hend⟩

theorem IsTidy.present?_eq {s : String} (h : IsTidy s) : present? s = some s := by
  rw [present?, h.trim_eq]
  split
  · exact absurd (by assumption) h.ne_nil
  · rw [String.ofList_toList]

/-- Nothing written stands for a part that is missing. -/
theorem present?_getD {part : Option String} (h : ∀ s ∈ part, IsTidy s) :
    present? (part.getD "") = part := by
  cases part with
  | none => rfl
  | some s => exact (h s rfl).present?_eq

theorem IsTidy.head {s : String} (h : IsTidy s) : ∀ c ∈ s.toList.head?, isBlank c = false :=
  h.trim_eq ▸ (ends_trim s.toList).1

theorem IsTidy.last {s : String} (h : IsTidy s) : ∀ c ∈ s.toList.getLast?, isBlank c = false :=
  h.trim_eq ▸ (ends_trim s.toList).2

end Text

namespace CoordinateDraft

/-- Drafts that are put together part by part, in any order. -/
inductive Reachable : CoordinateDraft → Prop
  | empty : Reachable empty
  | withEcosystem {d : CoordinateDraft} (h : Reachable d) (s : String) :
      Reachable (d.withEcosystem s)
  | withGroup {d : CoordinateDraft} (h : Reachable d) (s : String) : Reachable (d.withGroup s)
  | withName {d : CoordinateDraft} (h : Reachable d) (s : String) : Reachable (d.withName s)
  | withVersion {d : CoordinateDraft} (h : Reachable d) (s : String) : Reachable (d.withVersion s)
  | anyVersion {d : CoordinateDraft} (h : Reachable d) : Reachable d.anyVersion
  | ofCoordinate {d : CoordinateDraft} (h : Reachable d) {c : Coordinate} (hc : d.build = .ok c) :
      Reachable (ofCoordinate c)

/-- The parts that are there are tidy. -/
structure IsTidy (d : CoordinateDraft) : Prop where
  ecosystem : ∀ s ∈ d.ecosystem, Text.IsTidy s
  group : ∀ s ∈ d.group, Text.IsTidy s
  name : ∀ s ∈ d.name, Text.IsTidy s
  version : ∀ s ∈ d.version, Text.IsTidy s

theorem build_eq_ok_iff {d : CoordinateDraft} {c : Coordinate} :
    d.build = .ok c ↔ d = ofCoordinate c := by
  obtain ⟨e, g, n, v⟩ := d
  obtain ⟨e', g', n', v'⟩ := c
  cases e <;> cases n <;> simp [build, ofCoordinate]

theorem Reachable.isTidy {d : CoordinateDraft} (h : d.Reachable) : d.IsTidy := by
  induction h with
  | empty => exact ⟨nofun, nofun, nofun, nofun⟩
  | withEcosystem h s ih => exact { ih with ecosystem := fun t ht => Text.isTidy_of_present? ht }
  | withGroup h s ih => exact { ih with group := fun t ht => Text.isTidy_of_present? ht }
  | withName h s ih => exact { ih with name := fun t ht => Text.isTidy_of_present? ht }
  | withVersion h s ih => exact { ih with version := fun t ht => Text.isTidy_of_present? ht }
  | anyVersion h ih => exact { ih with version := nofun }
  | ofCoordinate h hc ih => exact build_eq_ok_iff.mp hc ▸ ih

end CoordinateDraft

namespace Coordinate

open Text

/-- What a draft gives that is put together part by part. -/
def IsBuilt (c : Coordinate) : Prop := ∃ d : CoordinateDraft, d.Reachable ∧ d.build = .ok c

/-- The parts of a coordinate are tidy, those that are there. -/
def IsTidy (c : Coordinate) : Prop := (CoordinateDraft.ofCoordinate c).IsTidy

theorem isBuilt_iff {c : Coordinate} : c.IsBuilt ↔ c.IsTidy := by
  constructor
  · rintro ⟨d, hd, hb⟩
    rw [IsTidy, ← CoordinateDraft.build_eq_ok_iff.mp hb]
    exact hd.isTidy
  · intro h
    have hecosystem : present? c.ecosystem = some c.ecosystem := (h.ecosystem _ rfl).present?_eq
    have hgroup : present? (c.group.getD "") = c.group := present?_getD h.group
    have hname : present? c.name = some c.name := (h.name _ rfl).present?_eq
    have hversion : present? (c.version.getD "") = c.version := present?_getD h.version
    refine ⟨_, (((CoordinateDraft.Reachable.empty.withEcosystem c.ecosystem).withGroup
      (c.group.getD "")).withName c.name).withVersion (c.version.getD ""),
      CoordinateDraft.build_eq_ok_iff.mpr ?_⟩
    simp only [CoordinateDraft.withEcosystem, CoordinateDraft.withGroup, CoordinateDraft.withName,
      CoordinateDraft.withVersion, CoordinateDraft.ofCoordinate, hecosystem, hgroup, hname,
      hversion]

/-- The name and the version are not cut: no slash in them, and no at sign in the name. -/
structure IsPlain (c : Coordinate) : Prop where
  name_slash : '/' ∉ c.name.toList
  name_at : '@' ∉ c.name.toList
  version_slash : ∀ v ∈ c.version, '/' ∉ v.toList

/-- The characters of the name, and of the version with the at sign before it. -/
def nameChars (c : Coordinate) : List Char :=
  c.name.toList ++ (c.version.map fun v => '@' :: v.toList).getD []

variable {c : Coordinate}

theorem toList_packageText (c : Coordinate) : c.packageText.toList =
    (c.group.map fun g => g.toList ++ ['/']).getD [] ++ c.nameChars := by
  cases hg : c.group <;> cases hv : c.version <;> simp [packageText, nameChars, hg, hv]

theorem toList_text (c : Coordinate) :
    c.text.toList = c.ecosystem.toList ++ ':' :: c.packageText.toList := by
  simp [text]

theorem toList_purl (c : Coordinate) :
    c.purl.toList = "pkg:".toList ++ (c.ecosystem.toList ++ '/' :: c.packageText.toList) := by
  simp [purl]

theorem IsTidy.nameChars_ne_nil (hc : c.IsTidy) : c.nameChars ≠ [] :=
  List.append_ne_nil_of_left_ne_nil (hc.name c.name rfl).ne_nil _

theorem IsTidy.last_nameChars (hc : c.IsTidy) : ∀ x ∈ c.nameChars.getLast?, isBlank x = false := by
  cases hv : c.version with
  | none => simpa [nameChars, hv] using (hc.name c.name rfl).last
  | some v =>
    have htidy : Text.IsTidy v := hc.version v hv
    have hchars : c.nameChars = (c.name.toList ++ ['@']) ++ v.toList := by simp [nameChars, hv]
    rw [hchars, List.getLast?_append_of_ne_nil _ htidy.ne_nil]
    exact htidy.last

/-- Nothing is trimmed from what ends with the text of the package. -/
theorem IsTidy.trim_append (hc : c.IsTidy) (cs : List Char) (hne : cs ≠ [])
    (hcs : ∀ x ∈ cs.head?, isBlank x = false) :
    trim (cs ++ c.packageText.toList) = cs ++ c.packageText.toList := by
  refine trim_of_ends (fun x hx => hcs x ?_) (fun x hx => hc.last_nameChars x ?_)
  · rwa [List.head?_append_of_ne_nil _ hne] at hx
  · rwa [toList_packageText, ← List.append_assoc,
      List.getLast?_append_of_ne_nil _ hc.nameChars_ne_nil] at hx

theorem IsTidy.trim_text (hc : c.IsTidy) : trim c.text.toList = c.text.toList := by
  have hecosystem : Text.IsTidy c.ecosystem := hc.ecosystem c.ecosystem rfl
  have h := hc.trim_append (c.ecosystem.toList ++ [':']) (by simp) fun x hx => by
    rw [List.head?_append_of_ne_nil _ hecosystem.ne_nil] at hx
    exact hecosystem.head x hx
  simpa [toList_text] using h

theorem IsTidy.trim_purl (hc : c.IsTidy) : trim c.purl.toList = c.purl.toList := by
  have h := hc.trim_append ("pkg:".toList ++ (c.ecosystem.toList ++ ['/'])) (by simp) fun x hx => by
    obtain rfl : 'p' = x := by simpa using hx
    rfl
  simpa [toList_purl] using h

/-- The draft that is read from the text of an ecosystem and that of a package. -/
def draftOf (ecosystem package : List Char) : CoordinateDraft :=
  let (group, rest) := splitGroup package
  let (name, version) := splitVersion rest
  ⟨presentChars? (some ecosystem), presentChars? group, presentChars? (some name),
    presentChars? version⟩

theorem ofText_eq_ok_iff {s : String} : ofText s = .ok c ↔
    ∃ ecosystem package, splitEcosystem? (trim s.toList) = some (ecosystem, package) ∧
      draftOf ecosystem package = .ofCoordinate c := by
  rw [ofText]
  split
  · rename_i h
    simp [h]
  · rename_i ecosystem package h
    rw [h]
    simp only [Option.some.injEq, Prod.mk.injEq]
    constructor
    · intro hb
      exact ⟨ecosystem, package, ⟨rfl, rfl⟩, CoordinateDraft.build_eq_ok_iff.mp hb⟩
    · rintro ⟨_, _, ⟨rfl, rfl⟩, hd⟩
      exact CoordinateDraft.build_eq_ok_iff.mpr hd

/-- The size of a part with the mark that sets it off. -/
def width (part : Option (List Char)) : ℕ := (part.map fun cs => cs.length + 1).getD 0

theorem splitGroup_cut (cs : List Char) : '/' ∉ (splitGroup cs).2 ∧
    cs.length = width (splitGroup cs).1 + (splitGroup cs).2.length := by
  simp only [splitGroup]
  split
  · rename_i group rest h
    obtain ⟨rfl, hrest⟩ := eq_of_splitLast? h
    exact ⟨hrest, by simp [width]; omega⟩
  · rename_i h
    exact ⟨not_mem_of_splitLast?_eq_none h, by simp [width]⟩

theorem splitVersion_cut (cs : List Char) : '@' ∉ (splitVersion cs).1 ∧
    (splitVersion cs).1 ⊆ cs ∧ (∀ v ∈ (splitVersion cs).2, v ⊆ cs) ∧
    cs.length = (splitVersion cs).1.length + width (splitVersion cs).2 := by
  simp only [splitVersion]
  split
  · rename_i name version h
    obtain ⟨rfl, hname⟩ := eq_of_splitOnce? h
    exact ⟨hname, by simp, by simp +contextual [List.subset_def], by simp [width]⟩
  · rename_i h
    exact ⟨not_mem_of_splitOnce?_eq_none h, List.Subset.refl cs, nofun, by simp [width]⟩

theorem of_presentChars? {part : Option (List Char)} {s : String}
    (h : presentChars? part = some s) : ∃ cs, part = some cs ∧ s.toList = trim cs := by
  obtain ⟨cs, hcs, hs⟩ := Option.bind_eq_some_iff.mp h
  exact ⟨cs, hcs, by simpa using (toList_of_present? hs).1⟩

theorem width_presentChars?_le (part : Option (List Char)) :
    width ((presentChars? part).map String.toList) ≤ width part := by
  cases h : presentChars? part with
  | none => exact Nat.zero_le _
  | some s =>
    obtain ⟨cs, rfl, hs⟩ := of_presentChars? h
    have hle := length_trim_le cs
    simp only [width, Option.map_some, Option.getD_some, hs]
    omega

theorem presentChars?_some {s : String} (h : Text.IsTidy s) :
    presentChars? (some s.toList) = some s := by
  simpa [presentChars?] using h.present?_eq

theorem presentChars?_map {part : Option String} (h : ∀ s ∈ part, Text.IsTidy s) :
    presentChars? (part.map String.toList) = part := by
  cases part with
  | none => rfl
  | some s => exact presentChars?_some (h s rfl)

theorem length_packageText (c : Coordinate) : c.packageText.toList.length =
    width (c.group.map String.toList) +
      (c.name.toList.length + width (c.version.map String.toList)) := by
  rw [toList_packageText, List.length_append, nameChars, List.length_append]
  cases c.group <;> cases c.version <;> simp [width]

/-- The name and the version that are read are plain, and reading lengthens nothing. -/
theorem of_draftOf_eq {ecosystem package : List Char}
    (h : draftOf ecosystem package = .ofCoordinate c) :
    c.ecosystem.toList = trim ecosystem ∧ c.IsPlain ∧
      c.packageText.toList.length ≤ package.length := by
  simp only [draftOf, CoordinateDraft.ofCoordinate, CoordinateDraft.mk.injEq] at h
  obtain ⟨he, hg, hn, hv⟩ := h
  obtain ⟨_, ⟨⟩, hecosystem⟩ := of_presentChars? he
  obtain ⟨_, ⟨⟩, hname⟩ := of_presentChars? hn
  obtain ⟨hslash, hpackage⟩ := splitGroup_cut package
  obtain ⟨hat, hsub, hsubversion, hrest⟩ := splitVersion_cut (splitGroup package).2
  refine ⟨hecosystem, ⟨?_, ?_, ?_⟩, ?_⟩
  · rw [hname]
    exact fun hm => hslash (hsub (mem_of_mem_trim hm))
  · rw [hname]
    exact fun hm => hat (mem_of_mem_trim hm)
  · intro v hm
    obtain ⟨cs, hcs, hvchars⟩ := of_presentChars? (hv.trans hm)
    rw [hvchars]
    exact fun hm => hslash (hsubversion cs hcs (mem_of_mem_trim hm))
  · have hgroup := width_presentChars?_le (splitGroup package).1
    have hversion := width_presentChars?_le (splitVersion (splitGroup package).2).2
    have hle := length_trim_le (splitVersion (splitGroup package).2).1
    rw [hg] at hgroup
    rw [hv] at hversion
    rw [length_packageText, hname]
    omega

theorem splitVersion_nameChars (hp : c.IsPlain) :
    splitVersion c.nameChars = (c.name.toList, c.version.map String.toList) := by
  cases hv : c.version with
  | none => simp [splitVersion, nameChars, hv, splitOnce?_eq_none hp.name_at]
  | some v => simp [splitVersion, nameChars, hv, splitOnce?_append hp.name_at]

theorem splitGroup_packageText (hp : c.IsPlain) :
    splitGroup c.packageText.toList = (c.group.map String.toList, c.nameChars) := by
  have hslash : '/' ∉ c.nameChars := by
    cases hv : c.version with
    | none => simpa [nameChars, hv] using hp.name_slash
    | some v => simpa [nameChars, hv] using ⟨hp.name_slash, hp.version_slash v hv⟩
  rw [toList_packageText]
  cases c.group with
  | none => simp [splitGroup, splitLast?_eq_none hslash]
  | some g => simp [splitGroup, splitLast?_append hslash]

theorem draftOf_packageText (hc : c.IsTidy) (hp : c.IsPlain) :
    draftOf c.ecosystem.toList c.packageText.toList = .ofCoordinate c := by
  have hecosystem := presentChars?_some (hc.ecosystem c.ecosystem rfl)
  have hgroup : presentChars? (c.group.map String.toList) = c.group := presentChars?_map hc.group
  have hname := presentChars?_some (hc.name c.name rfl)
  have hversion : presentChars? (c.version.map String.toList) = c.version :=
    presentChars?_map hc.version
  simp only [draftOf, splitGroup_packageText hp, splitVersion_nameChars hp, hecosystem, hgroup,
    hname, hversion, CoordinateDraft.ofCoordinate]

theorem splitEcosystem?_of_not_purl {cs : List Char} (h : ¬"pkg:".toList <+: cs) :
    splitEcosystem? cs = splitOnce? ':' cs := by
  unfold splitEcosystem?
  split
  · exact absurd ⟨_, rfl⟩ h
  · rfl

/-- A text with a colon after the ecosystem is a package URL only where the ecosystem is `pkg` or
holds a colon of its own. -/
theorem not_purl_text (hne : c.ecosystem ≠ "pkg") (hcolon : ':' ∉ c.ecosystem.toList) :
    ¬"pkg:".toList <+: c.text.toList := by
  rintro ⟨cs, hcs⟩
  have hsplit := splitOnce?_append hcolon c.packageText.toList
  rw [← toList_text, ← hcs, show "pkg:".toList ++ cs = "pkg".toList ++ ':' :: cs from rfl,
    splitOnce?_append (by decide), Option.some.injEq, Prod.mk.injEq] at hsplit
  exact hne (String.toList_inj.mp hsplit.1).symm

/-- The slash that ends the ecosystem of a package URL is the first one. -/
theorem eq_of_splitEcosystem?_purl {cs ecosystem package : List Char} (hpurl : "pkg:".toList <+: cs)
    (h : splitEcosystem? cs = some (ecosystem, package)) :
    cs = "pkg:".toList ++ (ecosystem ++ '/' :: package) ∧ '/' ∉ ecosystem := by
  obtain ⟨rest, rfl⟩ := hpurl
  obtain ⟨rfl, hslash⟩ := eq_of_splitOnce? (show splitOnce? '/' rest = _ from h)
  exact ⟨rfl, hslash⟩

/-- What is read from a package URL has lost at least the four characters in front. -/
theorem length_text_lt_of_purl {s : String} (h : ofText s = .ok c)
    (hpurl : "pkg:".toList <+: trim s.toList) :
    c.text.toList.length < (trim s.toList).length := by
  obtain ⟨ecosystem, package, hsplit, hd⟩ := ofText_eq_ok_iff.mp h
  obtain ⟨he, -, hpackage⟩ := of_draftOf_eq hd
  have hecosystem := length_trim_le ecosystem
  have hfour : "pkg:".toList.length = 4 := rfl
  rw [(eq_of_splitEcosystem?_purl hpurl hsplit).1]
  simp only [toList_text, List.length_append, List.length_cons, he, hfour]
  omega

theorem ofText_text_ne_of_purl (hc : c.IsTidy) (h : "pkg:".toList <+: c.text.toList) :
    ofText c.text ≠ .ok c := by
  intro hread
  have hlt := length_text_lt_of_purl hread (by rwa [hc.trim_text])
  rw [hc.trim_text] at hlt
  exact Nat.lt_irrefl _ hlt

theorem ofText_text_iff (hc : c.IsTidy) :
    ofText c.text = .ok c ↔ c.ecosystem ≠ "pkg" ∧ ':' ∉ c.ecosystem.toList ∧ c.IsPlain := by
  constructor
  · intro hread
    have hpurl : ¬"pkg:".toList <+: c.text.toList := fun h => ofText_text_ne_of_purl hc h hread
    obtain ⟨ecosystem, package, hsplit, hd⟩ := ofText_eq_ok_iff.mp hread
    obtain ⟨he, hp, -⟩ := of_draftOf_eq hd
    rw [hc.trim_text, splitEcosystem?_of_not_purl hpurl] at hsplit
    refine ⟨?_, ?_, hp⟩
    · intro hpkg
      exact hpurl ⟨c.packageText.toList, by rw [toList_text, hpkg]; rfl⟩
    · rw [he]
      exact fun hm => (eq_of_splitOnce? hsplit).2 (mem_of_mem_trim hm)
  · rintro ⟨hne, hcolon, hp⟩
    refine ofText_eq_ok_iff.mpr ⟨c.ecosystem.toList, c.packageText.toList, ?_,
      draftOf_packageText hc hp⟩
    rw [hc.trim_text, splitEcosystem?_of_not_purl (not_purl_text hne hcolon), toList_text,
      splitOnce?_append hcolon]

theorem ofText_purl_iff (hc : c.IsTidy) :
    ofText c.purl = .ok c ↔ '/' ∉ c.ecosystem.toList ∧ c.IsPlain := by
  have hsplit : splitEcosystem? (trim c.purl.toList) =
      splitOnce? '/' (c.ecosystem.toList ++ '/' :: c.packageText.toList) := by
    rw [hc.trim_purl, toList_purl]
    rfl
  rw [ofText_eq_ok_iff, hsplit]
  constructor
  · rintro ⟨ecosystem, package, hcut, hd⟩
    obtain ⟨he, hp, -⟩ := of_draftOf_eq hd
    refine ⟨?_, hp⟩
    rw [he]
    exact fun hm => (eq_of_splitOnce? hcut).2 (mem_of_mem_trim hm)
  · rintro ⟨hslash, hp⟩
    exact ⟨_, _, splitOnce?_append hslash _, draftOf_packageText hc hp⟩

/-- A coordinate that was put together is read back from its canonical text exactly when the
ecosystem is not `pkg` and has no colon, and from its package URL exactly when the ecosystem has no
slash, in both cases with a plain name and version. The group may hold any of the marks. -/
theorem reads_back_iff (hc : c.IsBuilt) :
    (ofText c.text = .ok c ↔ c.ecosystem ≠ "pkg" ∧ ':' ∉ c.ecosystem.toList ∧ c.IsPlain) ∧
    (ofText c.purl = .ok c ↔ '/' ∉ c.ecosystem.toList ∧ c.IsPlain) :=
  ⟨ofText_text_iff (isBuilt_iff.mp hc), ofText_purl_iff (isBuilt_iff.mp hc)⟩

/-- A group with every mark in it does no harm, the ecosystem `pkg` only to the canonical text. -/
theorem reads_back_iff_pkg :
    let c : Coordinate := ⟨"pkg", some "@scope/a:b", "node", some "1.0@beta"⟩
    c.IsBuilt ∧ ofText "pkg:pkg/@scope/a:b/node@1.0@beta" = .ok c ∧
      ofText "pkg:@scope/a:b/node@1.0@beta" ≠ .ok c := by
  intro c
  have hc : c.IsBuilt := ⟨_, (((CoordinateDraft.Reachable.empty.withEcosystem "pkg").withGroup
    "@scope/a:b").withName " node ").withVersion "1.0@beta", by decide +kernel⟩
  have hplain : c.IsPlain := ⟨by decide, by decide, by simp [c]⟩
  have htext : c.text = "pkg:@scope/a:b/node@1.0@beta" := by decide +kernel
  have hpurl : c.purl = "pkg:pkg/@scope/a:b/node@1.0@beta" := by decide +kernel
  rw [← htext, ← hpurl]
  refine ⟨hc, (reads_back_iff hc).2.mpr ⟨by decide, hplain⟩, fun h => ?_⟩
  exact ((reads_back_iff hc).1.mp h).1 rfl

end Coordinate
end DependencyAudit
