import DependencyAudit.Proofs.Coordinate.Reading
import DependencyAudit.Proofs.Text.Lowercase

/-! What was read once is read again from its canonical text and from its cache key, unless the
ecosystem makes the text a package URL or holds a colon. -/
namespace DependencyAudit

namespace Text

theorem IsTidy.lowers {s t : String} (hs : IsTidy s) (h : Lowers s.toList t.toList) : IsTidy t :=
  ⟨h.ne_nil hs.ne_nil, h.trim_eq hs.trim_eq⟩

/-- Both parts are missing, or the second is the first in lower case. -/
def PartLowers : Option String → Option String → Prop :=
  Option.Rel fun s t => Lowers s.toList t.toList

namespace PartLowers

variable {part low : Option String} {f : String → List Char}

theorem of_mem (h : PartLowers part low) {t : String} (ht : t ∈ low) :
    ∃ s ∈ part, Lowers s.toList t.toList := by
  cases h with
  | some h =>
    obtain rfl := Option.mem_some.mp ht
    exact ⟨_, rfl, h⟩
  | none => cases ht

/-- Delimiters stand in the one part where they stand in the other. -/
theorem forall_not_mem_iff (h : PartLowers part low) {m : Char} (hm : isDelimiter m = true) :
    (∀ t ∈ low, m ∉ t.toList) ↔ ∀ s ∈ part, m ∉ s.toList := by
  cases h with
  | some h => simp only [Option.mem_some_iff, forall_eq', h.mem_iff hm]
  | none => simp

theorem chars (hf : ∀ s t : String, Lowers s.toList t.toList → Lowers (f s) (f t))
    (h : PartLowers part low) : Lowers ((part.map f).getD []) ((low.map f).getD []) := by
  cases h with
  | some h => exact hf _ _ h
  | none => exact .nil

theorem exists_of_chars {ds : List Char}
    (hf : ∀ s ds, Lowers (f s) ds → ∃ t : String, Lowers s.toList t.toList ∧ f t = ds)
    (h : Lowers ((part.map f).getD []) ds) :
    ∃ low, PartLowers part low ∧ (low.map f).getD [] = ds := by
  cases part with
  | none =>
    cases h
    exact ⟨none, .none, rfl⟩
  | some s =>
    obtain ⟨t, ht, rfl⟩ := hf s ds h
    exact ⟨some t, .some ht, rfl⟩

end PartLowers
end Text

namespace Coordinate

open Text

/-- Every part of `d` is the part of `c` in lower case. -/
structure Lowers (c d : Coordinate) : Prop where
  ecosystem : Text.Lowers c.ecosystem.toList d.ecosystem.toList
  group : PartLowers c.group d.group
  name : Text.Lowers c.name.toList d.name.toList
  version : PartLowers c.version d.version

variable {s : String} {c d : Coordinate}

namespace Lowers

theorem isTidy (h : c.Lowers d) (hc : c.IsTidy) : d.IsTidy where
  ecosystem := by
    rintro _ ⟨⟩
    exact (hc.ecosystem _ rfl).lowers h.ecosystem
  group t ht := by
    obtain ⟨s, hs, hlow⟩ := h.group.of_mem ht
    exact (hc.group s hs).lowers hlow
  name := by
    rintro _ ⟨⟩
    exact (hc.name _ rfl).lowers h.name
  version t ht := by
    obtain ⟨s, hs, hlow⟩ := h.version.of_mem ht
    exact (hc.version s hs).lowers hlow

theorem isPlain_iff (h : c.Lowers d) : d.IsPlain ↔ c.IsPlain := by
  have hslash := h.name.mem_iff (by decide : isDelimiter '/' = true)
  have hat := h.name.mem_iff (by decide : isDelimiter '@' = true)
  have hversion := h.version.forall_not_mem_iff (by decide : isDelimiter '/' = true)
  exact ⟨fun ⟨hs, ha, hv⟩ => ⟨mt hslash.mpr hs, mt hat.mpr ha, hversion.mp hv⟩,
    fun ⟨hs, ha, hv⟩ => ⟨mt hslash.mp hs, mt hat.mp ha, hversion.mpr hv⟩⟩

theorem colon_mem_iff (h : c.Lowers d) : ':' ∈ d.ecosystem.toList ↔ ':' ∈ c.ecosystem.toList :=
  h.ecosystem.mem_iff (by decide)

theorem text (h : c.Lowers d) : Text.Lowers c.text.toList d.text.toList := by
  have hgroup := h.group.chars (f := fun g => g.toList ++ ['/']) fun _ _ hg =>
    hg.append (.mark (by decide) .nil)
  have hversion := h.version.chars (f := fun v => '@' :: v.toList) fun _ _ hv =>
    .mark (by decide) hv
  rw [toList_text, toList_text, toList_packageText, toList_packageText, nameChars, nameChars]
  exact h.ecosystem.append (.mark (by decide) (hgroup.append (h.name.append hversion)))

end Lowers

/-- What lower case makes of a canonical text is the canonical text of some coordinate. -/
theorem exists_lowers {ds : List Char} (h : Text.Lowers c.text.toList ds) :
    ∃ d, c.Lowers d ∧ d.text.toList = ds := by
  have hslash (s : String) (ds : List Char) (hs : Text.Lowers (s.toList ++ ['/']) ds) :
      ∃ t : String, Text.Lowers s.toList t.toList ∧ t.toList ++ ['/'] = ds := by
    obtain ⟨cs, _, rfl, hcs, hmark⟩ := hs.exists_of_append
    obtain ⟨_, rfl, ⟨⟩⟩ := hmark.exists_of_cons (by decide)
    exact ⟨String.ofList cs, by simpa using hcs, by simp⟩
  have hat (s : String) (ds : List Char) (hs : Text.Lowers ('@' :: s.toList) ds) :
      ∃ t : String, Text.Lowers s.toList t.toList ∧ '@' :: t.toList = ds := by
    obtain ⟨cs, rfl, hcs⟩ := hs.exists_of_cons (by decide)
    exact ⟨String.ofList cs, by simpa using hcs, by simp⟩
  rw [toList_text, toList_packageText, nameChars] at h
  obtain ⟨ecosystem, _, rfl, hecosystem, hcolon⟩ := h.exists_of_append
  obtain ⟨_, rfl, hpackage⟩ := hcolon.exists_of_cons (by decide)
  obtain ⟨_, _, rfl, hg, hrest⟩ := hpackage.exists_of_append
  obtain ⟨name, _, rfl, hname, hv⟩ := hrest.exists_of_append
  obtain ⟨group, hgroup, rfl⟩ := PartLowers.exists_of_chars hslash hg
  obtain ⟨version, hversion, rfl⟩ := PartLowers.exists_of_chars hat hv
  refine ⟨⟨String.ofList ecosystem, group, String.ofList name, version⟩,
    ⟨by simpa using hecosystem, hgroup, by simpa using hname, hversion⟩, ?_⟩
  simp [toList_text, toList_packageText, nameChars]

theorem isTidy_of_presentChars? (part : Option (List Char)) :
    ∀ s ∈ presentChars? part, Text.IsTidy s := by
  intro s hs
  obtain ⟨cs, -, hcs⟩ := Option.bind_eq_some_iff.mp hs
  exact isTidy_of_present? hcs

theorem isTidy_draftOf (ecosystem package : List Char) : (draftOf ecosystem package).IsTidy := by
  have hparts : draftOf ecosystem package = ⟨presentChars? (some ecosystem),
      presentChars? (splitGroup package).1,
      presentChars? (some (splitVersion (splitGroup package).2).1),
      presentChars? (splitVersion (splitGroup package).2).2⟩ := rfl
  rw [hparts]
  constructor <;> dsimp only <;> exact isTidy_of_presentChars? _

theorem of_ofText (h : ofText s = .ok c) : c.IsTidy ∧ c.IsPlain := by
  obtain ⟨ecosystem, package, -, hd⟩ := ofText_eq_ok_iff.mp h
  have htidy := isTidy_draftOf ecosystem package
  rw [hd] at htidy
  exact ⟨htidy, (of_draftOf_eq hd).2.1⟩

/-- The colon that ends the ecosystem is the first one. -/
theorem not_mem_ecosystem_of_ofText (h : ofText s = .ok c)
    (hpurl : ¬"pkg:".toList <+: trim s.toList) : ':' ∉ c.ecosystem.toList := by
  obtain ⟨ecosystem, package, hsplit, hd⟩ := ofText_eq_ok_iff.mp h
  rw [splitEcosystem?_of_not_purl hpurl] at hsplit
  rw [(of_draftOf_eq hd).1]
  exact fun hm => (eq_of_splitOnce? hsplit).2 (mem_of_mem_trim hm)

theorem Lowers.ecosystem_eq_pkg_iff (h : c.Lowers d) :
    d.ecosystem = "pkg" ↔ lowercase c.ecosystem = "pkg" := by
  have hlow := lowers_lowercase c.ecosystem
  constructor
  · intro hpkg
    rw [← hpkg, ← String.toList_inj]
    exact h.ecosystem.eq_of_not_sigma hlow (by simp [hpkg]) (by simp [hpkg])
  · intro hpkg
    rw [← hpkg, ← String.toList_inj]
    exact hlow.eq_of_not_sigma h.ecosystem (by simp [hpkg]) (by simp [hpkg])

/-- The cache key of the coordinate is read as the coordinate itself, in lower case. -/
structure KeyedAs (c low : Coordinate) : Prop where
  read : ofText c.cacheKey = .ok low
  lowers : c.Lowers low

theorem exists_keyedAs_iff (htidy : c.IsTidy) : (∃ low, c.KeyedAs low) ↔
    lowercase c.ecosystem ≠ "pkg" ∧ ':' ∉ c.ecosystem.toList ∧ c.IsPlain := by
  obtain ⟨low, hlow, hchars⟩ := exists_lowers (lowers_lowercase c.text)
  have hkey : low.text = c.cacheKey := String.toList_inj.mp hchars
  have hlowtidy := hlow.isTidy htidy
  rw [← hlow.ecosystem_eq_pkg_iff.ne, ← hlow.colon_mem_iff.not, ← hlow.isPlain_iff]
  constructor
  · rintro ⟨d, hread, hd⟩
    rw [← hkey] at hread
    -- Lower case has one length however the sigmas fall, and a package URL is cut shorter.
    have hpurl : ¬"pkg:".toList <+: trim low.text.toList := by
      intro hpurl
      have hlt := length_text_lt_of_purl hread hpurl
      rw [hlowtidy.trim_text, hd.text.length_eq hlow.text] at hlt
      exact Nat.lt_irrefl _ hlt
    refine ⟨fun hpkg => hpurl ⟨low.packageText.toList, ?_⟩, ?_, ?_⟩
    · rw [hlowtidy.trim_text, toList_text, hpkg]
      rfl
    · rw [hlow.colon_mem_iff, ← hd.colon_mem_iff]
      exact not_mem_ecosystem_of_ofText hread hpurl
    · rw [hlow.isPlain_iff, ← hd.isPlain_iff]
      exact (of_ofText hread).2
  · intro hplain
    exact ⟨low, hkey ▸ (ofText_text_iff hlowtidy).mpr hplain, hlow⟩

section

variable (h : ofText s = .ok c)
include h

theorem ofText_text_iff_of_ofText :
    ofText c.text = .ok c ↔ c.ecosystem ≠ "pkg" ∧ ':' ∉ c.ecosystem.toList := by
  obtain ⟨htidy, hplain⟩ := of_ofText h
  rw [ofText_text_iff htidy, and_iff_left hplain]

/-- Every coordinate that was read is read back from its canonical text or from its package URL. -/
theorem ofText_text_or_purl : ofText c.text = .ok c ∨ ofText c.purl = .ok c := by
  obtain ⟨htidy, hplain⟩ := of_ofText h
  obtain ⟨ecosystem, package, hsplit, hd⟩ := ofText_eq_ok_iff.mp h
  by_cases hpurl : "pkg:".toList <+: trim s.toList
  · refine Or.inr ((ofText_purl_iff htidy).mpr ⟨?_, hplain⟩)
    rw [(of_draftOf_eq hd).1]
    exact fun hm => (eq_of_splitEcosystem?_purl hpurl hsplit).2 (mem_of_mem_trim hm)
  · by_cases hpkg : c.ecosystem = "pkg"
    · exact Or.inr ((ofText_purl_iff htidy).mpr ⟨by rw [hpkg]; decide, hplain⟩)
    · exact Or.inl ((ofText_text_iff_of_ofText h).mpr
        ⟨hpkg, not_mem_ecosystem_of_ofText h hpurl⟩)

theorem ofText_cacheKey_iff : (∃ d, ofText c.cacheKey = .ok d ∧ c.Lowers d) ↔
    lowercase c.ecosystem ≠ "pkg" ∧ ':' ∉ c.ecosystem.toList := by
  obtain ⟨htidy, hplain⟩ := of_ofText h
  have hiff := exists_keyedAs_iff htidy
  rw [and_iff_left hplain] at hiff
  exact Iff.trans ⟨fun ⟨d, hread, hd⟩ => ⟨d, hread, hd⟩, fun ⟨d, hread, hd⟩ => ⟨d, hread, hd⟩⟩ hiff

/-- What was read is read again from its canonical text exactly if its ecosystem is not `pkg` and has
no colon, which only an ecosystem from a package URL can have. It is read from its cache key, in lower
case, exactly if the ecosystem in lower case is not `pkg` and has no colon. -/
theorem reads_again_iff :
    (ofText c.text = .ok c ↔ c.ecosystem ≠ "pkg" ∧ ':' ∉ c.ecosystem.toList) ∧
    (¬"pkg:".toList <+: trim s.toList → ':' ∉ c.ecosystem.toList) ∧
    ((∃ d, ofText c.cacheKey = .ok d ∧ c.Lowers d) ↔
      lowercase c.ecosystem ≠ "pkg" ∧ ':' ∉ c.ecosystem.toList) :=
  ⟨ofText_text_iff_of_ofText h, not_mem_ecosystem_of_ofText h, ofText_cacheKey_iff h⟩

end

/-- Blanks, and marks past the ecosystem, do no harm. -/
theorem reads_again_iff_odd :
    let c : Coordinate := ⟨"NPM", some "@Types/Node@20", "x:y", some "1"⟩
    ofText " pkg:NPM / @Types/Node@20 /x:y@1 " = .ok c ∧
      ofText "NPM:@Types/Node@20/x:y@1" = .ok c ∧
      ∃ d, ofText "npm:@types/node@20/x:y@1" = .ok d ∧ c.Lowers d := by
  intro c
  have h : ofText " pkg:NPM / @Types/Node@20 /x:y@1 " = .ok c := by decide +kernel
  have htext : c.text = "NPM:@Types/Node@20/x:y@1" := by decide +kernel
  have hkey : c.cacheKey = "npm:@types/node@20/x:y@1" := by decide +kernel
  rw [← htext, ← hkey]
  exact ⟨h, (reads_again_iff h).1.mpr (by decide),
    (reads_again_iff h).2.2.mpr ⟨by decide +kernel, by decide⟩⟩

/-- The canonical text of an ecosystem with a colon, or of one that is `pkg`, names another package. -/
theorem reads_another_package :
    let c : Coordinate := ⟨"npm:x", none, "lodash", some "1.0"⟩
    let d : Coordinate := ⟨"pkg", some "a", "b", some "1.0"⟩
    ofText "pkg:npm:x/lodash@1.0" = .ok c ∧
      ofText c.text = .ok ⟨"npm", none, "x:lodash", some "1.0"⟩ ∧
      ofText "pkg :a/b@1.0" = .ok d ∧ ofText d.text = .ok ⟨"a", none, "b", some "1.0"⟩ := by
  decide +kernel

end Coordinate
end DependencyAudit
