import Mathlib.Data.List.Nodup
import DependencyAudit.Proofs.Toml.Documents

/-! Lines of which no two have one name make up the tables that they list, in order. -/
namespace DependencyAudit.Toml

namespace Entries

variable {es es' : Entries} {name : String}

theorem get?_append (es es' : Entries) (name : String) :
    get? (es ++ es') name = (get? es name).or (get? es' name) := by
  simp only [get?, List.find?_append]
  cases es.find? (·.1 == name) <;> rfl

theorem get?_eq_none_iff : get? es name = none ↔ name ∉ es.map (·.1) := by
  simp only [get?, Option.map_eq_none_iff, List.find?_eq_none, beq_iff_eq, List.mem_map, not_exists,
    not_and]

theorem get?_last (h : name ∉ es.map (·.1)) (n : Node) : get? (es ++ [(name, n)]) name = some n := by
  rw [get?_append, get?_eq_none_iff.mpr h]
  simp [get?]

theorem put_new (h : name ∉ es.map (·.1)) (n : Node) : put es name n = es ++ [(name, n)] := by
  have hany : es.any (·.1 == name) = false := by
    rw [List.any_eq_false]
    intro x hx he
    exact h (List.mem_map.mpr ⟨x, hx, by simpa using he⟩)
  rw [put, hany]
  rfl

theorem put_last (h : name ∉ es.map (·.1)) (n n' : Node) :
    put (es ++ [(name, n)]) name n' = es ++ [(name, n')] := by
  have hother : ∀ f : String × Node → String × Node, (∀ x ∈ es, f x = x) → es.map f = es :=
    fun f hf => (List.map_congr_left hf).trans (List.map_id es)
  rw [put, if_pos (by simp), List.map_append, hother]
  · simp
  · rintro ⟨k, x⟩ hx
    have hne : k ≠ name := by
      rintro rfl
      exact h (List.mem_map.mpr ⟨_, hx, rfl⟩)
    simp [hne]

end Entries

/-- Each entry on a line of its own. -/
def pairsOf (es : Entries) : List Pair := es.map fun (name, n) => ([name], n)

theorem addPairs_pairsOf {es es' : Entries} (h : ((es ++ es').map (·.1)).Nodup) :
    addPairs (pairsOf es') es = some (es ++ es') := by
  induction es' generalizing es with
  | nil => simp [addPairs, pairsOf]
  | cons x es' ih =>
    obtain ⟨name, n⟩ := x
    have hnew : name ∉ es.map (·.1) := by
      rw [List.map_append, List.nodup_append] at h
      intro hm
      exact h.2.2 name hm name (by simp) rfl
    have hadd : Entries.addDotted n [name] es = some (es ++ [(name, n)]) := by
      simp [Entries.addDotted, Entries.get?_eq_none_iff.mpr hnew, Entries.put_new hnew]
    have hnodup : (((es ++ [(name, n)]) ++ es').map (·.1)).Nodup := by simpa using h
    have ih := ih hnodup
    simp only [addPairs, pairsOf, List.map_cons, List.foldlM_cons, hadd, Option.bind_eq_bind,
      Option.bind_some] at ih ⊢
    rw [ih, List.append_assoc]
    rfl

/-- The table of a header in brackets. -/
theorem addTo_table {es inner : Entries} {name : String} (hnew : name ∉ es.map (·.1))
    (hi : (inner.map (·.1)).Nodup) :
    (Section.mk [name] false (pairsOf inner)).addTo es = some (es ++ [(name, .table .header inner)]) := by
  have hpairs : addPairs (pairsOf inner) [] = some inner := addPairs_pairsOf (by simpa using hi)
  simp [Section.addTo, Entries.under, Section.defineTable, Entries.get?_eq_none_iff.mpr hnew, hpairs,
    Entries.put_new hnew]

/-- The tables of headers in double brackets, after some that are there. -/
theorem addTo_elements {es : Entries} {name : String} (hnew : name ∉ es.map (·.1))
    {inners : List Entries} (hi : ∀ inner ∈ inners, (inner.map (·.1)).Nodup) (before : List Entries) :
    (inners.map fun inner => Section.mk [name] true (pairsOf inner)).foldlM
        (fun es s => s.addTo es) (es ++ [(name, .tables before)]) =
      some (es ++ [(name, .tables (before ++ inners))]) := by
  induction inners generalizing before with
  | nil => simp
  | cons inner inners ih =>
    have hpairs : addPairs (pairsOf inner) [] = some inner :=
      addPairs_pairsOf (by simpa using hi inner List.mem_cons_self)
    have hadd : (Section.mk [name] true (pairsOf inner)).addTo (es ++ [(name, .tables before)]) =
        some (es ++ [(name, .tables (before ++ [inner]))]) := by
      simp [Section.addTo, Entries.under, Section.addElement, Entries.get?_last hnew, hpairs,
        Entries.put_last hnew]
    have ih := ih (fun inner h => hi inner (List.mem_cons_of_mem _ h)) (before ++ [inner])
    rw [List.map_cons, List.foldlM_cons, hadd]
    simpa using ih

/-- The tables of headers in double brackets, of which there are some. -/
theorem addTo_elements_new {es : Entries} {name : String} (hnew : name ∉ es.map (·.1))
    {inners : List Entries} (hi : ∀ inner ∈ inners, (inner.map (·.1)).Nodup) (hne : inners ≠ []) :
    (inners.map fun inner => Section.mk [name] true (pairsOf inner)).foldlM
        (fun es s => s.addTo es) es = some (es ++ [(name, .tables inners)]) := by
  obtain ⟨inner, inners, rfl⟩ := List.exists_cons_of_ne_nil hne
  have hpairs : addPairs (pairsOf inner) [] = some inner :=
    addPairs_pairsOf (by simpa using hi inner List.mem_cons_self)
  have hadd : (Section.mk [name] true (pairsOf inner)).addTo es =
      some (es ++ [(name, .tables [inner])]) := by
    simp [Section.addTo, Entries.under, Section.addElement, Entries.get?_eq_none_iff.mpr hnew, hpairs,
      Entries.put_new hnew]
  have hrest := addTo_elements hnew (fun inner h => hi inner (List.mem_cons_of_mem _ h)) [inner]
  rw [List.map_cons, List.foldlM_cons, hadd]
  exact hrest

/-- The header and the lines of a section. -/
def sectionLines (s : Section) : List Line := .header s.path s.isElement :: s.pairs.map .pair

theorem group_pairs (pairs : List Pair) (ls : List Line) :
    group (pairs.map .pair ++ ls) = (pairs ++ (group ls).1, (group ls).2) := by
  induction pairs with
  | nil => rfl
  | cons p pairs ih => simp [group, ih]

theorem group_sections (sections : List Section) :
    group (sections.flatMap sectionLines) = ([], sections) := by
  induction sections with
  | nil => rfl
  | cons s sections ih => simp [sectionLines, group, group_pairs, ih]

/-- A document is read back as its entries and its tables. -/
theorem ofText_of_spells {text : List Char} {es : Entries} {sections : List Section}
    (h : Spells text ((pairsOf es).map .pair ++ sections.flatMap sectionLines))
    (hmark : dropMark text = text) (hn : (es.map (·.1)).Nodup) :
    ofText (String.ofList text) = sections.foldlM (fun es s => s.addTo es) es := by
  have hpairs : addPairs (pairsOf es) [] = some es := addPairs_pairsOf (by simpa using hn)
  have hlines := h.lines_eq (Nat.lt_succ_self _)
  rw [ofText, String.toList_ofList, hmark, hlines]
  simp only [Option.bind_eq_bind, Option.bind_some, group_pairs, group_sections, List.append_nil,
    assemble, hpairs]

end DependencyAudit.Toml
