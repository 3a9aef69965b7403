import DependencyAudit.Cache.Entry
import DependencyAudit.Proofs.Timestamp

/-! Entries are read back from the document in which they are kept. -/
namespace DependencyAudit

namespace Text

theorem order_trans {a b c : String} (h : order a b = .lt) (h' : order b c = .lt) :
    order a c = .lt := by
  unfold order at *
  exact Std.TransCmp.lt_trans h h'

theorem order_gt_iff {a b : String} : order a b = .gt ↔ order b a = .lt := by
  unfold order
  exact Std.OrientedCmp.gt_iff_lt

theorem isEmpty_trim_cons {c : Char} (h : isBlank c = false) (cs : List Char) :
    (trim (c :: cs)).isEmpty = false := by
  rw [trim, trimStart_cons h, trimEnd, List.isEmpty_eq_false_iff, ne_eq, List.reverse_eq_nil_iff,
    List.dropWhile_eq_nil_iff]
  intro hb
  have := hb c (by simp)
  simp [h] at this

theorem order_self (a : String) : order a a = .eq := order_eq_eq_iff.mpr rfl

end Text

namespace Entry

theorem isClean_toJson (e : Entry) : e.toJson.IsClean := by
  apply Json.isClean_record
  intro x hx
  simp only [List.mem_cons, List.not_mem_nil, or_false] at hx
  rcases hx with rfl | rfl <;> exact Json.isClean_ofString _

theorem decoder_toJson {e : Entry} (h : e.createdAt.IsValid) (depth : Depth) :
    decoder (depth + 1) e.toJson = .ok e := by
  obtain ⟨value, createdAt⟩ := e
  have ht := Timestamp.decoder_toJson h depth
  simp [decoder, toJson, Decoder.record, Json.record, Members.ofList, Decoder.members, fields,
    Decoder.required, ht, Except.map, bind, Except.bind, pure, Except.pure]

theorem isValid_of_decoder {depth : Depth} {j : Json} {e : Entry} (h : decoder depth j = .ok e) :
    e.createdAt.IsValid := by
  refine Decoder.of_record (P := fun e : Entry => e.createdAt.IsValid) ?_ (by decide) h
  intro field hf
  simp only [fields, List.mem_cons, List.not_mem_nil, or_false] at hf
  rcases hf with rfl | rfl
  · exact Decoder.Field.keeps_required fun _ _ _ _ he _ => he
  · exact Decoder.Field.keeps_required fun _ _ _ _ _ ht => Timestamp.isValid_of_decoder ht

end Entry

namespace Entries

/-- Every key stands once, in order, and every time is one that can be written. -/
structure Kept (es : Entries) : Prop where
  sorted : es.pairs.Pairwise fun x y => Text.order x.1 y.1 = .lt
  valid : ∀ x ∈ es.pairs, x.2.createdAt.IsValid

theorem mem_insert {key : String} {e : Entry} {ps : List (String × Entry)} {x : String × Entry}
    (h : x ∈ insert key e ps) : x = (key, e) ∨ x ∈ ps := by
  induction ps with
  | nil => simpa [insert] using h
  | cons p ps ih =>
    simp only [insert] at h
    split at h
    · simpa using h
    · rcases List.mem_cons.mp h with rfl | h
      · exact Or.inl rfl
      · exact Or.inr (List.mem_cons_of_mem _ h)
    · rcases List.mem_cons.mp h with rfl | h
      · exact Or.inr List.mem_cons_self
      · exact (ih h).imp_right (List.mem_cons_of_mem _)

theorem sorted_insert (key : String) (e : Entry) {ps : List (String × Entry)}
    (h : ps.Pairwise fun x y => Text.order x.1 y.1 = .lt) :
    (insert key e ps).Pairwise fun x y => Text.order x.1 y.1 = .lt := by
  induction ps with
  | nil => simp [insert]
  | cons p ps ih =>
    obtain ⟨hp, hs⟩ := List.pairwise_cons.mp h
    simp only [insert]
    split
    · rename_i ho
      refine List.pairwise_cons.mpr ⟨fun x hx => ?_, h⟩
      rcases List.mem_cons.mp hx with rfl | hx
      · exact ho
      · exact Text.order_trans ho (hp x hx)
    · rename_i ho
      obtain rfl := Text.order_eq_eq_iff.mp ho
      exact List.pairwise_cons.mpr ⟨hp, hs⟩
    · rename_i ho
      refine List.pairwise_cons.mpr ⟨fun x hx => ?_, ih hs⟩
      rcases mem_insert hx with rfl | hx
      · exact Text.order_gt_iff.mp ho
      · exact hp x hx

theorem kept_empty : Kept empty := ⟨List.Pairwise.nil, by simp [empty]⟩

theorem Kept.put {es : Entries} (h : es.Kept) (key : String) {e : Entry}
    (he : e.createdAt.IsValid) : (es.put key e).Kept := by
  refine ⟨sorted_insert key e h.sorted, fun x hx => ?_⟩
  rcases mem_insert hx with rfl | hx
  · exact he
  · exact h.valid x hx

theorem Kept.putAll {es : Entries} (h : es.Kept) {pairs : List (String × Entry)}
    (hp : ∀ x ∈ pairs, x.2.createdAt.IsValid) : (es.putAll pairs).Kept := by
  induction pairs generalizing es with
  | nil => exact h
  | cons x pairs ih =>
    exact ih (h.put x.1 (hp x List.mem_cons_self)) fun y hy => hp y (List.mem_cons_of_mem _ hy)

theorem Kept.live {es : Entries} (h : es.Kept) (lifetime : Lifetime) (now : Timestamp) :
    (es.live lifetime now).Kept :=
  ⟨h.sorted.sublist List.filter_sublist, fun x hx => h.valid x (List.mem_of_mem_filter hx)⟩

/-- Dropping what has expired leaves the other entries under their keys. -/
theorem Kept.get?_live {es : Entries} (h : es.Kept) (lifetime : Lifetime) (now : Timestamp)
    (key : String) : (es.live lifetime now).get? key = es.getLive? lifetime now key := by
  obtain ⟨pairs⟩ := es
  have hs := h.sorted
  simp only [Entries.live, Entries.getLive?, get?]
  clear h
  induction pairs with
  | nil => rfl
  | cons x pairs ih =>
    obtain ⟨hx, hs⟩ := List.pairwise_cons.mp hs
    by_cases hk : x.1 = key
    · have hnone : pairs.find? (·.1 == key) = none := by
        rw [List.find?_eq_none]
        intro y hy he
        have := hx y hy
        rw [hk, ← beq_iff_eq.mp he, Text.order_self] at this
        cases this
      have hfilter : (pairs.filter fun y => !y.2.isExpired lifetime now).find? (·.1 == key) = none := by
        rw [List.find?_eq_none] at hnone ⊢
        exact fun y hy => hnone y (List.mem_of_mem_filter hy)
      cases he : x.2.isExpired lifetime now <;> simp [he, hk, hfilter, Option.filter_some]
    · rw [List.find?_cons_of_neg (by simpa using hk), ← ih hs]
      cases he : x.2.isExpired lifetime now <;> simp [he, hk]

theorem insert_last {key : String} (e : Entry) {ps : List (String × Entry)}
    (h : ∀ x ∈ ps, Text.order x.1 key = .lt) : insert key e ps = ps ++ [(key, e)] := by
  induction ps with
  | nil => rfl
  | cons p ps ih =>
    have ho := Text.order_gt_iff.mpr (h p List.mem_cons_self)
    have hs := ih fun x hx => h x (List.mem_cons_of_mem _ hx)
    simp only [insert, ho, hs, List.cons_append]

theorem putAll_of_sorted (ps qs : List (String × Entry))
    (h : (ps ++ qs).Pairwise fun x y => Text.order x.1 y.1 = .lt) :
    putAll ⟨ps⟩ qs = ⟨ps ++ qs⟩ := by
  induction qs generalizing ps with
  | nil => simp [Entries.putAll]
  | cons q qs ih =>
    have hlast : insert q.1 q.2 ps = ps ++ [q] := insert_last q.2 fun x hx =>
      (List.pairwise_append.mp h).2.2 x hx q List.mem_cons_self
    have hrest := ih (ps ++ [q]) (by simpa using h)
    rw [List.append_assoc] at hrest
    rw [Entries.putAll, List.foldl_cons]
    simp only [Entries.put, hlast]
    exact hrest

theorem isClean_documentJson (es : Entries) : es.documentJson.IsClean := by
  apply Json.isClean_record
  intro x hx
  obtain rfl := List.mem_singleton.mp hx
  apply Json.isClean_record
  intro y hy
  obtain ⟨z, -, rfl⟩ := List.mem_map.mp hy
  exact z.2.isClean_toJson

/-- The entries that a document was made of are those that it gives. -/
theorem ofDocument_document {es : Entries} (h : es.Kept) : ofDocument es.document = es := by
  have hdictionary : Decoder.dictionary Entry.decoder 126
      (.record (es.pairs.map fun x => (x.1, x.2.toJson))) = .ok es.pairs :=
    Decoder.dictionary_record fun x hx => Entry.decoder_toJson (h.valid x hx) 124
  have hput : empty.putAll es.pairs = es := putAll_of_sorted [] es.pairs h.sorted
  have hdecode : documentDecoder.decode es.document = .ok es := by
    rw [document, Decoder.decode_compact _ es.isClean_documentJson]
    simp only [Json.record] at hdictionary
    simp [documentDecoder, documentJson, Decoder.greatestDepth, Decoder.record, Json.record,
      Members.ofList, Decoder.members, Decoder.defaulted, hdictionary, hput, Except.map, bind,
      Except.bind, pure, Except.pure]
  have hstart : (Text.trim es.document.toList).isEmpty = false := by
    rw [document, Json.compact, String.toList_ofList]
    exact Text.isEmpty_trim_cons (by decide : Text.isBlank '\x7b' = false) _
  simp [ofDocument, hstart, hdecode]

theorem kept_of_documentDecoder {depth : Depth} {j : Json} {es : Entries}
    (h : documentDecoder depth j = .ok es) : es.Kept := by
  refine Decoder.of_record ?_ kept_empty h
  intro field hf
  obtain rfl := List.mem_singleton.mp hf
  exact Decoder.Field.keeps_defaulted fun _ _ pairs _ _ hp =>
    kept_empty.putAll (Decoder.of_dictionary (fun _ _ _ he => Entry.isValid_of_decoder he) hp)

/-- Whatever a file holds, the entries read from it can be kept. -/
theorem kept_ofDocument (text : String) : (ofDocument text).Kept := by
  unfold ofDocument
  split
  · exact kept_empty
  · split
    · rename_i h
      obtain ⟨j, hj⟩ := Decoder.exists_of_decode h
      exact kept_of_documentDecoder hj
    · exact kept_empty

end Entries
end DependencyAudit
