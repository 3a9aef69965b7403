import DependencyAudit.Cache.Entry
import DependencyAudit.Proofs.Json.Decoding
import DependencyAudit.Proofs.Report.Score

/-! Reports are read back from the entries in which they are stored. -/
namespace DependencyAudit

open Decoder

namespace Vulnerability

theorem isClean_toJson (v : Vulnerability) : v.toJson.IsClean := by
  apply Json.isClean_record
  intro x hx
  simp only [List.mem_append, List.mem_cons, List.not_mem_nil, or_false] at hx
  rcases hx with ((((rfl | rfl | rfl | rfl) | hx) | hx) | hx)
  · exact Json.isClean_ofString _
  · exact Json.isClean_ofString _
  · exact Json.isClean_ofString _
  · exact v.score.isClean_toJson
  all_goals
    obtain ⟨s, -, hs⟩ := Option.map_eq_some_iff.mp (Json.mem_optional hx)
    exact hs ▸ Json.isClean_ofString s

/-- A finding with a finite score is read back as it was. -/
theorem decoder_toJson {v : Vulnerability} (h : v.score.isFinite = true) (depth : Depth) :
    decoder (depth + 1) v.toJson = .ok v := by
  obtain ⟨id, title, description, score, vector, cwe, reference⟩ := v
  have hscore := Score.decoder_toJson h depth
  cases vector <;> cases cwe <;> cases reference <;>
    simp [decoder, toJson, record, Json.record, Json.optional, Members.ofList, members, fields,
      required, defaulted, hscore, option, blank, Json.ofString, string, Except.map, bind,
      Except.bind, pure, Except.pure]

end Vulnerability

namespace PackageReport

/-- The count of findings is a number that is read, and the scores are finite. -/
structure Storable (p : PackageReport) : Prop where
  count_lt : p.unfilteredCount < Text.numberLimit
  finite : ∀ v ∈ p.vulnerabilities, v.score.isFinite = true

theorem isClean_toJson (p : PackageReport) : p.toJson.IsClean := by
  apply Json.isClean_record
  intro x hx
  simp only [members, List.mem_append, List.mem_cons, List.not_mem_nil, or_false] at hx
  rcases hx with (((rfl | hx) | hx) | (rfl | rfl))
  · exact Json.isClean_ofString _
  · obtain ⟨s, -, hs⟩ := Option.map_eq_some_iff.mp (Json.mem_optional hx)
    exact hs ▸ Json.isClean_ofString s
  · obtain ⟨s, -, hs⟩ := Option.map_eq_some_iff.mp (Json.mem_optional hx)
    exact hs ▸ Json.isClean_ofString s
  · exact Decimal.Numeral.isWritten_ofNat _
  · apply Json.isClean_ofList
    intro j hj
    obtain ⟨v, -, rfl⟩ := List.mem_map.mp hj
    exact v.isClean_toJson

theorem decoder_toJson {p : PackageReport} (h : p.Storable) (depth : Depth) :
    decoder (depth + 3) p.toJson = .ok p := by
  obtain ⟨coordinates, description, reference, count, vulnerabilities⟩ := p
  have hcount := natural_ofNat "usize" (depth + 2) h.count_lt
  have hlist : list Vulnerability.decoder (depth + 2)
      (.ofList (vulnerabilities.map (·.toJson))) = .ok vulnerabilities :=
    list_ofList fun v hv => Vulnerability.decoder_toJson (h.finite v hv) depth
  cases description <;> cases reference <;>
    simp [decoder, toJson, members, Decoder.members, record, Json.record, Json.optional,
      Members.ofList, fields, required, defaulted, hcount, hlist, option, blank, Json.ofString,
      string, Except.map, bind, Except.bind, pure, Except.pure]

end PackageReport

/-- An entry gives back the report that it was made of. -/
theorem Entry.report_ofReport {p : PackageReport} (h : p.Storable) (now : Timestamp) :
    (ofReport p now).report = .ok p := by
  rw [report, ofReport, decode_compact _ p.isClean_toJson]
  exact PackageReport.decoder_toJson h 124

/-- The entry holds a raw report since a point in time: its text is that of the report, and the report is
read back from it where it can be stored. -/
structure Entry.Holds (e : Entry) (p : PackageReport) (since : Timestamp) : Prop where
  value : e.value = p.toJson.compact
  createdAt : e.createdAt = since
  report : p.Storable → e.report = .ok p

theorem Entry.holds_ofReport (p : PackageReport) (now : Timestamp) : (ofReport p now).Holds p now :=
  ⟨rfl, rfl, fun h => report_ofReport h now⟩

theorem Entry.Holds.eq_ofReport {e : Entry} {p : PackageReport} {since : Timestamp}
    (h : e.Holds p since) : e = ofReport p since := by
  cases e
  rw [ofReport, ← h.value, ← h.createdAt]

end DependencyAudit
