import DependencyAudit.Proofs.Cache.FileSession
import DependencyAudit.Proofs.Report.Storage

/-! Cached reports come back as they were: out of the entry that holds the text of a report, out of the
document that holds the entries, and out of both, where that text is a string within the document. -/
namespace DependencyAudit

namespace FileStore

variable {f : FileStore} {d d' : Disk} {es : Entries}

theorem entries_of_readText (hes : es.Kept) (h : d.readText f.route = .ok es.document) :
    f.entries d = .ok es := by
  simp only [entries, h, Entries.ofDocument_document hes]

/-- What an update has written into the file is read from it next. -/
theorem entries_after_update (hs : f.route.slash = false) (hg : f.Unguarded d)
    {change : Entries → Entries} (hc : (change (f.held d)).Kept) (h : f.update change d = (.ok (), d')) :
    f.entries d' = .ok (change (f.held d)) := by
  obtain ⟨-, ⟨es, hes⟩, -⟩ := entries_of_update hs hg h
  rw [hes, held_of_entries hs hes, held_of_update hs hc h]

end FileStore

namespace Entries

/-- A report is found in the document under its key, between whatever else is kept there. -/
theorem report_of_document {es : Entries} (hes : es.Kept) {p : PackageReport} (hp : p.Storable)
    {now : Timestamp} (hn : now.IsValid) (key : String) :
    ((ofDocument (es.put key (.ofReport p now)).document).get? key).map Entry.report =
      some (.ok p) := by
  have hput : (es.put key (.ofReport p now)).Kept := hes.put key hn
  rw [ofDocument_document hput, get?_put, if_pos rfl, Option.map_some, Entry.report_ofReport hp]

end Entries

/-- Whatever characters the texts hold, and whichever optional texts are there and empty: an entry
gives the report of which it was made, with the very same scores; a file that holds the document of
some entries gives these keys, values and times; and so does a file after entries were written into
it. A report is found again in a document, in the text of an entry. -/
theorem cached_data_round_trips :
    (∀ (p : PackageReport) (now : Timestamp), p.Storable →
      (Entry.ofReport p now).report = .ok p) ∧
    (∀ (f : FileStore) (d : Disk) (es : Entries), es.Kept →
      d.readText f.route = .ok es.document → f.entries d = .ok es) ∧
    (∀ (f : FileStore) (d d' : Disk) (es : Entries), es.Kept → f.route.slash = false →
      f.Unguarded d → f.update (fun _ => es) d = (.ok (), d') → f.entries d' = .ok es) ∧
    ∀ (es : Entries) (p : PackageReport) (now : Timestamp) (key : String), es.Kept → p.Storable →
      now.IsValid → ((Entries.ofDocument (es.put key (.ofReport p now)).document).get? key).map
        Entry.report = some (.ok p) :=
  ⟨fun _ now hp => Entry.report_ofReport hp now,
    fun _ _ _ hes h => FileStore.entries_of_readText hes h,
    fun _ _ _ _ hes hs hg h => FileStore.entries_after_update hs hg hes h,
    fun _ _ _ key hes hp hn => Entries.report_of_document hes hp hn key⟩

/-- Quotes, a backslash and control characters in the texts and in the keys, optional texts that are
there and empty, the score minus zero, and a leap second at the end of the year zero. -/
theorem cached_data_round_trips_odd :
    let p : PackageReport := ⟨"npm:\"a\\b\"\u0000\u001f", some "", none, 3,
      [{ Vulnerability.blank with id := "\u2028\n", score := ⟨0x80000000⟩, cwe := some "" },
        Vulnerability.blank]⟩
    let now : Timestamp := ⟨⟨0, 12, 31⟩, 86399, 1999999999⟩
    let es : Entries := ⟨[("", ⟨"\x7b", now⟩), ("\"\u0001é\"", .ofReport p now)]⟩
    let f : FileStore := ⟨"/c", .ofHours 12⟩
    let d : Disk := { Disk.empty with nodes := [(["c"], .file es.document.toUTF8)] }
    p.Storable ∧ es.Kept ∧ d.readText f.route = .ok es.document ∧
      (Entry.ofReport p now).report = .ok p ∧ f.entries d = .ok es ∧
      (∃ d', f.update (fun _ => es) d = (.ok (), d') ∧ f.entries d' = .ok es) ∧
      ((Entries.ofDocument (es.put "é" (.ofReport p now)).document).get? "é").map Entry.report =
        some (.ok p) := by
  intro p now es f d
  have hp : p.Storable := ⟨by decide, by decide⟩
  have hes : es.Kept := ⟨by decide +kernel, by decide +kernel⟩
  have hu : f.Usable d := by decide +kernel
  have hat : d.at? f.route = .ok (.file es.document.toUTF8) :=
    Disk.at?_eq_file_iff.mpr ⟨hu.file.slash, ["c"], by decide +kernel, rfl⟩
  have hread : d.readText f.route = .ok es.document :=
    Disk.readText_of_at? hat (hu.file.mono (by simp))
  have hg : f.Unguarded d := fun _ _ _ => List.not_mem_nil
  obtain ⟨d', hd'⟩ := FileStore.exists_update hu ⟨es.document, hat⟩ fun _ => es
  obtain ⟨hreport, hdocument, hupdate, hboth⟩ := cached_data_round_trips
  exact ⟨hp, hes, hread, hreport p now hp, hdocument f d es hes hread,
    ⟨d', hd', hupdate f d d' es hes hu.file.slash hg hd'⟩,
    hboth es p now "é" hes hp (by decide)⟩

end DependencyAudit
