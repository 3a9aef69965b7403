import DependencyAudit.Audit
import DependencyAudit.Cache.Entry
import DependencyAudit.Cache.Rehearsal
import DependencyAudit.Cache.Store
import DependencyAudit.CommandLine.Arguments
import DependencyAudit.CommandLine.Program
import DependencyAudit.Coordinate.Basic
import DependencyAudit.Coordinate.Hash
import DependencyAudit.Coordinate.InclusionPath
import DependencyAudit.Coordinate.Matching
import DependencyAudit.Coordinate.Reading
import DependencyAudit.Decimal.Binary
import DependencyAudit.Decimal.Layout
import DependencyAudit.Decimal.Numeral
import DependencyAudit.Decimal.Shortest
import DependencyAudit.Disk.Basic
import DependencyAudit.Disk.Route
import DependencyAudit.Forest
import DependencyAudit.Json.Basic
import DependencyAudit.Json.Decoder
import DependencyAudit.Json.Reader
import DependencyAudit.Json.Writer
import DependencyAudit.Lookup.Batch
import DependencyAudit.Lookup.Run
import DependencyAudit.Lookup.Service
import DependencyAudit.Lookup.Transport
import DependencyAudit.Main
import DependencyAudit.Range.Basic
import DependencyAudit.Range.Bracketed
import DependencyAudit.Range.Comparator
import DependencyAudit.Range.Fault
import DependencyAudit.Range.Interval
import DependencyAudit.Remote.Base64
import DependencyAudit.Remote.Client
import DependencyAudit.Remote.Status
import DependencyAudit.Report.Basic
import DependencyAudit.Report.Score
import DependencyAudit.Report.ScoreText
import DependencyAudit.Report.Severity
import DependencyAudit.Report.Vulnerability
import DependencyAudit.Settings.Basic
import DependencyAudit.Settings.File
import DependencyAudit.Settings.Ignored
import DependencyAudit.Settings.Text
import DependencyAudit.Suppression.Exclusion
import DependencyAudit.Suppression.Rule
import DependencyAudit.Text.Blank
import DependencyAudit.Text.CaseTable
import DependencyAudit.Text.Lowercase
import DependencyAudit.Text.Number
import DependencyAudit.Text.Order
import DependencyAudit.Text.Quoted
import DependencyAudit.Text.Shown
import DependencyAudit.Text.Split
import DependencyAudit.Text.Unicode
import DependencyAudit.Timestamp
import DependencyAudit.Toml.Basic
import DependencyAudit.Toml.Numbers
import DependencyAudit.Toml.Reader
import DependencyAudit.Toml.Strings
import DependencyAudit.Toml.Writer
import DependencyAudit.Version.Basic
import DependencyAudit.Version.Order
import DependencyAudit.Version.Reading
import DependencyAudit.Proofs.Lookup.Assignment
import DependencyAudit.Proofs.Cache.View
import DependencyAudit.Proofs.Lookup.Reachable
import DependencyAudit.Proofs.Lookup.Exchange
import DependencyAudit.Proofs.Lookup.Misses
import DependencyAudit.Proofs.Lookup.Transparency
import DependencyAudit.Proofs.Lookup.Failure
import DependencyAudit.Proofs.Json.Reading
import DependencyAudit.Proofs.Json.Decoding
import DependencyAudit.Proofs.Decimal.Gap
import DependencyAudit.Proofs.Decimal.Layout
import DependencyAudit.Proofs.Decimal.Shortest
import DependencyAudit.Proofs.Decimal.Scaling
import DependencyAudit.Proofs.Decimal.Recovery
import DependencyAudit.Proofs.Report.Score
import DependencyAudit.Proofs.Report.Storage
import DependencyAudit.Proofs.Cache.Document
import DependencyAudit.Proofs.Disk.Places
import DependencyAudit.Proofs.Cache.FileView
import DependencyAudit.Proofs.Lookup.WarmCache
import DependencyAudit.Proofs.Lookup.Attribution
import DependencyAudit.Proofs.Lookup.Echoes
import DependencyAudit.Proofs.Instant
import DependencyAudit.Proofs.Cache.Session
import DependencyAudit.Proofs.Cache.Pruning
import DependencyAudit.Proofs.Cache.FileSession
import DependencyAudit.Proofs.Cache.Handles
import DependencyAudit.Proofs.Audit.Reachable
import DependencyAudit.Proofs.Audit.Registration
import DependencyAudit.Proofs.Suppression.Filtering
import DependencyAudit.Proofs.Audit.Report
import DependencyAudit.Proofs.Lookup.Throttled
import DependencyAudit.Proofs.Audit.RateLimit
import DependencyAudit.Proofs.Toml.Strings
import DependencyAudit.Proofs.Toml.Values
import DependencyAudit.Proofs.Toml.Documents
import DependencyAudit.Proofs.Toml.Tables
import DependencyAudit.Proofs.Settings.Text
import DependencyAudit.Proofs.Settings.File
import DependencyAudit.Proofs.Version.Order
import DependencyAudit.Proofs.Version.Neighbours
import DependencyAudit.Proofs.Range.Intersection
import DependencyAudit.Proofs.Version.Reading
import DependencyAudit.Proofs.Range.Bounds
import DependencyAudit.Proofs.Range.Gaps
import DependencyAudit.Proofs.Range.Alternatives
import DependencyAudit.Proofs.Range.Comparators
import DependencyAudit.Proofs.Range.Notations
import DependencyAudit.Proofs.Version.Scanning
import DependencyAudit.Proofs.Version.Numbers
import DependencyAudit.Proofs.Coordinate.Reading
import DependencyAudit.Proofs.Suppression.Narrowing
import DependencyAudit.Proofs.Cache.Recovery
import DependencyAudit.Proofs.Cache.Rehearsal
import DependencyAudit.Proofs.Cache.RoundTrip
import DependencyAudit.Proofs.Lookup.Calls
import DependencyAudit.Proofs.Version.Leniency
import DependencyAudit.Proofs.Version.PreRelease
import DependencyAudit.Proofs.Lookup.Shelves
import DependencyAudit.Proofs.Lookup.Requests
import DependencyAudit.Proofs.Range.Single
import DependencyAudit.Proofs.Range.Partition
import DependencyAudit.Proofs.Range.Compatible
import DependencyAudit.Proofs.Range.Wildcards
import DependencyAudit.Proofs.Range.Contradictions
import DependencyAudit.Proofs.Range.Unions
import DependencyAudit.Proofs.Version.Normal
import DependencyAudit.Proofs.Coordinate.Matching
import DependencyAudit.Proofs.Suppression.Runs
import DependencyAudit.Proofs.Coordinate.Stability
import DependencyAudit.Proofs.Suppression.Entries
import DependencyAudit.Proofs.Suppression.Inheritance
import DependencyAudit.Proofs.Settings.Ignored
import DependencyAudit.Proofs.Cache.Atomicity
import DependencyAudit.Proofs.Cache.Expiry
import DependencyAudit.Proofs.Report.Vector
import DependencyAudit.Proofs.Version.Qualifiers
