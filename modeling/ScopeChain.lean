import ScopeChain.Archive.Container
import ScopeChain.Archive.Entries
import ScopeChain.Archive.Listing
import ScopeChain.Archive.Resolution
import ScopeChain.Archive.Source
import ScopeChain.Bytes
import ScopeChain.CommandLine.Answer
import ScopeChain.CommandLine.Help
import ScopeChain.CommandLine.Paths
import ScopeChain.CommandLine.Request
import ScopeChain.Config.Basic
import ScopeChain.Config.File
import ScopeChain.Config.FromToml
import ScopeChain.Config.Reader
import ScopeChain.Config.Stored
import ScopeChain.Digest.Sha256
import ScopeChain.Disk.Basic
import ScopeChain.Disk.Error
import ScopeChain.Json.Reader
import ScopeChain.Json.Record
import ScopeChain.Json.Token
import ScopeChain.Json.Value
import ScopeChain.LoadError
import ScopeChain.Loader.Basic
import ScopeChain.Loader.Bootstrap
import ScopeChain.Loader.Build
import ScopeChain.Loader.Cache
import ScopeChain.Loader.Crowd
import ScopeChain.Loader.Gates
import ScopeChain.Loader.Guarded
import ScopeChain.Loader.Index
import ScopeChain.Loader.Inquiry
import ScopeChain.Loader.Memory
import ScopeChain.Loader.Slot
import ScopeChain.Loader.Stage
import ScopeChain.Loader.Traffic
import ScopeChain.Main
import ScopeChain.Path
import ScopeChain.Proofs.Archive.Beside
import ScopeChain.Proofs.Archive.Completeness
import ScopeChain.Proofs.Archive.Confinement
import ScopeChain.Proofs.Archive.Extents
import ScopeChain.Proofs.Archive.Extraction
import ScopeChain.Proofs.Archive.Freshness
import ScopeChain.Proofs.Archive.Interchange
import ScopeChain.Proofs.Archive.Kinds
import ScopeChain.Proofs.Archive.Lists
import ScopeChain.Proofs.Archive.Names
import ScopeChain.Proofs.Archive.Opening
import ScopeChain.Proofs.Archive.Packing
import ScopeChain.Proofs.Archive.Parsing
import ScopeChain.Proofs.Archive.RoundTrip
import ScopeChain.Proofs.Archive.Spans
import ScopeChain.Proofs.Archive.Tables
import ScopeChain.Proofs.Cache.Quiet
import ScopeChain.Proofs.Cache.Usage
import ScopeChain.Proofs.Cache.Views
import ScopeChain.Proofs.CommandLine.Units
import ScopeChain.Proofs.CommandLine.Words
import ScopeChain.Proofs.Config.RoundTrip
import ScopeChain.Proofs.Crowd.Accounts
import ScopeChain.Proofs.Crowd.Alone
import ScopeChain.Proofs.Crowd.Assembly
import ScopeChain.Proofs.Crowd.BrokenOff
import ScopeChain.Proofs.Crowd.Gates
import ScopeChain.Proofs.Crowd.History
import ScopeChain.Proofs.Crowd.Isolation
import ScopeChain.Proofs.Crowd.Leftovers
import ScopeChain.Proofs.Crowd.Log
import ScopeChain.Proofs.Crowd.Order
import ScopeChain.Proofs.Crowd.Retention
import ScopeChain.Proofs.Crowd.SingleFlight
import ScopeChain.Proofs.Crowd.Steps
import ScopeChain.Proofs.Crowd.Traffic
import ScopeChain.Proofs.Crowd.Waiting
import ScopeChain.Proofs.Delegation.Agreement
import ScopeChain.Proofs.Delegation.Loads
import ScopeChain.Proofs.Delegation.Matches
import ScopeChain.Proofs.Delegation.Neighbours
import ScopeChain.Proofs.Delegation.Reference
import ScopeChain.Proofs.Delegation.Refinement
import ScopeChain.Proofs.Delegation.Resources
import ScopeChain.Proofs.Delegation.Transparency
import ScopeChain.Proofs.Delegation.Twins
import ScopeChain.Proofs.Disk.Changes
import ScopeChain.Proofs.Disk.Paths
import ScopeChain.Proofs.Disk.Shelves
import ScopeChain.Proofs.Disk.Tidy
import ScopeChain.Proofs.Disk.Walks
import ScopeChain.Proofs.Json.Literals
import ScopeChain.Proofs.Json.Records
import ScopeChain.Proofs.Json.Tokens
import ScopeChain.Proofs.Text.Encoding
import ScopeChain.Proofs.Text.Segments
import ScopeChain.Proofs.Unit.EntryPaths
import ScopeChain.Proofs.Unit.Lookup
import ScopeChain.Proofs.Unit.Stored
import ScopeChain.Resource
import ScopeChain.Table
import ScopeChain.Tar.Fault
import ScopeChain.Tar.Header
import ScopeChain.Tar.Records
import ScopeChain.Tar.Scan
import ScopeChain.Tar.Sparse
import ScopeChain.Text.Blank
import ScopeChain.Text.Hex
import ScopeChain.Text.Magnitude
import ScopeChain.Text.Numeral
import ScopeChain.Text.Printable
import ScopeChain.Text.Quoted
import ScopeChain.Text.Utf8
import ScopeChain.Toml.Document
import ScopeChain.Toml.Scalar
import ScopeChain.Toml.Text
import ScopeChain.Toml.Value
import ScopeChain.Unit.Basic
import ScopeChain.Unit.Json
import ScopeChain.Unit.Name
