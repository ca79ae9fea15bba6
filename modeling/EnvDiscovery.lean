import EnvDiscovery.Classify
import EnvDiscovery.CommandLine.Grammar
import EnvDiscovery.CommandLine.Parser
import EnvDiscovery.CommandLine.Render
import EnvDiscovery.CommandLine.Run
import EnvDiscovery.Config.Basic
import EnvDiscovery.Config.Load
import EnvDiscovery.Config.Reader
import EnvDiscovery.Decimal.Double
import EnvDiscovery.Decimal.Shortest
import EnvDiscovery.Digest.Blake3
import EnvDiscovery.Discovery.Composite
import EnvDiscovery.Discovery.EnvSet
import EnvDiscovery.Discovery.Session
import EnvDiscovery.Discovery.Setup
import EnvDiscovery.Discovery.Watching
import EnvDiscovery.Discovery.Workspace
import EnvDiscovery.Duration
import EnvDiscovery.Environment.Codec
import EnvDiscovery.Environment.Kind
import EnvDiscovery.Environment.Merge
import EnvDiscovery.Environment.Record
import EnvDiscovery.Environment.Source
import EnvDiscovery.Event.Change
import EnvDiscovery.Event.Emitter
import EnvDiscovery.Event.Notifier
import EnvDiscovery.Failure
import EnvDiscovery.FileSystem.Basic
import EnvDiscovery.FileSystem.Snapshot
import EnvDiscovery.FileSystem.Tree
import EnvDiscovery.Glob.Match
import EnvDiscovery.Glob.Pattern
import EnvDiscovery.Host
import EnvDiscovery.Json.Decoder
import EnvDiscovery.Json.Printer
import EnvDiscovery.Json.Record
import EnvDiscovery.Json.Text
import EnvDiscovery.Json.Value
import EnvDiscovery.Listing
import EnvDiscovery.Locator.Basic
import EnvDiscovery.Locator.Conda
import EnvDiscovery.Locator.Folders
import EnvDiscovery.Locator.Machine
import EnvDiscovery.Locator.Query
import EnvDiscovery.Locator.Registry
import EnvDiscovery.Locator.Scan
import EnvDiscovery.Logging
import EnvDiscovery.Main
import EnvDiscovery.Path.Basic
import EnvDiscovery.Path.Layout
import EnvDiscovery.Path.Normal
import EnvDiscovery.Process
import EnvDiscovery.Process.Table
import EnvDiscovery.Resolution.Cache
import EnvDiscovery.Resolution.Report
import EnvDiscovery.Resolution.Resolver
import EnvDiscovery.Script.Programs
import EnvDiscovery.Script.Run
import EnvDiscovery.Script.Syntax
import EnvDiscovery.Store.Basic
import EnvDiscovery.Store.Disk
import EnvDiscovery.Store.Scoped
import EnvDiscovery.Text.Ascii
import EnvDiscovery.Text.Blank
import EnvDiscovery.Text.Digit
import EnvDiscovery.Text.Lines
import EnvDiscovery.Text.Utf8
import EnvDiscovery.Time
import EnvDiscovery.Time.DateText
import EnvDiscovery.Version.Basic
import EnvDiscovery.Version.Reader
import EnvDiscovery.Yaml.Cursor
import EnvDiscovery.Yaml.Document
import EnvDiscovery.Yaml.Node
import EnvDiscovery.Yaml.Scalar
import EnvDiscovery.Yaml.Token
import EnvDiscovery.Proofs.Cache
import EnvDiscovery.Proofs.Codec
import EnvDiscovery.Proofs.DateText
import EnvDiscovery.Proofs.Digits
import EnvDiscovery.Proofs.EnvSet
import EnvDiscovery.Proofs.JsonText
import EnvDiscovery.Proofs.Merge
import EnvDiscovery.Proofs.Resolver
import EnvDiscovery.Proofs.Search
import EnvDiscovery.Proofs.Store
import EnvDiscovery.Proofs.Listed
import EnvDiscovery.Proofs.Places
import EnvDiscovery.Proofs.WorkspaceRuns
import EnvDiscovery.Proofs.Roots
import EnvDiscovery.Proofs.WorkspaceNews
import EnvDiscovery.Proofs.NativeRoots
import EnvDiscovery.Proofs.Entries
import EnvDiscovery.Proofs.Recognised
import EnvDiscovery.Proofs.Bridges
import EnvDiscovery.Proofs.KnownRecords
import EnvDiscovery.Proofs.Clusters
import EnvDiscovery.Proofs.KindFilter
import EnvDiscovery.Proofs.SharedInterpreters
import EnvDiscovery.Proofs.Freshness
import EnvDiscovery.Proofs.FolderEvents
import EnvDiscovery.Proofs.RecordCodec
import EnvDiscovery.Proofs.StoreRuns
import EnvDiscovery.Proofs.Commuting
import EnvDiscovery.Proofs.Listings
import EnvDiscovery.Proofs.Overlap
import EnvDiscovery.Proofs.CompletionOrder
import EnvDiscovery.Proofs.MergedDetails
import EnvDiscovery.Proofs.Spellings
import EnvDiscovery.Proofs.StrayBytes
import EnvDiscovery.Proofs.ShownNames
import EnvDiscovery.Proofs.GlobalReports
import EnvDiscovery.Proofs.WatchedFolders
import EnvDiscovery.Proofs.NormalPaths
import EnvDiscovery.Proofs.LexicalPlaces
import EnvDiscovery.Proofs.InnermostRoot
import EnvDiscovery.Proofs.Resolvedness
import EnvDiscovery.Proofs.VersionText
import EnvDiscovery.Proofs.VersionHints
import EnvDiscovery.Proofs.FileIdentity
import EnvDiscovery.Proofs.Occurrences
import EnvDiscovery.Proofs.RegistryListings
import EnvDiscovery.Proofs.RegistryInstalls
import EnvDiscovery.Proofs.WrittenRecords
import EnvDiscovery.Proofs.MarkedReports
import EnvDiscovery.Proofs.Histories
import EnvDiscovery.Proofs.Fires
import EnvDiscovery.Proofs.Delivery
import EnvDiscovery.Proofs.Layouts
import EnvDiscovery.Proofs.LoadedSettings
import EnvDiscovery.Proofs.SettingLines
import EnvDiscovery.Proofs.TimeSpans
import EnvDiscovery.Proofs.RelativePaths
import EnvDiscovery.Proofs.PatternReach
import EnvDiscovery.Proofs.WatchReach
import EnvDiscovery.Proofs.FirstSpellings
import EnvDiscovery.Proofs.StoreFolder
import EnvDiscovery.Proofs.OptionRows
import EnvDiscovery.Proofs.LongForm
