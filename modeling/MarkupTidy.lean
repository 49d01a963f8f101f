import MarkupTidy.Main
import MarkupTidy.Formatter.Desk
import MarkupTidy.Proofs.Formatter.Outcome
import MarkupTidy.Proofs.Formatter.Writes
import MarkupTidy.Proofs.Options.ArgumentVector
import MarkupTidy.Proofs.Toml.Inline
import MarkupTidy.Proofs.Toml.Cursor
import MarkupTidy.Proofs.Toml.Marks
import MarkupTidy.Proofs.Toml.Statements
import MarkupTidy.Proofs.Toml.Sections
import MarkupTidy.Proofs.Toml.LineEnds
import MarkupTidy.Proofs.Toml.RoundTrip
import MarkupTidy.Proofs.Text.Utf8
import MarkupTidy.Proofs.Toml.Accepted
import MarkupTidy.Proofs.Settings.Saved
import MarkupTidy.Proofs.Json.Objects
import MarkupTidy.Proofs.Resolver.OverrideFile
import MarkupTidy.Proofs.Resolver.Uncached
import MarkupTidy.Proofs.Resolver.Cache
import MarkupTidy.Proofs.Resolver.Interleaving
import MarkupTidy.Proofs.Options.LongNumbers
import MarkupTidy.Proofs.Options.MergeLaws
import MarkupTidy.Proofs.Files.Refusals
import MarkupTidy.Proofs.Formatter.Escapes
import MarkupTidy.Proofs.Resolver.Provenance
import MarkupTidy.Proofs.Formatter.InFlight
import MarkupTidy.Proofs.Formatter.Snapshot
import MarkupTidy.Proofs.Settings.Loaded
import MarkupTidy.Proofs.Settings.Reported
import MarkupTidy.Proofs.Options.Rederived
import MarkupTidy.Proofs.Options.FlagCounts
import MarkupTidy.Proofs.CommandLine.LintExit
import MarkupTidy.Proofs.CommandLine.Changes
import MarkupTidy.Proofs.Executable
import MarkupTidy.Proofs.CommandLine.Joined
import MarkupTidy.Proofs.CommandLine.PrintedInPlace
import MarkupTidy.Proofs.Options.Unsupported
import MarkupTidy.Proofs.Files.FileDocuments
import MarkupTidy.Proofs.Settings.AllOrNothing
import MarkupTidy.Proofs.Diagnostics
import MarkupTidy.Proofs.Options.TagsArgument
import MarkupTidy.Proofs.Formatter.Echo
import MarkupTidy.Proofs.Settings.HostValues
import MarkupTidy.Proofs.Settings.NullOptions
import MarkupTidy.Proofs.Formatter.Reasons
import MarkupTidy.Proofs.Options.Spellings
import MarkupTidy.Proofs.Options.Serialized
import MarkupTidy.Proofs.Resolver.NearestFile
import MarkupTidy.Proofs.Settings.SavedAgain
import MarkupTidy.Proofs.CommandLine.ControlledRoot
import MarkupTidy.Proofs.Formatter.EngineSearch
