import CacheScript.Main
import CacheScript.Node.Probe
import CacheScript.Files.Snapshot
import CacheScript.Dict.Sorted
import CacheScript.Double.Read
import CacheScript.Store.Concurrent
import CacheScript.WordSource
import CacheScript.Proofs.Node.Places
import CacheScript.Proofs.Run.Bindings
import CacheScript.Proofs.Run.Scopes
import CacheScript.Proofs.Run.Scoping
import CacheScript.Proofs.Concurrent.Acts
import CacheScript.Proofs.Concurrent.Invariant
import CacheScript.Proofs.Concurrent.Calls
import CacheScript.Proofs.Concurrent.Materialization
import CacheScript.Proofs.Concurrent.Progress
import CacheScript.Proofs.Concurrent.Together
import CacheScript.Proofs.Run.Visits
import CacheScript.Proofs.Run.Stopping
import CacheScript.Proofs.Json.Writes
import CacheScript.Proofs.Run.Writing
import CacheScript.Proofs.Node.Reads
import CacheScript.Proofs.Run.Likeness
import CacheScript.Proofs.Run.Reading
import CacheScript.Proofs.Node.Built
import CacheScript.Proofs.Run.Telling
import CacheScript.Proofs.Run.Watching
import CacheScript.Proofs.Concurrent.Ending
import CacheScript.Proofs.Concurrent.Guarding
import CacheScript.Proofs.Concurrent.Alone
import CacheScript.Proofs.Concurrent.Tending
import CacheScript.Proofs.Concurrent.Displacing
import CacheScript.Proofs.Store.Law
import CacheScript.Proofs.Store.Sessions
import CacheScript.Proofs.Run.Ordering
import CacheScript.Proofs.Run.Keeping
import CacheScript.Proofs.Store.Growing
import CacheScript.Proofs.Node.Faults
import CacheScript.Proofs.Run.Replaying
import CacheScript.Proofs.Run.Stacking
import CacheScript.Proofs.Run.Unwatched
import CacheScript.Proofs.Template.Cutting
import CacheScript.Proofs.Properties.Flattening
import CacheScript.Proofs.Value.Returning
import CacheScript.Proofs.Definition.Rereading
import CacheScript.Proofs.Run.Inlining
import CacheScript.Proofs.Directory.Confinement
import CacheScript.Proofs.Directory.Exporting
import CacheScript.Proofs.Run.Entering
import CacheScript.Proofs.WordSource.Layering
import CacheScript.Proofs.WordSource.Lists
import CacheScript.Proofs.WordSource.Files
import CacheScript.Proofs.CommandLine.Grouping
