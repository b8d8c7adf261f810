import TraceAtlas.Main
import TraceAtlas.Proofs.Chain.Checked
import TraceAtlas.Proofs.Chain.Cursors
import TraceAtlas.Proofs.Chain.Layout
import TraceAtlas.Proofs.Chain.Nesting
import TraceAtlas.Proofs.Chain.Skips
import TraceAtlas.Proofs.Lookup
import TraceAtlas.Proofs.Registry
import TraceAtlas.Proofs.Registry.Depths
import TraceAtlas.Proofs.Registry.Edits
import TraceAtlas.Proofs.Replay.Agreement
import TraceAtlas.Proofs.Replay.Claims
import TraceAtlas.Proofs.Replay.Edits
import TraceAtlas.Proofs.Replay.Reading
import TraceAtlas.Proofs.Replay.Refusals
import TraceAtlas.Proofs.Replay.Safety
import TraceAtlas.Proofs.Replay.Step
import TraceAtlas.Proofs.Session.Index
import TraceAtlas.Proofs.Session.Registry
import TraceAtlas.Session.Index
import TraceAtlas.Session.Registry
import TraceAtlas.Session.Replay
import TraceAtlas.Proofs.Session.Shared
import TraceAtlas.Proofs.Session.History
import TraceAtlas.Proofs.Index.Capacity
import TraceAtlas.Proofs.Session.Readers
import TraceAtlas.Proofs.Session.Capacity
import TraceAtlas.Proofs.Registry.Mutations
import TraceAtlas.Proofs.Session.Workbench
import TraceAtlas.Proofs.Session.Validity
import TraceAtlas.Proofs.Session.Chains
import TraceAtlas.Proofs.Session.Registration
import TraceAtlas.Proofs.Session.Tunings
import TraceAtlas.Proofs.Session.Writers
import TraceAtlas.Proofs.Registry.Clearing
import TraceAtlas.Proofs.Chain.Violations
import TraceAtlas.Proofs.Replay.Starts
import TraceAtlas.Proofs.Registry.Tracebacks
import TraceAtlas.Proofs.Index.Chunks
import TraceAtlas.Proofs.Text.Addresses
import TraceAtlas.Proofs.CommandLine.Decoding
import TraceAtlas.Proofs.CommandLine.Replaying
import TraceAtlas.Proofs.Index.Growth
import TraceAtlas.Proofs.Session.Growth
import TraceAtlas.Proofs.Text.SampleLines
