import CallEffects.Architecture
import CallEffects.Artifacts
import CallEffects.Callee
import CallEffects.CommandLine
import CallEffects.CommandLine.Arguments
import CallEffects.CommandLine.Report
import CallEffects.Configuration
import CallEffects.Constants
import CallEffects.Constants.Propagation
import CallEffects.Convention
import CallEffects.Convention.Registry
import CallEffects.Description
import CallEffects.Description.Reader
import CallEffects.Detector
import CallEffects.Error
import CallEffects.Function
import CallEffects.Guarded
import CallEffects.Hook
import CallEffects.Instruction
import CallEffects.Instrumentation
import CallEffects.Json.Basic
import CallEffects.Json.Printer
import CallEffects.Json.Range
import CallEffects.Json.Reader
import CallEffects.JsonForm.Calling
import CallEffects.JsonForm.Code
import CallEffects.JsonForm.Record
import CallEffects.JsonForm.Session
import CallEffects.Location
import CallEffects.Location.Reader
import CallEffects.Main
import CallEffects.Ownership
import CallEffects.Program
import CallEffects.PseudoSource
import CallEffects.Ranking
import CallEffects.Register
import CallEffects.Round
import CallEffects.Schedule
import CallEffects.Signature
import CallEffects.Signature.Registry
import CallEffects.Snapshot
import CallEffects.Statement
import CallEffects.Text.Blank
import CallEffects.Text.Case
import CallEffects.Text.Graphic
import CallEffects.Text.Number
import CallEffects.Text.Quoted
import CallEffects.Workspace
import CallEffects.Proofs.Body
import CallEffects.Proofs.Edit
import CallEffects.Proofs.Frames
import CallEffects.Proofs.History
import CallEffects.Proofs.Building
import CallEffects.Proofs.Coherence
import CallEffects.Proofs.ConstantOrder
import CallEffects.Proofs.Convergence
import CallEffects.Proofs.Execution
import CallEffects.Proofs.Emission
import CallEffects.Proofs.Quiet
import CallEffects.Proofs.Fixpoint
import CallEffects.Proofs.Recognition
import CallEffects.Proofs.Locality
import CallEffects.Proofs.Rounds
import CallEffects.Proofs.Alternation
import CallEffects.Proofs.Answers
import CallEffects.Proofs.Likeness
import CallEffects.Proofs.Repetition
import CallEffects.Proofs.VisitOrder
import CallEffects.Proofs.Replay
import CallEffects.Proofs.Identity
import CallEffects.Proofs.Upkeep
import CallEffects.Proofs.Partition
import CallEffects.Proofs.Footing
import CallEffects.Proofs.Validity
import CallEffects.Proofs.Commutation
import CallEffects.Proofs.Termination
import CallEffects.Proofs.Clobbering
import CallEffects.Proofs.Enrichment
import CallEffects.Proofs.Counts
import CallEffects.Proofs.Legibility
import CallEffects.Proofs.BlockOrder
import CallEffects.Proofs.EditKinds
import CallEffects.Proofs.Listing
import CallEffects.Proofs.Recollection
import CallEffects.Proofs.Covering
import CallEffects.Proofs.Revisions
