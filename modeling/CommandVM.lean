import CommandVM.Main
import CommandVM.Value.Debug
import CommandVM.Value.Handles
import CommandVM.Listing.Assembly
import CommandVM.Builder.History
import CommandVM.Builder.Edit
import CommandVM.Machine.Stack.Session
import CommandVM.Proofs.Machine.Variables
import CommandVM.Proofs.Verifier.Flow
import CommandVM.Proofs.Machine.Reads
import CommandVM.Proofs.Machine.Ordinary
import CommandVM.Proofs.Machine.Perform
import CommandVM.Proofs.Machine.Moves
import CommandVM.Proofs.ControlSafety
import CommandVM.Proofs.Machine.Isolation
import CommandVM.Proofs.AssignedDepth
import CommandVM.Proofs.DepthSoundness
import CommandVM.Proofs.LoopExit
import CommandVM.Proofs.CatchEntry
import CommandVM.Proofs.ListRoundTrip
import CommandVM.Proofs.ValueViews
import CommandVM.Proofs.Bytes
import CommandVM.Proofs.ContainerRoundTrip
import CommandVM.Proofs.CallIsolation
import CommandVM.Proofs.InstructionCodec
import CommandVM.Proofs.Listing.Tokens
import CommandVM.Proofs.Listing.Labels
import CommandVM.Proofs.Listing.Progress
import CommandVM.Proofs.Listing.Tables
import CommandVM.Proofs.Listing.Code
import CommandVM.Proofs.ListingRoundTrip
import CommandVM.Proofs.Builder.History
import CommandVM.Proofs.Builder.Finish
import CommandVM.Proofs.Listing.Operations
import CommandVM.Proofs.BuiltUnit
import CommandVM.Proofs.Handles.Pool
import CommandVM.Proofs.Handles.Views
import CommandVM.Proofs.Handles.Changes
import CommandVM.Proofs.CopyOnWrite
import CommandVM.Proofs.Variables.Scopes
import CommandVM.Proofs.Erasure.Values
import CommandVM.Proofs.Erasure.Store
import CommandVM.Proofs.Erasure.Actions
import CommandVM.Proofs.Erasure.Steps
import CommandVM.Proofs.Erasure.Runs
import CommandVM.Proofs.ContainerExecution
import CommandVM.Proofs.Machine.Fresh
import CommandVM.Proofs.Machine.Procedures
import CommandVM.Proofs.Machine.Sites
import CommandVM.Proofs.ProcedureIsolation
import CommandVM.Proofs.ErrorAttribution
import CommandVM.Proofs.BrokenCode
import CommandVM.Proofs.CanonicalContainer
import CommandVM.Proofs.InnermostRouting
import CommandVM.Proofs.DepthEquations
import CommandVM.Proofs.StackEffect
import CommandVM.Proofs.IntegerOperators
import CommandVM.Proofs.Numerals
import CommandVM.Proofs.NumberText
import CommandVM.Proofs.Representations
import CommandVM.Proofs.Machine.PlainVariables
import CommandVM.Proofs.Foreach.Step
import CommandVM.Proofs.Foreach.Execution
import CommandVM.Proofs.ForeachIteration
import CommandVM.Proofs.ForeachTermination
import CommandVM.Proofs.Variables.Callbacks
import CommandVM.Proofs.Variables.Growth
import CommandVM.Proofs.Variables.Unobserved
import CommandVM.Proofs.FailedAccess
import CommandVM.Proofs.Increment
import CommandVM.Proofs.Machine.Courses
import CommandVM.Proofs.Variables.Instructions
import CommandVM.Proofs.Variables.Reachable
import CommandVM.Proofs.AddressingPaths
import CommandVM.Proofs.Variables.Firings
import CommandVM.Proofs.ObserverReentrancy
import CommandVM.Proofs.FloorDivision
import CommandVM.Proofs.StackFloor
import CommandVM.Proofs.RefusedOperations
import CommandVM.Proofs.Builder.Depths
import CommandVM.Proofs.Verifier.Limit
import CommandVM.Proofs.TrackedDepth
import CommandVM.Proofs.StringTokens
import CommandVM.Proofs.NumberTokens
import CommandVM.Proofs.RandomSeeds
