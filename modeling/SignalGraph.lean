import SignalGraph.Main
import SignalGraph.Proofs.Analysis.Analysed
import SignalGraph.Proofs.Analysis.Building
import SignalGraph.Proofs.Analysis.ControlLoops
import SignalGraph.Proofs.Analysis.EntryPoints
import SignalGraph.Proofs.Analysis.Expansion.Declarations
import SignalGraph.Proofs.Analysis.Expansion.Environments
import SignalGraph.Proofs.Analysis.Expansion.Matches
import SignalGraph.Proofs.Analysis.Expansion.Nesting
import SignalGraph.Proofs.Analysis.Expansion.Rearranged
import SignalGraph.Proofs.Analysis.Expansion.Worklist
import SignalGraph.Proofs.Analysis.Invariance
import SignalGraph.Proofs.Analysis.MemoPoints
import SignalGraph.Proofs.Analysis.PointerChains
import SignalGraph.Proofs.Analysis.Preorder
import SignalGraph.Proofs.Analysis.Realized
import SignalGraph.Proofs.Analysis.SharedOutputs
import SignalGraph.Proofs.Analysis.Tallies
import SignalGraph.Proofs.Analysis.Tracing.Crossings
import SignalGraph.Proofs.Analysis.Tracing.DataTraces
import SignalGraph.Proofs.Analysis.Tracing.Feeding
import SignalGraph.Proofs.Analysis.Tracing.Unfolding
import SignalGraph.Proofs.Analysis.Tracing.Wires
import SignalGraph.Proofs.Analysis.VariableNames
import SignalGraph.Proofs.Analysis.Volatility
import SignalGraph.Proofs.Analysis.WellFormed
import SignalGraph.Proofs.Blocks.Added
import SignalGraph.Proofs.Blocks.Catalogs
import SignalGraph.Proofs.Blocks.Placement
import SignalGraph.Proofs.Blocks.TerminalRows
import SignalGraph.Proofs.Emission.Basic
import SignalGraph.Proofs.Emission.Confined
import SignalGraph.Proofs.Emission.Expressions
import SignalGraph.Proofs.Emission.Functions
import SignalGraph.Proofs.Emission.HostTypes
import SignalGraph.Proofs.Emission.KeptCode
import SignalGraph.Proofs.Emission.Lanes
import SignalGraph.Proofs.Emission.Layout
import SignalGraph.Proofs.Emission.OutlinedChains
import SignalGraph.Proofs.Emission.Pins
import SignalGraph.Proofs.Emission.Statements
import SignalGraph.Proofs.Emission.TotalCalls
import SignalGraph.Proofs.Emission.Validity
import SignalGraph.Proofs.Emulation.Actions
import SignalGraph.Proofs.Emulation.Basic
import SignalGraph.Proofs.Emulation.Calls
import SignalGraph.Proofs.Emulation.Chains
import SignalGraph.Proofs.Emulation.Equivalence
import SignalGraph.Proofs.Emulation.Expressions
import SignalGraph.Proofs.Emulation.Frames
import SignalGraph.Proofs.Emulation.Inputs
import SignalGraph.Proofs.Emulation.Memo
import SignalGraph.Proofs.Emulation.Operations
import SignalGraph.Proofs.Emulation.Statements
import SignalGraph.Proofs.Execution.Chains
import SignalGraph.Proofs.Execution.Depth
import SignalGraph.Proofs.Execution.Inputs
import SignalGraph.Proofs.Execution.KeptRuns
import SignalGraph.Proofs.Execution.Reached
import SignalGraph.Proofs.Execution.Soundness
import SignalGraph.Proofs.Execution.Statements
import SignalGraph.Proofs.Execution.Triples
import SignalGraph.Proofs.Execution.Values
import SignalGraph.Proofs.Instrumentation.Chronicle.Backends
import SignalGraph.Proofs.Instrumentation.Chronicle.LateUpdates
import SignalGraph.Proofs.Instrumentation.Chronicle.MemoReads
import SignalGraph.Proofs.Instrumentation.Chronicle.MenuItems
import SignalGraph.Proofs.Instrumentation.Chronicle.Pointers
import SignalGraph.Proofs.Instrumentation.Code
import SignalGraph.Proofs.Instrumentation.Fences.Basic
import SignalGraph.Proofs.Instrumentation.Fences.Code
import SignalGraph.Proofs.Instrumentation.Fences.Interference
import SignalGraph.Proofs.Instrumentation.Journal.Privacy
import SignalGraph.Proofs.Instrumentation.Labels.Sites
import SignalGraph.Proofs.Instrumentation.Ledger.Basic
import SignalGraph.Proofs.Instrumentation.Ledger.Calls
import SignalGraph.Proofs.Instrumentation.Ledger.Code
import SignalGraph.Proofs.Instrumentation.Ledger.Frames
import SignalGraph.Proofs.Instrumentation.Ledger.Memoization
import SignalGraph.Proofs.Instrumentation.Ledger.Runs
import SignalGraph.Proofs.Instrumentation.Ledger.Sessions
import SignalGraph.Proofs.Instrumentation.Mirrors
import SignalGraph.Proofs.Library.Order
import SignalGraph.Proofs.Library.Shadowing
import SignalGraph.Proofs.Search.Basic
import SignalGraph.Proofs.Search.Cycles
import SignalGraph.Proofs.Search.Sweeps
import SignalGraph.Proofs.Sketches.DrawnPrograms
import SignalGraph.Proofs.Stores.Reads
import SignalGraph.Proofs.Stores.Saved
import SignalGraph.Proofs.Stores.Typed
import SignalGraph.Proofs.Stores.Updates
import SignalGraph.Proofs.Wasm.BoundedRuns
import SignalGraph.Proofs.Wasm.CodeRuns
import SignalGraph.Proofs.Wasm.Confinement
import SignalGraph.Proofs.Wasm.StackTypes
import SignalGraph.Proofs.Wasm.WellTypedRuns
import SignalGraph.Sketch
