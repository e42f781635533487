import SignalGraph.Compiler.Emit
import SignalGraph.Wasm.Encoding
import SignalGraph.Wasm.Typing

/-!
# Compilation

The module of a program.  It exports a function that runs a frame, one that runs the body of a late
task, and one for each memo point that returns its value and computes it at most once in a frame.
A statement that several control wires lead to has a function of its own, which is not exported.
-/

namespace SignalGraph
namespace Compiler

open Wasm

def frameName : String := "run_frame"

def lateName : String := "run_late"

def memoName (id : MemoId) : String := "memo_" ++ toString id

def predecessors (p : Program) (id : NodeId) : Nat :=
  (p.nodes.toList.flatMap fun n => n.controls.flatten).count id

/-- The statements that more than one control wire leads to. -/
def converging (p : Program) : List NodeId :=
  (List.range p.nodes.size).filter fun id => 1 < predecessors p id

def target (p : Program) : Target := { program := p, outlined := converging p }

def function (type : FunctionType) (code : Emit Code) : Except Fault Function := do
  let (body, locals) ← code.run { params := type.params.length }
  return { type, locals := locals.types, body }

/-- Counts the frame, then runs every entry point. -/
def frameCode (x : Target) : Emit Code := do
  let chains ← x.program.entryPoints.mapM fun entry => chainCode x [entry]
  return [.globalGet Target.frameGlobal, int 1, .numeric .i32Add,
    .globalSet Target.frameGlobal] ++ chains.flatten

/-- Runs the body of the late task whose number is the parameter. -/
def lateCode (x : Target) : Emit Code := do
  let bodies ← x.program.lateNodes.mapM fun i => do
    let n ← x.program.node i
    let body ← branch (chainCode x) n 0
    return [.localGet 0, id i, .numeric .i32Eq, .when body]
  return bodies.flatten

def cacheGlobals (x : Target) (i : MemoId) (m : MemoPoint) : List Nat :=
  List.range' (x.stampGlobal i + 1) m.type.lanes.length

/-- Computes the memo point if its stamp is not the current frame, then returns its lanes. -/
def memoCode (x : Target) (i : MemoId) (m : MemoPoint) : Emit Code := do
  let stamp := x.stampGlobal i
  let cache := cacheGlobals x i m
  let code ← produce x.program (x.program.nodes.size + 1) m.source
  return [.globalGet stamp, .globalGet Target.frameGlobal, .numeric .i32Ne,
    .when (code ++ cache.reverse.map .globalSet ++
      [.globalGet Target.frameGlobal, .globalSet stamp])] ++ cache.map .globalGet

def outlinedCode (x : Target) (i : NodeId) : Emit Code := do
  let n ← x.program.node i
  let code ← node x (chainCode x) i n
  return code ++ (← chainCode x n.after)

def plain : FunctionType := { params := [], results := [] }

def functions (x : Target) : Except Fault (List Function) := do
  let frame ← function plain (frameCode x)
  let late ← function { params := [.i32], results := [] } (lateCode x)
  let memos ← x.program.memoPoints.zipIdx.mapM fun (m, i) =>
    function { params := [], results := m.type.lanes } (memoCode x i m)
  let outlined ← x.outlined.mapM fun i => function plain (outlinedCode x i)
  return frame :: late :: memos ++ outlined

/-- The frame count, and for each memo point a stamp that is no frame yet and its lanes. -/
def globals (p : Program) : List Lane :=
  .i32 0 :: p.memoPoints.flatMap fun m => .i32 (-1) :: m.type.lanes.map LaneType.zero

def exports (p : Program) : List (String × Nat) :=
  (frameName, Target.frameFunction) :: (lateName, Target.lateFunction) ::
    (List.range p.memoPoints.length).map fun i => (memoName i, Target.memoFunction i)

def compile (p : Program) : Except Fault Module := do
  return {
    imports := (Import.table.map Import.declaration).toArray
    functions := (← functions (target p)).toArray
    globals := globals p
    exports := exports p }

end Compiler
end SignalGraph
