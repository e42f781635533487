import SignalGraph.Engine.Request
import SignalGraph.Run.Stores

/-!
# Worlds

What a running program changes: the engine, its variables, its state, and the queue of statements
whose bodies wait for the physics step.
-/

namespace SignalGraph

structure World (σ : Type) where
  engine : σ
  vars : VariableStore
  slots : SlotStore
  late : Array NodeId := #[]

namespace World

variable {σ : Type}

def start (p : Program) (engine : σ) : World σ :=
  { engine, vars := .empty p, slots := .empty p }

/-- Lets the engine act.  The world is taken apart first, so that nothing else holds the engine's
state while it changes. -/
def ask {α : Type} (action : StateM σ α) : World σ → α × World σ
  | ⟨engine, vars, slots, late⟩ =>
    let (a, engine) := action engine
    (a, ⟨engine, vars, slots, late⟩)

def setVariable (p : Pointer) (v : Value) : World σ → World σ
  | ⟨engine, vars, slots, late⟩ => ⟨engine, vars.set p v, slots, late⟩

def setSlot (id : SlotId) (v : Value) : World σ → World σ
  | ⟨engine, vars, slots, late⟩ => ⟨engine, vars, slots.set id v, late⟩

def queue (id : NodeId) : World σ → World σ
  | ⟨engine, vars, slots, late⟩ => ⟨engine, vars, slots, late.push id⟩

def clearQueue (w : World σ) : World σ := { w with late := #[] }

end World
end SignalGraph
