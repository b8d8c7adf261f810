import TraceAtlas.Session.Basic
import TraceAtlas.Session.Handles

/-! # Sessions on a registry

The calls of a registry as steps of a session.

## Main definitions
* `Workbench` : a registry and the handles that are held on it.
* `RegistryCall`, `RegistryReply` : the calls and what they yield.
* `Workbench.answer`, `Workbench.run` : one call, and a whole session.
-/

namespace TraceAtlas

/-- A registry and the handles that are held on it. -/
structure Workbench where
  registry : Registry
  handles : Handles

instance : Gated Workbench :=
  ⟨fun w => w.registry.gate, fun w gate => { w with registry := { w.registry with gate } }⟩

/-- A call of a registry. -/
inductive RegistryCall where
  | registerCode (start : Address) (size : UInt32) (chain : List UInt32)
  | addRegion (start : Address) (size : UInt32) (chain : List UInt32)
  | unregisterCode (start : Address)
  | clearRegions (start size : Address)
  | clearBlocks (start size : Address)
  | addBlock (start : Address) (size depth : UInt32)
  | registerDepths (start stop : Address) (positions : List Offset) (depths : List UInt32)
  | freeBlock (start stop : Address)
  | find (a : Address) (keepAs : Option String)
  | depthAt (a : Address)
  | traceback (a : Address)
  | tracebackInto (a : Address) (buffer : List FrameId)
  | sizes
  | gate
  | handle (name : String) (call : HandleCall)
  deriving DecidableEq, Repr

/-- What a call of a registry yields. -/
inductive RegistryReply where
  | done
  | added (result : Except OutOfMemory Unit)
  | region (view : Option RegionView)
  | depth (d : Option UInt32)
  | frames (fs : List FrameId)
  | filled (count : Option Nat) (buffer : List FrameId)
  | sizes (regions blocks : Nat)
  | gate (invalid : Bool)
  | handle (reply : HandleReply)

namespace Workbench

/-- A fresh registry that nobody has looked at. -/
def start (t : Tuning) : Workbench := ⟨.empty t, []⟩

/-- Lets a writer work on the registry. -/
def write (w : Workbench) (f : Registry → Traced Registry) :
    Traced (RegistryReply × Workbench) := do
  let registry ← f w.registry
  return (.done, { w with registry })

/-- Lets a writer add something to the registry. -/
def add (w : Workbench) (f : Registry → Traced (Except OutOfMemory Unit × Registry)) :
    Traced (RegistryReply × Workbench) := do
  let (result, registry) ← f w.registry
  return (.added result, { w with registry })

/-- Lets a reader ask the registry something. -/
def ask (w : Workbench) (reply : Except Fault RegistryReply) :
    Traced (RegistryReply × Workbench) := do
  let reply ← Traced.lift reply
  return (reply, w)

/-- Answers a call. -/
def answer : RegistryCall → Workbench → Traced (RegistryReply × Workbench)
  | .registerCode start size chain, w => w.add (·.registerCode start size ⟨chain⟩)
  | .addRegion start size chain, w => w.add (·.addRegion start size ⟨chain⟩)
  | .unregisterCode start, w => w.write (·.unregisterCode start)
  | .clearRegions start size, w => w.write (·.clearRegions start size)
  | .clearBlocks start size, w => w.write (·.clearBlocks start size)
  | .addBlock start size depth, w => w.add (·.addBlock start size depth)
  | .registerDepths start stop positions depths, w =>
    w.add (·.registerDepths start stop positions depths)
  | .freeBlock start stop, w => w.write (·.freeBlock start stop)
  | .find a keepAs, w => do
    let (found, registry) := w.registry.find a
    let (view, handles, gate) ← Traced.lift (w.handles.receive registry.gate a keepAs found)
    return (.region view, ⟨{ registry with gate }, handles⟩)
  | .depthAt a, w => w.ask (.ok (.depth (w.registry.depthAt? a)))
  | .traceback a, w => w.ask ((w.registry.traceback a).map .frames)
  | .tracebackInto a buffer, w =>
    w.ask ((w.registry.tracebackInto a buffer).map fun (n, out) => .filled n out)
  | .sizes, w => w.ask (.ok (.sizes w.registry.regions.size w.registry.blocks.size))
  | .gate, w => w.ask (.ok (.gate (decide w.registry.gate.Invalid)))
  | .handle name call, w => do
    let (reply, handles, gate) ← Traced.lift (w.handles.answer w.registry.gate name call)
    return (.handle reply, ⟨{ w.registry with gate }, handles⟩)

/-- Performs the steps of a session on a fresh registry. -/
def run (t : Tuning) (steps : List (Step RegistryCall)) : List (Traced (Answer RegistryReply)) :=
  Traced.run (Session.perform answer) steps (.start (.start t))

end Workbench

end TraceAtlas
