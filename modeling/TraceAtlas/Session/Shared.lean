import TraceAtlas.Session.Registry
import TraceAtlas.SharedRegistry

/-! # Sessions on the process-wide registry

The calls of the process-wide registry in a process that starts without one.

## Main definitions
* `SharedSession` : the registry, if it exists, and the handles and readers that are held.
* `SharedCall`, `SharedReply` : the calls and what they yield.
* `SharedSession.answer`, `SharedSession.run` : one call, and a whole session.
-/

namespace TraceAtlas

/-- A process and what is held in it. -/
structure SharedSession where
  shared : SharedRegistry
  handles : Handles
  guards : List (String × ReadGuard)

/-- A call of the process-wide registry. -/
inductive SharedCall where
  | setUp (settings : Tuning.Overrides)
  | isSetUp
  | registerCode (start : Address) (size : UInt32) (chain : List UInt32)
  | unregisterCode (start : Address)
  | addBlock (start : Address) (size depth : UInt32)
  | clearBlocks (start size : Address)
  | freeBlock (start stop : Address)
  | find (a : Address) (keepAs : Option String)
  | depthAt (a : Address)
  | isInvalid
  | handle (name : String) (call : HandleCall)
  /-- A step on the registry itself. -/
  | registry (step : Step RegistryCall)

/-- What a call of the process-wide registry yields. -/
inductive SharedReply where
  | done
  | flag (b : Bool)
  | setUp (result : Except AlreadySetUp Unit)
  | added (result : Except OutOfMemory Unit)
  | region (view : Option RegionView)
  | depth (d : Option UInt32)
  | handle (reply : HandleReply)
  /-- The answer of the registry, if there is one. -/
  | registry (answer : Option (Answer RegistryReply))

namespace SharedSession

/-- A process that has just started. -/
def start : SharedSession := ⟨.absent, [], []⟩

/-- The gate of the registry; a clear one as long as there is no registry, which nobody can hold a
reader of. -/
def gate (s : SharedSession) : Gate := (s.shared.registry?.map (·.gate)).getD .new

/-- The process with the gate of its registry in another state. -/
def withGate (s : SharedSession) (gate : Gate) : SharedSession :=
  { s with shared := ⟨s.shared.registry?.map ({ · with gate })⟩ }

/-- Lets a writer work on the registry. -/
def write (s : SharedSession) (given : Surroundings) (f : Registry → Traced Registry) :
    Traced (SharedReply × SharedSession) := do
  let ((), shared) ← s.shared.write given fun r => do
    let r ← f r
    return ((), r)
  return (.done, { s with shared })

/-- Lets a writer add something to the registry. -/
def add (s : SharedSession) (given : Surroundings)
    (f : Registry → Traced (Except OutOfMemory Unit × Registry)) :
    Traced (SharedReply × SharedSession) := do
  let (result, shared) ← s.shared.write given f
  return (.added result, { s with shared })

/-- Answers a call in given surroundings. -/
def answer (given : Surroundings) :
    SharedCall → SharedSession → Traced (SharedReply × SharedSession)
  | .setUp settings, s => do
    let tuning ← Traced.lift ((Tuning.standard given).override settings)
    let (result, shared) ← s.shared.setUp tuning
    return (.setUp result, { s with shared })
  | .isSetUp, s => return (.flag s.shared.registry?.isSome, s)
  | .registerCode start size chain, s => s.add given (·.registerCode start size ⟨chain⟩)
  | .unregisterCode start, s => s.write given (·.unregisterCode start)
  | .addBlock start size depth, s => s.add given (·.addBlock start size depth)
  | .clearBlocks start size, s => s.write given (·.clearBlocks start size)
  | .freeBlock start stop, s => s.write given (·.freeBlock start stop)
  | .find a keepAs, s => do
    let (found, shared) := s.shared.find a
    let s := { s with shared }
    let (view, handles, gate) ← Traced.lift (s.handles.receive s.gate a keepAs found)
    return (.region view, { s.withGate gate with handles })
  | .depthAt a, s => return (.depth (s.shared.depthAt? a), s)
  | .isInvalid, s => return (.flag (decide s.shared.Invalid), s)
  | .handle name call, s => do
    let (reply, handles, gate) ← Traced.lift (s.handles.answer s.gate name call)
    return (.handle reply, { s.withGate gate with handles })
  | .registry step, s =>
    match s.shared.registry? with
    | none => return (.registry none, s)
    | some r => do
      let (answer, session) ← Session.perform Workbench.answer step ⟨⟨r, s.handles⟩, s.guards⟩
      return (.registry (some answer),
        ⟨⟨some session.subject.registry⟩, session.subject.handles, session.guards⟩)

/-- Performs the calls of a process one after the other. -/
def run (calls : List SharedCall) (given : Surroundings := {}) : List (Traced SharedReply) :=
  Traced.run (answer given) calls start

end SharedSession

end TraceAtlas
