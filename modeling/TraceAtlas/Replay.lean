import TraceAtlas.Chain.Builder
import TraceAtlas.Chain.Layout
import TraceAtlas.Registry
import TraceAtlas.Script.Op

/-! # Replaying operations

A replay applies the operations of a script to a registry. Scripts make mistakes that a compiler
does not, so the replay remembers where regions and blocks start and turns a mistake into an error
before it becomes a fault of the registry. Chains are checked before they are registered.

## Main definitions
* `ReplayError` : the mistakes.
* `Replay` : the registry, and the starts that are claimed.
* `Replay.apply` : one operation.
* `Replay.sample`, `Sample` : what a profiler sees at an address.
-/

namespace TraceAtlas

/-- Why an operation cannot be applied. -/
inductive ReplayError where
  /-- The chain of a region is malformed. -/
  | malformedChain (start : Address) (cause : MalformedChain)
  /-- The chain that a trace makes does not fit its region. -/
  | leavesRegion (start : Address) (cause : MalformedChain)
  /-- A trace leaves a frame while none is active. -/
  | noFrameOpen (offset : Offset)
  /-- A region already starts there. -/
  | regionTaken (start : Address)
  /-- No region starts there. -/
  | regionUnknown (start : Address)
  /-- A block already starts there. -/
  | blockTaken (start : Address)
  /-- The registry is out of memory. -/
  | outOfMemory (cause : OutOfMemory)
  deriving DecidableEq, Repr

namespace ReplayError

/-- The error in words, followed by what caused it. -/
def causes : ReplayError → List String
  | malformedChain start cause =>
    [s!"malformed chain for region {Address.hex start}", cause.message]
  | leavesRegion start cause =>
    [s!"trace for region {Address.hex start} leaves the region", cause.message]
  | noFrameOpen offset => [s!"leaving a frame at offset {offset} but none is open"]
  | regionTaken start => [s!"a region is already registered at {Address.hex start}"]
  | regionUnknown start => [s!"no region is registered at {Address.hex start}"]
  | blockTaken start => [s!"a depth block is already registered at {Address.hex start}"]
  | outOfMemory cause => [cause.message]

/-- The error on one line. -/
def message (e : ReplayError) : String := ": ".intercalate e.causes

end ReplayError

/-- A registry and the starts of the regions and blocks that were claimed for it. -/
structure Replay where
  registry : Registry
  regions : List Address
  blocks : List Address

namespace Replay

/-- A replay on a fresh registry. -/
def start (t : Tuning) : Replay := ⟨.empty t, [], []⟩

/-! ## (1) Claims -/

/-- The starts that do not lie in a range, which is cut off at the highest address; that address
itself is never in the range. -/
def forgetRange (starts : List Address) (start length : Address) : List Address :=
  starts.filter fun a => !(start ≤ a && a < Address.advance start length)

/-- The positions at which a piece of code begins that is not empty: those before the next position,
and the last one if it is before the end. -/
def claimed (length : Address) : List Offset → List Offset
  | [] => []
  | position :: positions =>
    let stop := (positions.head?.map UInt32.toUInt64).getD length
    if position.toUInt64 < stop then position :: claimed length positions
    else claimed length positions

/-- Claims a start for a block. -/
def claimBlock (r : Replay) (a : Address) : Except ReplayError Replay :=
  if a ∈ r.blocks then .error (.blockTaken a) else .ok { r with blocks := a :: r.blocks }

/-- Claims the starts at some positions one after the other. Claims made before a refusal remain. -/
def claimBlocks (r : Replay) (start : Address) :
    List Offset → Traced (Except ReplayError Unit × Replay)
  | [] => return (.ok (), r)
  | position :: positions => do
    if UInt64.size ≤ start.toNat + position.toNat then Traced.fault .addressOverflow
    match r.claimBlock (start + position.toUInt64) with
    | .error e => return (.error e, r)
    | .ok r => r.claimBlocks start positions

/-! ## (2) Operations -/

/-- Replays the events of a trace on a chain under construction. -/
def buildTrace (b : Chain.Builder) : List TraceEvent → Except ReplayError Chain.Builder
  | [] => .ok b
  | .enter frame start :: events => buildTrace (b.enter frame start) events
  | .leave stop :: events =>
    match b.leave stop with
    | (none, _) => .error (.noFrameOpen stop)
    | (some _, b) => buildTrace b events

/-- The chain of a trace: the frames active at its start, then its events. -/
def traceChain (size : UInt32) (inherited : List FrameId) (events : List TraceEvent) :
    Except ReplayError Chain :=
  (buildTrace (Chain.Builder.empty.inherit inherited) events).map (·.finish size)

/-- Registers a region with a chain that was checked. Its start stays claimed even if the registry
is out of memory. -/
def addCode (r : Replay) (start : Address) (size : UInt32) (chain : Chain) :
    Traced (Except ReplayError Unit × Replay) := do
  if start ∈ r.regions then
    return (.error (.regionTaken start), r)
  else
    let (added, registry) ← r.registry.registerCode start size chain
    return (added.mapError .outOfMemory, { r with registry, regions := start :: r.regions })

/-- Applies an operation. -/
def apply (r : Replay) (op : Op) : Traced (Except ReplayError Unit × Replay) := do
  Traced.note (.replaying op)
  match op with
  | .addCode start size words =>
    match Chain.check ⟨words⟩ size with
    | .error e => return (.error (.malformedChain start e), r)
    | .ok () => r.addCode start size ⟨words⟩
  | .addTrace start size inherited events =>
    match traceChain size inherited events with
    | .error e => return (.error e, r)
    | .ok chain =>
      match chain.check size with
      | .error e => return (.error (.leavesRegion start e), r)
      | .ok () => r.addCode start size chain
  | .removeCode start =>
    if start ∈ r.regions then
      let registry ← r.registry.unregisterCode start
      return (.ok (), { r with registry, regions := r.regions.filter (· != start) })
    else
      return (.error (.regionUnknown start), r)
  | .addDepth start size depth =>
    match r.claimBlock start with
    | .error e => return (.error e, r)
    | .ok r =>
      let (added, registry) ← r.registry.addBlock start size depth
      return (added.mapError .outOfMemory, { r with registry })
  | .frameDepths start stop positions depths =>
    -- all starts are claimed before the first piece is registered
    let length := Address.distance start stop
    match ← r.claimBlocks start (claimed length positions) with
    | (.error e, r) => return (.error e, r)
    | (.ok (), r) =>
      let (added, registry) ← r.registry.registerDepths start stop positions depths
      return (added.mapError .outOfMemory, { r with registry })
  | .clearDepth start size =>
    let registry ← r.registry.clearBlocks start size
    return (.ok (), { r with registry, blocks := forgetRange r.blocks start size })
  | .free start stop =>
    let length := Address.distance start stop
    let registry ← r.registry.freeBlock start stop
    return (.ok (), {
      registry
      regions := forgetRange r.regions start length
      blocks := forgetRange r.blocks start length })

/-- Applies operations in order up to the first that cannot be applied, and says which that is. -/
def applyAll (r : Replay) (position : Nat) :
    List Op → Traced (Except (Nat × ReplayError) Unit × Replay)
  | [] => return (.ok (), r)
  | op :: ops => do
    match ← r.apply op with
    | (.error e, r) => return (.error (position, e), r)
    | (.ok (), r) => r.applyAll (position + 1) ops

end Replay

/-! ## (3) Samples -/

/-- What a profiler sees at an address. -/
structure Sample where
  pc : Address
  /-- The start of the region that contains the address. -/
  region : Option Address
  /-- The frames active there, enclosing frames first. -/
  frames : List FrameId
  /-- The stack depth there. -/
  depth : Option UInt32
  deriving DecidableEq, Repr

/-- Looks at an address the way a profiler does. -/
def Replay.sample (r : Replay) (pc : Address) : Except Fault Sample := do
  let region := (r.registry.find pc).1.map (·.start)
  let frames ← r.registry.traceback pc
  return ⟨pc, region, frames, r.registry.depthAt? pc⟩

end TraceAtlas
