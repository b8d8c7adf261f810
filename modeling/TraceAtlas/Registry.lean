import TraceAtlas.DepthBlocks
import TraceAtlas.Regions

/-! # The registry

A region map and a depth map behind one gate: one place to register what a compiler emitted, to drop
it when the code is freed, and to ask which frames and which stack depth an address has.

## Main definitions
* `Registry` : the two maps and their gate.
* `Registry.registerCode`, `Registry.registerDepths`, `Registry.freeBlock` : the writer's side.
* `Registry.find`, `Registry.traceback`, `Registry.tracebackInto`, `Registry.depthAt?` : the
  readers' side.
-/

namespace TraceAtlas

/-- The maps of one compiler behind one gate. -/
structure Registry where
  gate : Gate
  regions : Regions
  blocks : DepthBlocks

/-- A piece of code of constant depth: where it starts, counted from the code's start, and how long
it is. -/
structure Piece where
  position : Offset
  size : UInt32
  depth : UInt32
  deriving DecidableEq, Repr

namespace Registry

/-- An empty registry. -/
def empty (t : Tuning) : Registry := ⟨.new, .empty t, .empty t⟩

/-! ## (1) Writing regions -/

/-- Adds a region without a word about a refusal. -/
def addRegion (r : Registry) (start : Address) (size : UInt32) (chain : Chain) :
    Traced (Except OutOfMemory Unit × Registry) := do
  let (added, regions, gate) ← r.regions.add r.gate start size chain
  return (added, { r with regions, gate })

/-- Registers the chain of a region. A refusal is reported, and the code runs without it. -/
def registerCode (r : Registry) (start : Address) (size : UInt32) (chain : Chain) :
    Traced (Except OutOfMemory Unit × Registry) := do
  let (added, r) ← r.addRegion start size chain
  if let .error e := added then
    Traced.note (.regionRefused start e)
  return (added, r)

/-- Unregisters the region that starts at an address, which must be there. -/
def unregisterCode (r : Registry) (start : Address) : Traced Registry := do
  let (regions, gate) ← r.regions.remove r.gate start
  return { r with regions, gate }

/-- Unregisters every region that starts in a range. -/
def clearRegions (r : Registry) (start size : Address) : Traced Registry := do
  let (regions, gate) ← r.regions.clearRange r.gate start size
  return { r with regions, gate }

/-! ## (2) Writing depths -/

/-- Adds a block of constant depth. -/
def addBlock (r : Registry) (start : Address) (size depth : UInt32) :
    Traced (Except OutOfMemory Unit × Registry) := do
  let (added, blocks, gate) ← r.blocks.add r.gate start size depth
  return (added, { r with blocks, gate })

/-- Removes every block that starts in a range. -/
def clearBlocks (r : Registry) (start size : Address) : Traced Registry := do
  let (blocks, gate) ← r.blocks.clearRange r.gate start size
  return { r with blocks, gate }

/-- The pieces of code between positions at which the depth changes. Each lasts until the next
position, the last one until the end of the code; an empty one is left out, and one that is longer
than a block can be is cut. -/
def pieces (length : Address) : List Offset → List UInt32 → List Piece
  | position :: positions, depth :: depths =>
    let stop := (positions.head?.map UInt32.toUInt64).getD length
    if stop ≤ position.toUInt64 then pieces length positions depths
    else
      let size := UInt32.ofNat (min (stop.toNat - position.toNat) (UInt32.size - 1))
      ⟨position, size, depth⟩ :: pieces length positions depths
  | _, _ => []

/-- Adds pieces of the code from `start` on, one after the other, until one is refused. -/
def addPieces (r : Registry) (start : Address) :
    List Piece → Traced (Except OutOfMemory Unit × Registry)
  | [] => return (.ok (), r)
  | piece :: rest => do
    if UInt64.size ≤ start.toNat + piece.position.toNat then Traced.fault .addressOverflow
    let (added, r) ← r.addBlock (start + piece.position.toUInt64) piece.size piece.depth
    match added with
    | .error e => return (.error e, r)
    | .ok () => r.addPieces start rest

/-- Registers the depths of the code from `start` up to `stop`: at each position, counted from
`start`, the depth becomes the one beside it. If a piece is refused, everything that starts in the
code is cleared again. -/
def registerDepths (r : Registry) (start stop : Address) (positions : List Offset)
    (depths : List UInt32) : Traced (Except OutOfMemory Unit × Registry) := do
  if positions.length ≠ depths.length then Traced.fault .unpairedDepths
  Traced.note (.addingDepths positions.length start stop)
  -- counted around the address space if the code ends before it starts
  let length := stop - start
  let (added, r) ← r.addPieces start (pieces length positions depths)
  match added with
  | .ok () => return (.ok (), r)
  | .error e =>
    Traced.note (.depthsRefused start stop e)
    -- not only the pieces added here go, but every block that starts in the code
    let r ← r.clearBlocks start length
    return (.error e, r)

/-- Drops everything that starts in the code from `start` up to `stop`. -/
def freeBlock (r : Registry) (start stop : Address) : Traced Registry := do
  Traced.note (.freeingBlock start stop)
  let length := Address.distance start stop
  let r ← r.clearBlocks start length
  r.clearRegions start length

/-! ## (3) Reading -/

/-- Finds the region that contains an address; its reader stays registered. -/
def find (r : Registry) (a : Address) : Option RegionHandle × Registry :=
  let (handle, gate) := r.regions.find r.gate a
  (handle, { r with gate })

/-- Drops a reader. -/
def release (r : Registry) : Registry := { r with gate := r.gate.release }

/-- The stack depth at an address. -/
def depthAt? (r : Registry) (a : Address) : Option UInt32 := r.blocks.depthAt? r.gate a

/-- The frames that are active at an address, enclosing frames first; none if no region contains it
or something was mutated meanwhile. -/
def traceback (r : Registry) (a : Address) : Except Fault (List FrameId) :=
  match r.find a with
  | (none, _) => .ok []
  | (some handle, r) =>
    (handle.frames a).map fun frames => if handle.Consistent r.gate then frames else []

/-- Writes the frames that are active at an address to the front of a buffer, outermost first, as
many as fit, and says how many there were. Without a region the buffer stays as it is. -/
def tracebackInto (r : Registry) (a : Address) (buffer : List FrameId) :
    Except Fault (Option Nat × List FrameId) :=
  match r.find a with
  | (none, _) => .ok (none, buffer)
  | (some handle, r) =>
    (handle.region.chain.fill (handle.offsetOf a) 0 buffer).map fun (n, out) =>
      (if handle.Consistent r.gate then some n else none, out)

end Registry

end TraceAtlas
