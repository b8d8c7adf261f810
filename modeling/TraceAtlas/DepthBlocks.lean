import TraceAtlas.Index.Basic

/-! # The depth map

How deep the machine stack is at each address, as blocks of constant depth. Code of one region
usually makes several blocks, one for each change of the depth, and all of them are cleared
together.

## Main definitions
* `Block` : size and depth.
* `DepthBlocks.add`, `DepthBlocks.clearRange` : the writer's side.
* `DepthBlocks.depthAt?` : the readers' side.
-/

namespace TraceAtlas

/-- A block of constant stack depth, apart from where it starts. -/
structure Block where
  size : UInt32
  depth : UInt32
  deriving DecidableEq, Repr

/-- The registered blocks. -/
structure DepthBlocks where
  index : Index Block

namespace DepthBlocks

/-- The bytes of a slot of the depth map. -/
def slotBytes : Nat := 80

/-- No blocks. -/
def empty (t : Tuning) : DepthBlocks := ⟨.empty t slotBytes⟩

/-- The number of blocks. -/
def size (m : DepthBlocks) : Nat := m.index.size

/-- Adds a block at an address where none starts. A refusal leaves the blocks as they
were. -/
def add (m : DepthBlocks) (gate : Gate) (start : Address) (size depth : UInt32) :
    Traced (Except OutOfMemory Unit × DepthBlocks × Gate) := do
  Traced.note (.addingBlock start size depth)
  let ((added, index), gate) ← gate.mutate (m.index.insert start ⟨size, depth⟩)
  match added with
  | .error e => return (.error e, ⟨index⟩, gate)
  | .ok () =>
    let index ← index.collect gate
    return (.ok (), ⟨index⟩, gate)

/-- Removes every block that starts in a range, in one mutation. An empty range is no mutation. -/
def clearRange (m : DepthBlocks) (gate : Gate) (start size : Address) :
    Traced (DepthBlocks × Gate) := do
  if size = 0 then
    return (m, gate)
  else
    Traced.note (.clearingBlocks start size)
    let ((_, index), gate) ← gate.mutate (pure (m.index.removeRange start size))
    let index ← index.collect gate
    return (⟨index⟩, gate)

/-- The stack depth at an address, unless no block contains it or the gate is set. The reader is
gone when this returns. -/
def depthAt? (m : DepthBlocks) (gate : Gate) (a : Address) : Option UInt32 :=
  let (guard, reading) := gate.read
  match m.index.floor? a with
  | none => none
  | some (start, block) =>
    if block.size.toUInt64 ≤ a - start then none
    else if guard.Valid reading then some block.depth
    else none

end DepthBlocks

end TraceAtlas
