import TraceAtlas.Chain.Walk
import TraceAtlas.Index.Basic

/-! # The region map

Which regions of machine code are registered, where they start, how long they are, and the chain of
frames of each. A region that is removed is gone at once, but its chain is kept until the gate has
no reader: somebody who found the region earlier may still walk it.

## Main definitions
* `Region` : size, chain and registration number.
* `Regions` : the map, the regions whose chains wait to be freed, and the next registration number.
* `Regions.place`, `Regions.add`, `Regions.remove`, `Regions.clearRange` : the writer's side.
* `Regions.find`, `RegionHandle` : the readers' side.
-/

namespace TraceAtlas

/-- A region of machine code, apart from where it starts. Registrations are numbered, so that two
registrations of the same data stay apart. -/
structure Region where
  size : UInt32
  chain : Chain
  serial : Nat
  deriving DecidableEq, Repr

/-- The registered regions. -/
structure Regions where
  index : Index Region
  /-- The removed regions whose chains are not freed yet, the latest first. -/
  retired : List Region
  /-- How many registrations there have been. -/
  issued : Nat
  /-- Whether the list of removed regions has room for one more, when that is asked for the n-th
  time. -/
  list : Nat → Bool
  /-- How often that was asked for. -/
  asked : Nat

/-- A region somebody has found. It stays readable, and its reader registered, until it is
released. -/
structure RegionHandle where
  start : Address
  region : Region
  guard : ReadGuard
  deriving DecidableEq, Repr

namespace Regions

/-- The bytes of a slot of the region map. -/
def slotBytes : Nat := 96

/-- No regions. -/
def empty (t : Tuning) : Regions := ⟨.empty t slotBytes, [], 0, t.regionList, 0⟩

/-- The number of regions. -/
def size (m : Regions) : Nat := m.index.size

/-! ## (1) Writing -/

/-- Frees the chains that nobody can read any more, and recycles the slots of the index. -/
def collect (m : Regions) (gate : Gate) : Traced Regions := do
  let index ← m.index.collect gate
  match m.retired with
  | [] => return { m with index }
  | retired =>
    if gate.Quiescent then
      Traced.note (.chainsFreed retired.length)
      return { m with index, retired := [] }
    else
      Traced.note (.chainsDeferred retired.length)
      return { m with index }

/-- Adds a region once there is room for it in the list of removed ones. -/
def place (m : Regions) (gate : Gate) (start : Address) (size : UInt32) (chain : Chain) :
    Traced (Except OutOfMemory Unit × Regions × Gate) := do
  let ((added, index), gate) ← gate.mutate (m.index.insert start ⟨size, chain, m.issued⟩)
  match added with
  -- a refusal does not collect either
  | .error e => return (.error e, { m with index }, gate)
  | .ok () =>
    let m ← collect { m with index, issued := m.issued + 1 } gate
    return (.ok (), m, gate)

/-- Adds a region at an address where none starts. Nobody checks that regions do not overlap. A
refusal leaves the regions as they were. -/
def add (m : Regions) (gate : Gate) (start : Address) (size : UInt32) (chain : Chain) :
    Traced (Except OutOfMemory Unit × Regions × Gate) := do
  Traced.note (.addingRegion start size (chain.length / Record.width))
  let asked := { m with asked := m.asked + 1 }
  -- removing the region later must not need memory, so this comes first, in front of the gate
  if m.list m.asked then asked.place gate start size chain
  else return (.error .ofReservation, asked, gate)

/-- Removes the region that starts at an address, which must be there. -/
def remove (m : Regions) (gate : Gate) (start : Address) : Traced (Regions × Gate) := do
  Traced.note (.removingRegion start)
  let ((region, index), gate) ← gate.mutate (m.index.remove start)
  let m ← collect { m with index, retired := region :: m.retired } gate
  return (m, gate)

/-- Removes every region that starts in a range, in one mutation. An empty range is no mutation. -/
def clearRange (m : Regions) (gate : Gate) (start size : Address) : Traced (Regions × Gate) := do
  if size = 0 then
    return (m, gate)
  else
    Traced.note (.clearingRegions start size)
    let ((removed, index), gate) ← gate.mutate (pure (m.index.removeRange start size))
    let m ← collect { m with index, retired := (removed.map (·.2)).reverse ++ m.retired } gate
    return (m, gate)

/-! ## (2) Reading -/

/-- Finds the region that contains an address. The reader stays registered with a region that is
found, and is dropped on every other way out: no region starts below, the nearest one ends before
the address, or the gate is set. -/
def find (m : Regions) (gate : Gate) (a : Address) : Option RegionHandle × Gate :=
  let (guard, reading) := gate.read
  match m.index.floor? a with
  | none => (none, reading.release)
  | some (start, region) =>
    -- the region found starts at or below the address, so the difference is the offset
    if region.size.toUInt64 ≤ a - start then (none, reading.release)
    else if guard.Valid reading then (some ⟨start, region, guard⟩, reading)
    else (none, reading.release)

end Regions

namespace RegionHandle

/-- Nothing was mutated since the region was looked up. -/
def Consistent (h : RegionHandle) (gate : Gate) : Prop := h.guard.Valid gate

instance (h : RegionHandle) (gate : Gate) : Decidable (h.Consistent gate) :=
  inferInstanceAs (Decidable (h.guard.Valid gate))

/-- Where an address lies in the region, counted around the address space. -/
def offsetOf (h : RegionHandle) (a : Address) : Nat := (a - h.start).toNat

/-- The next frame that is active at an address, from a cursor on. -/
def nextFrame (h : RegionHandle) (a : Address) (cursor : Nat) : Except Fault Found :=
  h.region.chain.nextFrame (h.offsetOf a) cursor

/-- The frames that are active at an address, enclosing frames first. -/
def frames (h : RegionHandle) (a : Address) : Except Fault (List FrameId) :=
  h.region.chain.frames (h.offsetOf a)

end RegionHandle

end TraceAtlas
