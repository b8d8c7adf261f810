import TraceAtlas.Registry

/-! # Handles held by name

A region that was found may be kept under a name. Its reader stays registered, so chains and slots
that are taken out meanwhile are not reused, and the handle keeps answering with what it found.

## Main definitions
* `RegionView` : what a handle shows of its region.
* `Handles` : the handles that are held.
* `HandleCall`, `HandleReply`, `Handles.answer` : the calls of a held handle.
-/

namespace TraceAtlas

/-- What a handle shows of its region at an address. -/
structure RegionView where
  start : Address
  size : UInt32
  chain : List UInt32
  frames : List FrameId
  consistent : Bool
  deriving DecidableEq, Repr

/-- Shows a region at an address. -/
def RegionHandle.view (h : RegionHandle) (gate : Gate) (a : Address) : Except Fault RegionView :=
  (h.frames a).map fun frames =>
    ⟨h.start, h.region.size, h.region.chain.words, frames, decide (h.Consistent gate)⟩

/-- The handles that are held, by name. -/
abbrev Handles := List (String × RegionHandle)

/-- A call of a held handle. -/
inductive HandleCall where
  /-- Shows the region at an address. -/
  | view (a : Address)
  /-- Asks for the next frame at an address, from a cursor on. -/
  | nextFrame (a : Address) (cursor : Nat)
  /-- Asks for that many frames at an address, from the first record on. -/
  | pull (a : Address) (calls : Nat)
  /-- Asks whether anything was mutated since the region was found. -/
  | isConsistent
  /-- Drops the handle. -/
  | release
  deriving DecidableEq, Repr

/-- What a call of a held handle yields. -/
inductive HandleReply where
  | view (v : RegionView)
  | found (f : Found)
  | pulled (fs : List Found)
  | consistent (b : Bool)
  | released
  /-- No handle is held under the name. -/
  | unheld
  deriving DecidableEq, Repr

namespace Handles

/-- Drops the handle held under a name, if there is one, and its reader with it. -/
def drop (hs : Handles) (gate : Gate) (name : String) : Handles × Gate :=
  match hs.lookup name with
  | none => (hs, gate)
  | some _ => (hs.filter (·.1 != name), gate.release)

/-- Holds a handle under a name; one held under it before is dropped. -/
def keep (hs : Handles) (gate : Gate) (name : String) (h : RegionHandle) : Handles × Gate :=
  let (hs, gate) := hs.drop gate name
  ((name, h) :: hs, gate)

/-- Answers a call of the handle held under a name. -/
def answer (hs : Handles) (gate : Gate) (name : String) (call : HandleCall) :
    Except Fault (HandleReply × Handles × Gate) := do
  match hs.lookup name with
  | none => return (.unheld, hs, gate)
  | some h =>
    match call with
    | .view a => return (.view (← h.view gate a), hs, gate)
    | .nextFrame a cursor => return (.found (← h.nextFrame a cursor), hs, gate)
    | .pull a calls =>
      return (.pulled (← h.region.chain.pull (h.offsetOf a) 0 calls), hs, gate)
    | .isConsistent => return (.consistent (decide (h.Consistent gate)), hs, gate)
    | .release =>
      let (hs, gate) := hs.drop gate name
      return (.released, hs, gate)

/-- Shows a region that was found, or nothing; then holds its handle under a name if one is given,
and drops it otherwise. -/
def receive (hs : Handles) (gate : Gate) (a : Address) (keepAs : Option String) :
    Option RegionHandle → Except Fault (Option RegionView × Handles × Gate)
  | none => return (none, hs, gate)
  | some h => do
    let view ← h.view gate a
    match keepAs with
    | none => return (some view, hs, gate.release)
    | some name =>
      let (hs, gate) := hs.keep gate name h
      return (some view, hs, gate)

end Handles

end TraceAtlas
