import TraceAtlas.Chain.Basic

/-! # Building a chain

While code is emitted, frames are entered and left in a nested way. Entering opens a record whose
end and skip pointer are not known yet; leaving closes the innermost open record, and every record
emitted in between is nested in it.

## Main definitions
* `Chain.Builder` : the records emitted so far and those still open, innermost first.
* `Builder.enter`, `Builder.leave`, `Builder.inherit` : the events.
* `Builder.finish` : closes what is open at the end of the region.
* `Builder.Event`, `Builder.perform`, `Builder.run` : events as data, and what they do in a row.
-/

namespace TraceAtlas

namespace Chain

/-- A chain under construction. Open records are named by their position, innermost first. -/
structure Builder where
  records : List Record
  opened : List Nat
  deriving DecidableEq, Repr

namespace Builder

/-! ## (1) Records -/

/-- Nothing emitted, nothing open. -/
def empty : Builder := ⟨[], []⟩

/-- The number of records still open. -/
def depth (b : Builder) : Nat := b.opened.length

/-- Opens a record for a frame from an offset on. -/
def enter (b : Builder) (frame : FrameId) (start : Offset) : Builder where
  records := b.records ++ [⟨frame, start, 0, 0⟩]
  opened := b.records.length :: b.opened

/-- Opens a record for each frame, outermost first, from the start of the region on. -/
def inherit (b : Builder) (frames : List FrameId) : Builder :=
  frames.foldl (fun b frame => b.enter frame 0) b

/-- Ends a record at an offset; the records emitted up to now are those nested in it. -/
def close (records : List Record) (position : Nat) (stop : Offset) : List Record :=
  records.modify position fun r =>
    { r with stop, next := UInt32.ofNat (Record.width * records.length) }

/-- Closes the innermost open record at an offset and names its frame. With nothing open nothing
changes. -/
def leave (b : Builder) (stop : Offset) : Option FrameId × Builder :=
  match b.opened with
  | [] => (none, b)
  | position :: opened =>
    (b.records[position]?.map (·.frame), ⟨close b.records position stop, opened⟩)

/-- Closes every open record at the end of the region. -/
def finish (b : Builder) (regionSize : Offset) : Chain :=
  ofRecords (b.opened.foldl (fun rs position => close rs position regionSize) b.records)

/-! ## (2) Events as data -/

/-- What may happen while code is emitted. -/
inductive Event where
  /-- A frame becomes active at an offset. -/
  | enter (frame : FrameId) (start : Offset)
  /-- The innermost active frame ends at an offset. -/
  | leave (stop : Offset)
  /-- Frames are active from the start of the region on. -/
  | inherit (frames : List FrameId)
  deriving DecidableEq, Repr

/-- What an event yields. -/
inductive Reply where
  | opened
  /-- The frame that was left, if one was open. -/
  | left (frame : Option FrameId)
  deriving DecidableEq, Repr

/-- Lets an event happen. -/
def perform : Event → Builder → Reply × Builder
  | .enter frame start, b => (.opened, b.enter frame start)
  | .leave stop, b => ((.left (b.leave stop).1), (b.leave stop).2)
  | .inherit frames, b => (.opened, b.inherit frames)

/-- Lets events happen one after the other, and gives the reply to each with the number of records
open after it. -/
def run : List Event → Builder → List (Reply × Nat) × Builder
  | [], b => ([], b)
  | event :: events, b =>
    let (reply, b) := perform event b
    let (replies, last) := run events b
    ((reply, b.depth) :: replies, last)

/-! ## (3) Reading lemmas -/

/-- Entering a frame opens it. -/
@[simp] theorem depth_enter (b : Builder) (frame : FrameId) (start : Offset) :
    (b.enter frame start).depth = b.depth + 1 := rfl

/-- Leaving closes a frame if one is open. -/
@[simp] theorem depth_leave (b : Builder) (stop : Offset) :
    (b.leave stop).2.depth = b.depth - 1 := by
  obtain ⟨records, _ | ⟨position, opened⟩⟩ := b <;> rfl

/-- Inheriting opens all frames. -/
@[simp] theorem depth_inherit (b : Builder) (frames : List FrameId) :
    (b.inherit frames).depth = b.depth + frames.length := by
  induction frames generalizing b with
  | nil => rfl
  | cons f fs ih =>
    rw [inherit, List.foldl_cons, ← inherit, ih, depth_enter, List.length_cons]
    omega

end Builder

end Chain

end TraceAtlas
