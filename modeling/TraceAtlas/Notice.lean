import TraceAtlas.Fault
import TraceAtlas.Script.Op
import TraceAtlas.Tuning

/-! # Notices

What the parts of an atlas report while they work. A notice is a value that says what happened; its
level and its wording are functions of it.

## Main definitions
* `Notice` : the events that are reported.
* `Notice.level`, `Notice.message`, `Notice.line` : how a log shows them.
-/

namespace TraceAtlas

/-- How urgent a notice is. -/
inductive Level where
  | trace
  | debug
  | warn
  deriving DecidableEq, Repr

namespace Level

/-- The name of a level in a log line. -/
def label : Level → String
  | trace => "TRACE"
  | debug => "DEBUG"
  | warn => "WARN"

end Level

/-- Something that happened. -/
inductive Notice where
  /-- An index took its `chunks`-th chunk of memory. -/
  | chunkTaken (chunks bytes : Nat)
  /-- Retired slots became free. -/
  | slotsRecycled (count : Nat)
  /-- Retired slots stay retired while somebody reads. -/
  | slotsDeferred (count : Nat)
  /-- A region is about to be added. -/
  | addingRegion (start : Address) (size : UInt32) (records : Nat)
  /-- A region is about to be removed. -/
  | removingRegion (start : Address)
  /-- The regions that start in a range are about to be removed. -/
  | clearingRegions (start size : Address)
  /-- Chains that nobody reads any more are given back. -/
  | chainsFreed (count : Nat)
  /-- Retired chains are kept while somebody reads. -/
  | chainsDeferred (count : Nat)
  /-- A block of constant depth is about to be added. -/
  | addingBlock (start : Address) (size depth : UInt32)
  /-- The blocks that start in a range are about to be removed. -/
  | clearingBlocks (start size : Address)
  /-- A region could not be added. -/
  | regionRefused (start : Address) (e : OutOfMemory)
  /-- The depths of a block of code are about to be added, piece by piece. -/
  | addingDepths (count : Nat) (start stop : Address)
  /-- The depths of a block of code could not be added. -/
  | depthsRefused (start stop : Address) (e : OutOfMemory)
  /-- Everything that starts in a block of code is about to be dropped. -/
  | freeingBlock (start stop : Address)
  /-- The process-wide registry is set up. -/
  | settingUp (tuning : Tuning)
  /-- An operation of a script is about to be applied. -/
  | replaying (op : Op)

namespace Notice

/-- The level of a notice. -/
def level : Notice → Level
  | chunkTaken .. | slotsDeferred .. | chainsDeferred .. | freeingBlock .. | settingUp ..
  | replaying .. => .debug
  | slotsRecycled .. | addingRegion .. | removingRegion .. | clearingRegions .. | chainsFreed ..
  | addingBlock .. | clearingBlocks .. | addingDepths .. => .trace
  | regionRefused .. | depthsRefused .. => .warn

/-- A range in hexadecimal. -/
def range (start stop : Address) : String :=
  s!"{Address.hex start}..{Address.hex stop}"

/-- A notice in words. The end of a range that was given by its size is shown around the address
space. -/
def message : Notice → String
  | chunkTaken chunks bytes => s!"address index pool grew to {chunks} chunks ({bytes} bytes)"
  | slotsRecycled count => s!"address index recycled {count} nodes"
  | slotsDeferred count => s!"address index deferring reuse of {count} nodes, readers active"
  | addingRegion start size records =>
    s!"codemap: add {range start (start + size.toUInt64)} ({records} records)"
  | removingRegion start => s!"codemap: remove {Address.hex start}"
  | clearingRegions start size => s!"codemap: clear {range start (start + size)}"
  | chainsFreed count => s!"codemap: freeing {count} retired chains"
  | chainsDeferred count => s!"codemap: deferring {count} retired chains, readers active"
  | addingBlock start size depth =>
    s!"depthmap: add {range start (start + size.toUInt64)} depth={depth}"
  | clearingBlocks start size => s!"depthmap: clear {range start (start + size)}"
  | regionRefused start e =>
    s!"registry: no frame information for {Address.hex start}: {e.message}"
  | addingDepths count start stop => s!"registry: {count} depth blocks for {range start stop}"
  | depthsRefused start stop e =>
    s!"registry: no stack depths for {range start stop}: {e.message}"
  | freeingBlock start stop => s!"registry: freeing code block {range start stop}"
  | settingUp tuning => s!"global registry: initializing with {tuning.describe}"
  | replaying op => s!"replay: {op.describe}"

/-- A notice as a line of a log. -/
def line (n : Notice) : String := s!"{n.level.label} {n.message}"

end Notice

end TraceAtlas
