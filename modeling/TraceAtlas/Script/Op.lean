import TraceAtlas.Address

/-! # Script operations

What a just-in-time compiler tells the registry while it runs, one operation at a time.

## Main definitions
* `TraceEvent` : a frame is entered or left while a trace is emitted.
* `Op` : an operation, with its data as given; nothing is checked here.
* `Op.describe` : an operation in the form in which log lines show it.
-/

namespace TraceAtlas

/-- A frame boundary in a trace. -/
inductive TraceEvent where
  /-- A frame becomes active at an offset. -/
  | enter (frame : FrameId) (start : Offset)
  /-- The innermost active frame ends at an offset. -/
  | leave (stop : Offset)
  deriving DecidableEq, Repr

namespace TraceEvent

/-- The offset at which an event happens. -/
def offset : TraceEvent → Offset
  | enter _ start => start
  | leave stop => stop

/-- An event in the form in which log lines show it. -/
def describe : TraceEvent → String
  | enter frame start => s!"Enter \x7b enter: {frame}, at: {start} \x7d"
  | leave stop => s!"Leave \x7b leave: {stop} \x7d"

end TraceEvent

/-- One operation of a script. -/
inductive Op where
  /-- Registers a region with a finished chain. -/
  | addCode (address : Address) (size : UInt32) (chain : List UInt32)
  /-- Registers a region whose chain follows from the frames active at its start and its events. -/
  | addTrace (address : Address) (size : UInt32) (inherited : List FrameId)
      (events : List TraceEvent)
  /-- Unregisters the region that starts at an address. -/
  | removeCode (address : Address)
  /-- Registers one block of constant stack depth. -/
  | addDepth (address : Address) (size : UInt32) (depth : UInt32)
  /-- Registers the stack depths of a whole block of code. -/
  | frameDepths (start stop : Address) (positions : List Offset) (depths : List UInt32)
  /-- Clears the depths that start in a range. -/
  | clearDepth (address size : Address)
  /-- Drops all that starts in a block of code. -/
  | free (start stop : Address)
  deriving DecidableEq, Repr

namespace Op

/-- Words between brackets. -/
def describeWords (ws : List UInt32) : String :=
  Numeral.bracketed (ws.map UInt32.toNat)

/-- An operation in the form in which log lines show it. -/
def describe : Op → String
  | addCode address size chain =>
    s!"AddCode \x7b address: {address}, size: {size}, chain: {describeWords chain} \x7d"
  | addTrace address size inherited events =>
    let shown := "[" ++ ", ".intercalate (events.map TraceEvent.describe) ++ "]"
    s!"AddTrace \x7b address: {address}, size: {size}, inherit: {describeWords inherited}, " ++
      s!"events: {shown} \x7d"
  | removeCode address => s!"RemoveCode \x7b address: {address} \x7d"
  | addDepth address size depth =>
    s!"AddDepth \x7b address: {address}, size: {size}, depth: {depth} \x7d"
  | frameDepths start stop positions depths =>
    s!"FrameDepths \x7b start: {start}, stop: {stop}, " ++
      s!"positions: {describeWords positions}, depths: {describeWords depths} \x7d"
  | clearDepth address size => s!"ClearDepth \x7b address: {address}, size: {size} \x7d"
  | free start stop => s!"Free \x7b start: {start}, stop: {stop} \x7d"

end Op

end TraceAtlas
