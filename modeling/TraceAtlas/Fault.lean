import TraceAtlas.Address

/-! # Faults and shortages

Two ways for a request to fail are kept apart. A `Fault` is a broken contract: the caller asked for
something that the documented preconditions exclude, and nothing after it is defined. `OutOfMemory`
is an answer: what was asked for did not happen, and the caller goes on.

## Main definitions
* `Fault` : the broken contracts that are noticed.
* `OutOfMemory` : a refused request for memory, with its size.
-/

namespace TraceAtlas

/-- A broken contract. -/
inductive Fault where
  /-- An entry is added under a key that is already there. -/
  | duplicateKey (key : Address)
  /-- An entry is removed that is not there. -/
  | absentKey (key : Address)
  /-- A gate is set that is already set. -/
  | gateAlreadySet
  /-- A gate is cleared that is not set. -/
  | gateNotSet
  /-- A walk follows a skip pointer that does not lead past its own record. -/
  | backwardSkip
  /-- Positions and depths do not come in pairs. -/
  | unpairedDepths
  /-- A position lies past the end of the address space. -/
  | addressOverflow
  /-- No power of two that fits an address is as large as the first chunk should be. -/
  | chunkTooLarge
  deriving DecidableEq, Repr

namespace Fault

/-- The fault in words, for the four contracts that have a wording of their own. -/
def message? : Fault → Option String
  | duplicateKey key => some s!"duplicate key {Address.hex key} inserted into address index"
  | absentKey key => some s!"removing {Address.hex key} which is not in the address index"
  | gateAlreadySet => some "gate set twice without being cleared"
  | gateNotSet => some "gate cleared without being set"
  | backwardSkip | unpairedDepths | addressOverflow | chunkTooLarge => none

end Fault

/-- A request for `bytes` bytes that was refused; zero where the size is not known. -/
structure OutOfMemory where
  bytes : UInt64
  deriving DecidableEq, Repr

namespace OutOfMemory

/-- A refused reservation whose size is not known. -/
def ofReservation : OutOfMemory := ⟨0⟩

/-- The refusal in words. -/
def message (e : OutOfMemory) : String :=
  s!"out of memory: failed to allocate {e.bytes} bytes for the address index"

end OutOfMemory

end TraceAtlas
