import TraceAtlas.Index.Basic
import TraceAtlas.Session.Basic

/-! # Sessions on an index

The calls of an address index behind a gate of its own, as steps of a session.

## Main definitions
* `GatedIndex` : an index and its gate.
* `IndexCall`, `IndexReply` : the calls and what they yield.
* `GatedIndex.answer`, `GatedIndex.run` : one call, and a whole session.
-/

namespace TraceAtlas

/-- An index of words behind a gate of its own. -/
structure GatedIndex where
  gate : Gate
  index : Index UInt64

instance : Gated GatedIndex := ⟨GatedIndex.gate, fun s gate => { s with gate }⟩

/-- A call of an index. -/
inductive IndexCall where
  | insert (key : Address) (value : UInt64)
  | remove (key : Address)
  | floor (query : Address)
  | removeRange (start length : Address)
  | collect
  | size
  | entries
  deriving DecidableEq, Repr

/-- What a call of an index yields. -/
inductive IndexReply where
  | inserted (result : Except OutOfMemory Unit)
  | removed (value : UInt64)
  | entry (found : Option (Address × UInt64))
  | entries (list : List (Address × UInt64))
  | size (count : Nat)
  | collected

namespace GatedIndex

/-- The bytes of a slot that holds a word. -/
def slotBytes : Nat := 80

/-- An empty index behind a clear gate. -/
def empty (t : Tuning) : GatedIndex := ⟨.new, .empty t slotBytes⟩

/-- Answers a call. -/
def answer : IndexCall → GatedIndex → Traced (IndexReply × GatedIndex)
  | .insert key value, s => do
    let (result, index) ← s.index.insert key value
    return (.inserted result, { s with index })
  | .remove key, s => do
    let (value, index) ← s.index.remove key
    return (.removed value, { s with index })
  | .floor query, s => return (.entry (s.index.floor? query), s)
  | .removeRange start length, s =>
    let (removed, index) := s.index.removeRange start length
    return (.entries removed, { s with index })
  | .collect, s => do
    let index ← s.index.collect s.gate
    return (.collected, { s with index })
  | .size, s => return (.size s.index.size, s)
  | .entries, s => return (.entries s.index.toList, s)

/-- Performs the steps of a session on a fresh index. -/
def run (t : Tuning) (steps : List (Step IndexCall)) : List (Traced (Answer IndexReply)) :=
  Traced.run (Session.perform answer) steps (.start (.empty t))

end GatedIndex

namespace Gate

/-- Performs the steps of a session on a fresh gate that guards nothing. -/
def run (steps : List (Step Empty)) : List (Traced (Answer Empty)) :=
  Traced.run (Session.perform fun call => nomatch call) steps (.start Gate.new)

end Gate

end TraceAtlas
