import TraceAtlas.Replay
import TraceAtlas.Script.Reader

/-! # Sessions on a replay

Operations are applied one at a time, also behind one that was refused, and addresses are sampled in
between. An operation comes as data that need not describe one.

## Main definitions
* `ReplayCall`, `ReplayReply` : the calls and what they yield.
* `Replay.answer`, `Replay.run` : one call, and a whole session.
-/

namespace TraceAtlas

/-- A call of a replay. -/
inductive ReplayCall where
  /-- Applies the operation that some data describe. -/
  | apply (d : Datum)
  /-- Looks at an address. -/
  | sample (pc : Address)
  /-- Asks how many regions and blocks there are. -/
  | sizes

/-- What a call of a replay yields. -/
inductive ReplayReply where
  /-- The data describe no operation. -/
  | notAnOp
  | applied (result : Except ReplayError Unit)
  | sample (s : Sample)
  | sizes (regions blocks : Nat)

namespace Replay

/-- Answers a call. -/
def answer : ReplayCall → Replay → Traced (ReplayReply × Replay)
  | .apply d, r =>
    match Op.ofDatum? d with
    | none => return (.notAnOp, r)
    | some op => do
      let (result, r) ← r.apply op
      return (.applied result, r)
  | .sample pc, r => do
    let s ← Traced.lift (r.sample pc)
    return (.sample s, r)
  | .sizes, r => return (.sizes r.registry.regions.size r.registry.blocks.size, r)

/-- Performs calls one after the other on a fresh replay. -/
def run (t : Tuning) (calls : List ReplayCall) : List (Traced ReplayReply) :=
  Traced.run answer calls (.start t)

end Replay

end TraceAtlas
