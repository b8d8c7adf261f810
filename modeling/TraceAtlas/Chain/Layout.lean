import TraceAtlas.Chain.Basic

/-! # The layout of a chain

A chain from an untrusted hand is checked before it is registered. Record by record, the range must
be in order and inside the region, the skip pointer must lead forward to a record boundary, and the
starts must not decrease. The first broken rule of the first bad record is reported.

## Main definitions
* `MalformedChain` : the broken rule, with the numbers that break it.
* `Chain.check` : the check.
-/

namespace TraceAtlas

/-- Why the words of a chain do not describe a region. Indexes count words. -/
inductive MalformedChain where
  /-- The words do not fill whole records. -/
  | length (len : Nat)
  /-- A range is reversed or leaves the region. -/
  | interval (index : Nat) (start stop : Offset) (regionSize : UInt32)
  /-- A skip pointer does not lead forward to a record boundary. -/
  | skip (index : Nat) (next : UInt32) (len : Nat)
  /-- A record starts before the one in front of it. -/
  | order (index : Nat) (start previous : Offset)
  deriving DecidableEq, Repr

namespace MalformedChain

/-- The broken rule in words. -/
def message : MalformedChain → String
  | length len => s!"chain length {len} is not a multiple of 4"
  | interval index start stop regionSize =>
    s!"record at {index} covers [{start}, {stop}) outside of a region of size {regionSize}"
  | skip index next len =>
    s!"record at {index} skips to {next}, expected a record boundary in ({index}, {len}]"
  | order index start previous =>
    s!"record at {index} starts at {start}, before the previous record's start {previous}"

end MalformedChain

namespace Chain

/-- Checks one record that starts at word `index` of `len`, behind a record that starts at
`previous`. -/
def checkRecord (regionSize : UInt32) (len index : Nat) (previous : Offset) (r : Record) :
    Except MalformedChain Unit :=
  if r.start > r.stop ∨ r.stop > regionSize then
    .error (.interval index r.start r.stop regionSize)
  else if r.next.toNat < index + Record.width ∨ len < r.next.toNat ∨
      r.next.toNat % Record.width ≠ 0 then
    .error (.skip index r.next len)
  else if r.start < previous then
    .error (.order index r.start previous)
  else
    .ok ()

/-- Checks the records from word `index` on. -/
def checkRecords (regionSize : UInt32) (len : Nat) :
    Nat → Offset → List Record → Except MalformedChain Unit
  | _, _, [] => .ok ()
  | index, previous, r :: rs =>
    match checkRecord regionSize len index previous r with
    | .error e => .error e
    | .ok () => checkRecords regionSize len (index + Record.width) r.start rs

/-- Checks a chain against the layout of records for a region of `regionSize` bytes. -/
def check (c : Chain) (regionSize : UInt32) : Except MalformedChain Unit :=
  if c.length % Record.width ≠ 0 then .error (.length c.length)
  else checkRecords regionSize c.length 0 0 c.records

end Chain

end TraceAtlas
