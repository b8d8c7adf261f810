import TraceAtlas.Traced

/-! # The gate

One gate guards all indexes of a registry. The writer sets it before a mutation and clears it after;
the sequence number is odd while the gate is set and grows by one each time. A reader notes the
number when it starts: what it read is trusted only if the gate was clear then and the number is
still the same. The gate counts the readers, so that the writer knows when nobody can still look at
what was taken out.

## Main definitions
* `Gate` : the sequence number and the count of readers.
* `Gate.setInvalid`, `Gate.clearInvalid`, `Gate.mutate` : the writer's side.
* `ReadGuard`, `Gate.read`, `Gate.release`, `ReadGuard.Valid` : the readers' side.
-/

namespace TraceAtlas

/-- The state of a gate. The sequence number wraps around. -/
structure Gate where
  sequence : UInt64
  readers : Nat
  deriving DecidableEq, Repr

/-- A registered reader, with the sequence number it started at. -/
structure ReadGuard where
  sequence : UInt64
  deriving DecidableEq, Repr

namespace Gate

variable {α : Type}

/-- A clear gate without readers. -/
def new : Gate := ⟨0, 0⟩

/-- The gate is set: a mutation is under way. -/
def Invalid (g : Gate) : Prop := g.sequence % 2 = 1

instance (g : Gate) : Decidable g.Invalid := inferInstanceAs (Decidable (_ = _))

/-- No reader is registered. -/
def Quiescent (g : Gate) : Prop := g.readers = 0

instance (g : Gate) : Decidable g.Quiescent := inferInstanceAs (Decidable (_ = _))

/-! ## (1) Writing -/

/-- Sets the gate, which must be clear. -/
def setInvalid (g : Gate) : Traced Gate :=
  if g.Invalid then Traced.fault .gateAlreadySet else pure { g with sequence := g.sequence + 1 }

/-- Clears the gate, which must be set. -/
def clearInvalid (g : Gate) : Traced Gate :=
  if g.Invalid then pure { g with sequence := g.sequence + 1 } else Traced.fault .gateNotSet

/-- Runs a mutation of what the gate guards with the gate set. -/
def mutate (g : Gate) (body : Traced α) : Traced (α × Gate) := do
  let g ← g.setInvalid
  let a ← body
  let g ← g.clearInvalid
  return (a, g)

/-! ## (2) Reading -/

/-- Registers a reader. -/
def read (g : Gate) : ReadGuard × Gate :=
  (⟨g.sequence⟩, { g with readers := g.readers + 1 })

/-- Drops a reader. -/
def release (g : Gate) : Gate := { g with readers := g.readers - 1 }

end Gate

namespace ReadGuard

/-- What was read under the guard is free of interference: the gate was clear when the reader
started, and no mutation has begun since. -/
def Valid (guard : ReadGuard) (g : Gate) : Prop :=
  guard.sequence % 2 = 0 ∧ g.sequence = guard.sequence

instance (guard : ReadGuard) (g : Gate) : Decidable (guard.Valid g) :=
  inferInstanceAs (Decidable (_ ∧ _))

end ReadGuard

namespace Gate

/-! ## (3) Reading lemmas -/

/-- Reading registers a reader. -/
@[simp] theorem readers_read (g : Gate) : g.read.2.readers = g.readers + 1 := rfl

/-- Reading moves no number. -/
@[simp] theorem sequence_read (g : Gate) : g.read.2.sequence = g.sequence := rfl

/-- Reading neither sets nor clears the gate. -/
@[simp] theorem invalid_read_iff (g : Gate) : g.read.2.Invalid ↔ g.Invalid := Iff.rfl

end Gate

end TraceAtlas
