import TraceAtlas.Traced

/-! # Slots

Every entry of an index occupies a slot. A slot that an entry leaves is retired first, because a
reader may still stand on it, and becomes free when no reader is left. Slots that were never used
come from chunks of memory, each twice as long as the one before, that are taken when they are first
needed and kept for good. The lists of free and retired slots have room for every slot handed out,
so that memory is asked for when a slot is new and never when it is given back.

## Main definitions
* `SlotPlan` : the size of a slot, the length of the first chunk, how many slots there may be, and
  when their lists can grow.
* `SlotPlan.locate`, `SlotPlan.chunkLength` : where a slot lies.
* `Slots` : the slots handed out so far that are retired or free, and the chunks taken.
* `Slots.Taken`, `Slots.Refused` : what a request for a slot comes to.
* `Slots.book`, `Slots.take`, `Slots.retire`, `Slots.recycle` : the life of a slot.
* `Slots.Partition` : every slot handed out is in use, retired or free, and only one of these.

## Main statements
* `Slots.Partition.take`, `Slots.Partition.retire`, `Slots.Partition.recycle` : it stays so.
-/

namespace TraceAtlas

/-- What is fixed about the slots of an index. -/
structure SlotPlan where
  /-- The bytes of one slot. -/
  slotBytes : Nat
  /-- The slots of the first chunk. -/
  firstChunk : Nat
  /-- How many slots may be handed out. -/
  limit : Nat
  /-- Whether the lists of free and retired slots have room for one more slot, when that is asked
  for the n-th time. -/
  lists : Nat → Bool

namespace SlotPlan

/-- The plan that some settings make for slots of a size. -/
def ofTuning (t : Tuning) (slotBytes : Nat) : SlotPlan where
  slotBytes
  firstChunk := t.chunkSize
  limit := t.maxNodes.toNat
  lists := t.slotLists slotBytes

/-- The number of chunks there is room for. -/
def maxChunks : Nat := 32

/-- The length of a chunk in slots. -/
def chunkLength (plan : SlotPlan) (chunk : Nat) : Nat := plan.firstChunk <<< chunk

/-- The chunk that a slot lies in, and its place there. Chunk `c` begins behind
`firstChunk * (2 ^ c - 1)` slots. -/
def locate (plan : SlotPlan) (slot : Nat) : Nat × Nat :=
  let chunk := (slot / plan.firstChunk + 1).log2
  (chunk, slot - plan.firstChunk * ((1 <<< chunk) - 1))

/-- The bytes of a chunk, as far as a word can say. -/
def chunkBytes (plan : SlotPlan) (chunk : Nat) : Nat :=
  min (plan.chunkLength chunk * plan.slotBytes) (UInt64.size - 1)

end SlotPlan

/-- The slots that were handed out and are not in use, and the memory behind all of them. -/
structure Slots where
  /-- Slots below this number were handed out. -/
  handedOut : Nat
  /-- The chunks taken. -/
  chunks : Nat
  /-- Free slots; the first is used next. -/
  free : List Nat
  /-- Slots that an entry has left, the latest first. -/
  retired : List Nat
  /-- How often room in these lists was asked for. -/
  asked : Nat
  deriving DecidableEq, Repr

namespace Slots

/-- No slot was ever handed out. -/
def empty : Slots := ⟨0, 0, [], [], 0⟩

/-- Makes sure that the chunk of a slot is there, and yields the number of chunks then. No chunk may
be as large as half the address space. -/
def reserve (plan : SlotPlan) (s : Slots) (slot : Nat) : Traced (Except OutOfMemory Nat) := do
  let chunk := (plan.locate slot).1
  if SlotPlan.maxChunks ≤ chunk then
    return .error ⟨0⟩
  else if chunk < s.chunks then
    return .ok s.chunks
  else if UInt64.size / 2 ≤ plan.chunkLength chunk * plan.slotBytes then
    return .error ⟨UInt64.ofNat (plan.chunkBytes chunk)⟩
  else
    Traced.note (.chunkTaken (chunk + 1) (plan.chunkBytes chunk))
    return .ok (chunk + 1)

/-- How a slot is handed out: a free one, or if there is none the next new one, which may have
needed another chunk. -/
inductive Taken (s : Slots) where
  | reused (slot : Nat) (free : List Nat) (h : s.free = slot :: free)
  | fresh (chunks : Nat) (h : s.free = [])

namespace Taken

variable {s : Slots}

/-- The slot that is handed out. -/
def slot : s.Taken → Nat
  | reused slot _ _ => slot
  | fresh _ _ => s.handedOut

/-- The slots without it. -/
def rest : s.Taken → Slots
  | reused _ free _ => { s with free }
  | fresh chunks _ => { s with chunks, handedOut := s.handedOut + 1, asked := s.asked + 1 }

end Taken

/-- How a request for a slot is refused: for want of slots or of memory for a chunk, or, when the
chunk of the next new one is there, for want of room in the lists. -/
inductive Refused (s : Slots) where
  | early (e : OutOfMemory)
  | late (chunks : Nat)

namespace Refused

variable {s : Slots}

/-- The refusal that is reported. -/
def error : s.Refused → OutOfMemory
  | early e => e
  | late _ => .ofReservation

/-- The slots afterwards: a chunk that was taken stays. -/
def rest : s.Refused → Slots
  | early _ => s
  | late chunks => { s with chunks, asked := s.asked + 1 }

/-- A refusal hands out no slot. -/
@[simp] theorem handedOut_rest (r : s.Refused) : r.rest.handedOut = s.handedOut := by
  cases r <;> rfl

/-- A refusal takes no free slot. -/
@[simp] theorem free_rest (r : s.Refused) : r.rest.free = s.free := by
  cases r <;> rfl

/-- A refusal retires no slot. -/
@[simp] theorem retired_rest (r : s.Refused) : r.rest.retired = s.retired := by
  cases r <;> rfl

end Refused

/-- Hands out the next new slot, whose chunk is the last of so many, if the lists have room for it.
-/
def book (plan : SlotPlan) (s : Slots) (chunks : Nat) (h : s.free = []) :
    Except s.Refused s.Taken :=
  if plan.lists s.asked then .ok (.fresh chunks h) else .error (.late chunks)

/-- Hands out a slot: a free one if there is one, else the next new one. -/
def take (plan : SlotPlan) (s : Slots) : Traced (Except s.Refused s.Taken) := do
  match h : s.free with
  | slot :: free => return .ok (.reused slot free h)
  | [] =>
    -- the limit counts slots ever handed out, not those in use
    if plan.limit ≤ s.handedOut then
      return .error (.early ⟨UInt64.ofNat plan.slotBytes⟩)
    else
      match ← s.reserve plan s.handedOut with
      | .error e => return .error (.early e)
      | .ok chunks => return s.book plan chunks h

/-- An entry leaves a slot. -/
def retire (s : Slots) (slot : Nat) : Slots := { s with retired := slot :: s.retired }

/-- All retired slots become free. -/
def recycle (s : Slots) : Slots := { s with free := s.retired ++ s.free, retired := [] }

/-! ## (2) Where slots are -/

/-- Every slot handed out is exactly one of in use, retired and free. -/
def Partition (s : Slots) (used : List Nat) : Prop :=
  (used ++ (s.retired ++ s.free)).Perm (List.range s.handedOut)

/-- At first there is no slot to be anywhere. -/
theorem partition_empty : empty.Partition [] := .nil

namespace Partition

variable {s : Slots} {used used' : List Nat} {slot : Nat}

/-- The order of the slots in use does not matter. -/
theorem perm (h : s.Partition used) (hp : used'.Perm used) : s.Partition used' :=
  (hp.append_right _).trans h

/-- A slot in use was handed out. -/
theorem lt_of_mem (h : s.Partition used) (hslot : slot ∈ used) : slot < s.handedOut :=
  List.mem_range.1 (h.subset (List.mem_append_left _ hslot))

/-- A slot that is handed out was not in use. -/
theorem not_mem_take (h : s.Partition used) (t : s.Taken) : t.slot ∉ used := by
  cases t with
  | reused slot free hfree =>
    intro hslot
    have hnodup := h.nodup_iff.2 List.nodup_range
    refine (List.nodup_append.1 hnodup).2.2 slot hslot slot ?_ rfl
    simp [hfree]
  | fresh chunks hfree => exact fun hslot => Nat.lt_irrefl _ (h.lt_of_mem hslot)

/-- A slot that is handed out was handed out before or is the next. -/
theorem take_le (h : s.Partition used) (t : s.Taken) : t.slot ≤ s.handedOut := by
  cases t with
  | reused slot free hfree =>
    have hslot : slot ∈ used ++ (s.retired ++ s.free) := by simp [hfree]
    exact Nat.le_of_lt (List.mem_range.1 (h.subset hslot))
  | fresh chunks hfree => exact Nat.le_refl _

/-- A slot that is handed out is counted, if it was not before. -/
theorem handedOut_take (h : s.Partition used) (t : s.Taken) :
    t.rest.handedOut = max s.handedOut (t.slot + 1) := by
  cases t with
  | reused slot free hfree =>
    have hslot : slot ∈ used ++ (s.retired ++ s.free) := by simp [hfree]
    exact (Nat.max_eq_left (List.mem_range.1 (h.subset hslot))).symm
  | fresh chunks hfree => exact (Nat.max_eq_right (Nat.le_succ _)).symm

/-- The slot that is handed out is in use then, and the others are where they were. -/
theorem take (h : s.Partition used) (t : s.Taken) : t.rest.Partition (t.slot :: used) := by
  cases t with
  | reused slot free hfree =>
    refine List.Perm.trans ?_ h
    rw [hfree, ← List.append_assoc, ← List.append_assoc]
    exact List.perm_middle.symm
  | fresh chunks hfree =>
    rw [Partition, Taken.rest, List.range_succ]
    exact (List.Perm.cons _ h).trans (List.perm_append_singleton _ _).symm

/-- A refusal leaves every slot where it was. -/
theorem refuse (h : s.Partition used) (r : s.Refused) : r.rest.Partition used := by
  rw [Partition, r.handedOut_rest, r.free_rest, r.retired_rest]
  exact h

/-- A slot that an entry leaves is retired. -/
theorem retire (h : s.Partition (slot :: used)) : (s.retire slot).Partition used :=
  List.Perm.trans List.perm_middle h

/-- Retired slots that become free are still somewhere. -/
theorem recycle (h : s.Partition used) : s.recycle.Partition used := h

end Partition

end Slots

end TraceAtlas
