import TraceAtlas.Gate
import TraceAtlas.Index.Shape
import TraceAtlas.Index.Slots

/-! # The address index

An ordered map from addresses to values whose entries are nodes in slots, linked on several levels.
Entries are added and removed by one writer; what is removed leaves a retired slot behind, which
`Index.collect` makes free again once the gate has no reader.

## Main definitions
* `Heights` : where the heights of new nodes come from.
* `Index` : the nodes with their slots, and the proof that they are those of some towers.
* `Index.insert`, `Index.refuse`, `Index.remove`, `Index.removeRange`, `Index.collect` : the
writer's side.
* `Index.floor?`, `Index.toList`, `Index.size` : what the index holds.
-/

namespace TraceAtlas

/-! ## (1) Heights -/

/-- Heights are drawn from words, one after the other. -/
structure Heights where
  bound : Height
  word : Nat → UInt32
  drawn : Nat

namespace Heights

/-- The heights that some settings make. -/
def ofTuning (t : Tuning) : Heights := ⟨t.maxHeight, t.words t.seed, 0⟩

/-- The next height. A node reaches every further level if the next bit of its word is not set. -/
def draw (h : Heights) : Height × Heights :=
  let zeros := (h.word h.drawn).toBitVec.ctz.toNat
  have hbound := h.bound.property
  (⟨min (zeros + 1) h.bound.val, by omega⟩, { h with drawn := h.drawn + 1 })

end Heights

/-! ## (2) The index -/

/-- The nodes are those of the towers, and the slots of the towers are those in use. -/
structure Index.Sound {α : Type} (lanes : Lanes α) (slots : Slots) (size : Nat)
    (towers : List (Tower α)) : Prop where
  shape : lanes.Shape towers
  partition : slots.Partition (towers.map (·.slot))
  written : lanes.nodes.size = slots.handedOut
  counted : size = towers.length

namespace Index.Sound

variable {α : Type} {lanes : Lanes α} {slots : Slots} {size : Nat} {towers : List (Tower α)}
  {key : Address} {value : α}

/-- A new entry becomes a tower between those with lower and with higher keys. -/
theorem insert (h : Index.Sound lanes slots size towers) (hfind : lanes.find? key = none)
    (taken : slots.Taken) (height : Height) (value : α) :
    ∃ low high, towers = low ++ high ∧
      Index.Sound (lanes.insert taken.slot height key value) taken.rest (size + 1)
        (low ++ ⟨taken.slot, key, value, height.val⟩ :: high) := by
  obtain ⟨low, high, rfl, hlow, hhigh⟩ := h.shape.exists_cut_before key
  have hslot : taken.slot ≤ lanes.nodes.size := h.written ▸ h.partition.take_le taken
  have habove (t : Tower α) (ht : t ∈ high) : key < t.key := by
    rw [h.shape.find?_eq, Option.map_eq_none_iff, List.find?_eq_none] at hfind
    refine UInt64.lt_of_le_of_ne (hhigh t ht) fun heq => ?_
    exact hfind t (List.mem_append_right low ht) (by simp [heq])
  refine ⟨low, high, rfl, ?_, (h.partition.take taken).perm ?_, ?_, ?_⟩
  · exact h.shape.insert hslot (h.partition.not_mem_take taken) hlow habove height value
  · simp only [List.map_append, List.map_cons]
    exact List.perm_middle
  · rw [Lanes.size_insert hslot, h.written, h.partition.handedOut_take]
  · simp only [h.counted, List.length_append, List.length_cons]
    omega

/-- What is found is the entry of a tower. -/
theorem exists_tower (h : Index.Sound lanes slots size towers) {slot : Nat}
    (hfind : lanes.find? key = some (slot, value)) :
    ∃ t ∈ towers, t.slot = slot ∧ t.key = key ∧ t.value = value := by
  rw [h.shape.find?_eq] at hfind
  obtain ⟨t, ht, heq⟩ := Option.map_eq_some_iff.1 hfind
  obtain ⟨hslot, hvalue⟩ := Prod.mk.inj heq
  exact ⟨t, List.mem_of_find?_eq_some ht, hslot, by simpa using List.find?_some ht, hvalue⟩

/-- An entry that is taken out leaves the other towers, and its slot is retired. -/
theorem unlink (h : Index.Sound lanes slots size towers) {slot : Nat}
    (hfind : lanes.find? key = some (slot, value)) :
    ∃ low high t, towers = low ++ t :: high ∧ t.key = key ∧
      Index.Sound (lanes.unlink slot key) (slots.retire slot) (size - 1) (low ++ high) := by
  obtain ⟨t, ht, rfl, rfl, -⟩ := h.exists_tower hfind
  obtain ⟨low, high, rfl⟩ := List.append_of_mem ht
  refine ⟨low, high, t, rfl, rfl, h.shape.unlink, Slots.Partition.retire (h.partition.perm ?_),
    ?_, ?_⟩
  · simp only [List.map_append, List.map_cons]
    exact List.perm_middle.symm
  · rw [Lanes.size_unlink]
    exact h.written
  · simp only [h.counted, List.length_append, List.length_cons]
    omega

end Index.Sound

/-- An ordered map from addresses to values. -/
structure Index (α : Type) where
  plan : SlotPlan
  slots : Slots
  heights : Heights
  lanes : Lanes α
  /-- The number of entries. -/
  size : Nat
  sound : ∃ towers, Index.Sound lanes slots size towers

namespace Index

variable {α : Type}

/-- An index without entries, for values whose slots have a size. -/
def empty (t : Tuning) (slotBytes : Nat) : Index α where
  plan := .ofTuning t slotBytes
  slots := .empty
  heights := .ofTuning t
  lanes := .empty
  size := 0
  sound := ⟨[], Lanes.shape_empty, Slots.partition_empty, rfl, rfl⟩

/-- Whether there are no entries. -/
def isEmpty (ix : Index α) : Bool := ix.size == 0

/-- The entries, lowest address first. -/
def toList (ix : Index α) : List (Address × α) := ix.lanes.toList

/-- The entry with the greatest address that is not above `query`. -/
def floor? (ix : Index α) (query : Address) : Option (Address × α) :=
  ix.lanes.floor? ix.heights.bound query

/-! ## (3) Adding -/

/-- Adds an entry in a slot, at the next height. -/
def add (ix : Index α) (key : Address) (value : α) (taken : ix.slots.Taken)
    (h : ix.lanes.find? key = none) : Index α where
  plan := ix.plan
  slots := taken.rest
  heights := ix.heights.draw.2
  lanes := ix.lanes.insert taken.slot ix.heights.draw.1 key value
  size := ix.size + 1
  sound := by
    obtain ⟨towers, hsound⟩ := ix.sound
    obtain ⟨low, high, -, h⟩ := hsound.insert h taken ix.heights.draw.1 value
    exact ⟨_, h⟩

/-- The index after a refusal: at most a chunk was taken. -/
def refuse (ix : Index α) (refused : ix.slots.Refused) : Index α where
  plan := ix.plan
  slots := refused.rest
  heights := ix.heights
  lanes := ix.lanes
  size := ix.size
  sound := by
    obtain ⟨towers, hsound⟩ := ix.sound
    exact ⟨towers, hsound.shape, hsound.partition.refuse refused,
      hsound.written.trans refused.handedOut_rest.symm, hsound.counted⟩

/-- Adds an entry under an address that has none. A refusal leaves the entries as they were. -/
def insert (ix : Index α) (key : Address) (value : α) :
    Traced (Except OutOfMemory Unit × Index α) :=
  -- the contract comes before the memory: a key that is there is a fault even without a slot left
  match h : ix.lanes.find? key with
  | some _ => Traced.fault (.duplicateKey key)
  | none => do
    match ← ix.slots.take ix.plan with
    | .error refused => return (.error refused.error, ix.refuse refused)
    | .ok taken => return (.ok (), ix.add key value taken h)

/-! ## (4) Removing -/

/-- Removes an entry and retires its slot. -/
def drop (ix : Index α) (key : Address) {slot : Nat} {value : α}
    (h : ix.lanes.find? key = some (slot, value)) : Index α where
  plan := ix.plan
  slots := ix.slots.retire slot
  heights := ix.heights
  lanes := ix.lanes.unlink slot key
  size := ix.size - 1
  sound := by
    obtain ⟨towers, hsound⟩ := ix.sound
    obtain ⟨low, high, t, -, -, h⟩ := hsound.unlink h
    exact ⟨_, h⟩

/-- Removes the entry at an address, which must be there, and yields its value. -/
def remove (ix : Index α) (key : Address) : Traced (α × Index α) :=
  match h : ix.lanes.find? key with
  | none => Traced.fault (.absentKey key)
  | some (_, value) => pure (value, ix.drop key h)

/-- An index with an entry has a size. -/
theorem size_pos (ix : Index α) {key : Address} {slot : Nat} {value : α}
    (h : ix.lanes.find? key = some (slot, value)) : 0 < ix.size := by
  obtain ⟨towers, hsound⟩ := ix.sound
  obtain ⟨t, ht, -⟩ := hsound.exists_tower h
  rw [hsound.counted]
  exact List.length_pos_of_mem ht

/-- What a search from below finds is there. -/
theorem find?_ne_none_of_floor? (ix : Index α) {query key : Address} {value : α}
    (h : ix.floor? query = some (key, value)) : ix.lanes.find? key ≠ none := by
  obtain ⟨towers, hsound⟩ := ix.sound
  rw [floor?, hsound.shape.floor?_eq] at h
  obtain ⟨t, ht, heq⟩ := Option.map_eq_some_iff.1 h
  obtain ⟨rfl, -⟩ := Prod.mk.inj heq
  rw [hsound.shape.find?_eq, ne_eq, Option.map_eq_none_iff, List.find?_eq_none]
  intro hnone
  exact hnone t (List.mem_filter.1 (List.mem_of_getLast? ht)).1 (beq_self_eq_true t.key)

/-- Removes the nearest entry from below `top`, unless it starts before `start`. -/
def removeTop? (ix : Index α) (start top : Address) : Option ((Address × α) × Index α) :=
  match hfloor : ix.floor? top with
  | none => none
  | some (key, _) =>
    if key < start then none
    else
      match h : ix.lanes.find? key with
      | none => absurd h (ix.find?_ne_none_of_floor? hfloor)
      | some (_, value) => some ((key, value), ix.drop key h)

/-- The top of a range cannot be removed only if every floor lies before the range. -/
theorem removeTop?_eq_none {ix : Index α} {start top : Address}
    (h : ix.removeTop? start top = none) :
    ∀ p, ix.floor? top = some p → p.1 < start := by
  intro p hp
  unfold removeTop? at h
  split at h
  · rename_i hnone
    rw [hnone] at hp
    cases hp
  · rename_i hfloor
    rw [hfloor] at hp
    cases hp
    split at h
    · assumption
    · split at h
      · exact absurd ‹_› (ix.find?_ne_none_of_floor? hfloor)
      · cases h

/-- The top of a range that is removed is the floor of its end, and lies within it. -/
theorem removeTop?_eq_some {ix rest : Index α} {start top key : Address} {value : α}
    (h : ix.removeTop? start top = some ((key, value), rest)) :
    start ≤ key ∧ (∃ a, ix.floor? top = some (key, a)) ∧
      ∃ slot, ∃ hfind : ix.lanes.find? key = some (slot, value), rest = ix.drop key hfind := by
  unfold removeTop? at h
  split at h
  · cases h
  · rename_i k a hfloor
    split at h
    · cases h
    · rename_i hstart
      split at h
      · exact absurd ‹_› (ix.find?_ne_none_of_floor? hfloor)
      · rename_i slot v hfind
        obtain ⟨hentry, rfl⟩ := Prod.mk.inj (Option.some.inj h)
        obtain ⟨rfl, rfl⟩ := Prod.mk.inj hentry
        exact ⟨UInt64.not_lt.1 hstart, ⟨a, hfloor⟩, slot, hfind, rfl⟩

/-- Removes entries from `top` downwards until the nearest one from below starts before `start`, and
yields them in that order. -/
def removeDown (ix : Index α) (start top : Address) : List (Address × α) × Index α :=
  match _ : ix.removeTop? start top with
  | none => ([], ix)
  | some (entry, rest) =>
    let (removed, last) := rest.removeDown start top
    (entry :: removed, last)
termination_by ix.size
decreasing_by
  obtain ⟨-, -, slot, hfind, rfl⟩ := removeTop?_eq_some ‹ix.removeTop? start top = some _›
  exact Nat.sub_lt (ix.size_pos hfind) Nat.one_pos

/-- Removes every entry in the range of `length` addresses from `start` on, cut off at the end of
the address space, and yields them from the top down. -/
def removeRange (ix : Index α) (start length : Address) : List (Address × α) × Index α :=
  if length = 0 then ([], ix) else ix.removeDown start (Address.advance start (length - 1))

/-! ## (5) Recycling -/

/-- Makes the retired slots of an index free. -/
def recycle (ix : Index α) : Index α where
  plan := ix.plan
  slots := ix.slots.recycle
  heights := ix.heights
  lanes := ix.lanes
  size := ix.size
  sound := by
    obtain ⟨towers, hsound⟩ := ix.sound
    exact ⟨towers, { hsound with partition := hsound.partition.recycle }⟩

/-- Makes retired slots free if the gate has no reader. -/
def collect (ix : Index α) (gate : Gate) : Traced (Index α) := do
  match ix.slots.retired with
  | [] => return ix
  | retired =>
    if gate.Quiescent then
      Traced.note (.slotsRecycled retired.length)
      return ix.recycle
    else
      Traced.note (.slotsDeferred retired.length)
      return ix

end Index

end TraceAtlas
