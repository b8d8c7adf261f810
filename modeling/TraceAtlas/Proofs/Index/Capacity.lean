import TraceAtlas.Proofs.Index.Contents

/-! # How full an index is

The slots that an index has handed out belong to its entries, to entries that were removed and wait
to be recycled, or to nobody. An insertion takes a slot of nobody, or a new one while there may be
more; so it is refused exactly if entries and removed entries together fill the plan, unless memory
for new slots cannot be had at all. Every operation is said here in terms of these two numbers.

## Main definitions
* `Slots.GrowthFails`, `Slots.ListsFail` : the next slot would need memory that cannot be had, be it
  for a chunk or in the lists of slots.
* `SlotPlan.Affordable` : memory for all slots of a plan can be had.
* `Surroundings.Ample` : the lists of slots always have room.
* `Index.used` : the slots of the entries.
* `Index.Stocked` : an index keeps to a plan, and some removed entries wait to be recycled.
* `Index.Alike` : two indexes are the same but for what refusals leave behind.

## Main statements
* `Slots.growthFails_ofTuning_iff` : when memory for new slots cannot be had.
* `SlotPlan.affordable_ofTuning_iff` : it is the size of the first chunk alone that matters.
* `Index.partition_used`, `Index.size_add_retired_add_free` : what the slots handed out are.
* `Index.Stocked.outcome_insert` : when an insertion is refused.
* `Index.Stocked.insert`, `Index.Stocked.remove`, `Index.Stocked.removeRange`,
  `Index.Stocked.recycle` : the operations.
-/

namespace TraceAtlas

/-- The lists of slots have room whenever it is asked for. -/
def Surroundings.Ample (given : Surroundings) : Prop :=
  ∀ slotBytes n, given.slotLists slotBytes n = true

namespace SlotPlan

/-- No chunk that a slot of the plan lies in is half of the address space or more. -/
def Affordable (plan : SlotPlan) : Prop :=
  ∀ slot < plan.limit, plan.chunkLength (plan.locate slot).1 * plan.slotBytes < UInt64.size / 2

/-- The chunks before that of a slot hold so many slots that it is not much longer than they are. -/
theorem chunkLength_locate_le (plan : SlotPlan) (slot : Nat) :
    plan.chunkLength (plan.locate slot).1 ≤ slot + plan.firstChunk := by
  have hpow : 2 ^ (slot / plan.firstChunk + 1).log2 ≤ slot / plan.firstChunk + 1 :=
    Nat.log2_self_le (Nat.succ_ne_zero _)
  calc plan.chunkLength (plan.locate slot).1
      = plan.firstChunk * 2 ^ (slot / plan.firstChunk + 1).log2 := Nat.shiftLeft_eq _ _
    _ ≤ plan.firstChunk * (slot / plan.firstChunk + 1) := Nat.mul_le_mul_left _ hpow
    _ ≤ slot + plan.firstChunk := by
      rw [Nat.mul_succ]
      exact Nat.add_le_add_right (Nat.mul_div_le _ _) _

/-- The first slot lies in the first chunk, which may be half of the address space or more. -/
theorem first_chunk_large (t : Tuning) {slotBytes : Nat} (hlow : 64 ≤ slotBytes)
    (horder : 56 < t.chunkOrder.val) : UInt64.size / 2 ≤
      (ofTuning t slotBytes).chunkLength ((ofTuning t slotBytes).locate 0).1 * slotBytes := by
  have hfirst : (ofTuning t slotBytes).firstChunk = 2 ^ t.chunkOrder.val := Nat.one_shiftLeft _
  have hchunk : (ofTuning t slotBytes).chunkLength ((ofTuning t slotBytes).locate 0).1 =
      2 ^ t.chunkOrder.val := by
    rw [chunkLength, locate, Nat.zero_div, hfirst]
    exact Nat.shiftLeft_zero
  have hlarge : 2 ^ 57 ≤ 2 ^ t.chunkOrder.val := Nat.pow_le_pow_right Nat.two_pos horder
  rw [hchunk]
  calc 2 ^ 64 / 2 = 2 ^ 57 * 64 := by decide
    _ ≤ 2 ^ t.chunkOrder.val * slotBytes := Nat.mul_le_mul hlarge hlow

/-- There are fewer than `2 ^ 32` slots, so that only the first chunk can be too large. -/
theorem affordable_ofTuning_iff (t : Tuning) {slotBytes : Nat} (hlow : 64 ≤ slotBytes)
    (hhigh : slotBytes ≤ 112) :
    (ofTuning t slotBytes).Affordable ↔ t.maxNodes = 0 ∨ t.chunkOrder.val ≤ 56 := by
  constructor
  · intro h
    by_contra hne
    obtain ⟨hmax, horder⟩ := not_or.1 hne
    have hpos : 0 < t.maxNodes.toNat :=
      Nat.pos_of_ne_zero fun h0 => hmax (UInt32.toNat_inj.1 h0)
    exact Nat.not_lt.2 (first_chunk_large t hlow (Nat.not_le.1 horder)) (h 0 hpos)
  · rintro (hmax | horder) slot hslot
    · have hslot : slot < t.maxNodes.toNat := hslot
      rw [hmax] at hslot
      exact absurd hslot (Nat.not_lt_zero slot)
    · have hslot : slot < t.maxNodes.toNat := hslot
      have hmax := t.maxNodes.toNat_lt
      have hpow : 2 ^ t.chunkOrder.val ≤ 2 ^ 56 := Nat.pow_le_pow_right Nat.two_pos horder
      -- a chunk is at most as long as the slots before it and the first chunk together
      have hlength : (ofTuning t slotBytes).chunkLength ((ofTuning t slotBytes).locate slot).1 ≤
          2 ^ 32 + 2 ^ 56 := by
        have hfirst : (ofTuning t slotBytes).firstChunk = 2 ^ t.chunkOrder.val :=
          Nat.one_shiftLeft _
        have hle := (ofTuning t slotBytes).chunkLength_locate_le slot
        omega
      have hbytes := Nat.mul_le_mul hlength hhigh
      show _ < 2 ^ 64 / 2
      exact Nat.lt_of_le_of_lt hbytes (by omega)

end SlotPlan

namespace Slots

variable {plan : SlotPlan} {s : Slots}

/-- There is no free slot, there may be more slots, and the memory for the next one is refused. -/
def GrowthFails (plan : SlotPlan) (s : Slots) : Prop :=
  s.free = [] ∧ s.handedOut < plan.limit ∧
    ∃ e, (s.reserve plan s.handedOut).outcome = .ok (.error e)

/-- There is no free slot, there may be more slots, and the lists have no room for the next one. -/
def ListsFail (plan : SlotPlan) (s : Slots) : Prop :=
  s.free = [] ∧ s.handedOut < plan.limit ∧ plan.lists s.asked = false

/-- Slots that settings allow for lie in one of the chunks that there is room for. -/
theorem locate_ofTuning_lt (t : Tuning) (slotBytes : Nat) {slot : Nat}
    (h : slot < (SlotPlan.ofTuning t slotBytes).limit) :
    ((SlotPlan.ofTuning t slotBytes).locate slot).1 < SlotPlan.maxChunks := by
  have hlimit : slot < t.maxNodes.toNat := h
  have hmax := t.maxNodes.toNat_lt
  have hdiv := Nat.div_le_self slot (SlotPlan.ofTuning t slotBytes).firstChunk
  refine (Nat.log2_lt (Nat.succ_ne_zero _)).2 (?_ : _ < 2 ^ 32)
  omega

/-- Under any settings, memory cannot be had only if the next slot needs another chunk, and that
would be half of the address space or more. -/
theorem growthFails_ofTuning_iff (t : Tuning) (slotBytes : Nat) :
    s.GrowthFails (.ofTuning t slotBytes) ↔
      s.free = [] ∧ s.handedOut < t.maxNodes.toNat ∧
        s.chunks ≤ ((SlotPlan.ofTuning t slotBytes).locate s.handedOut).1 ∧
        UInt64.size / 2 ≤ (SlotPlan.ofTuning t slotBytes).chunkLength
          ((SlotPlan.ofTuning t slotBytes).locate s.handedOut).1 * slotBytes := by
  refine and_congr_right fun _ => and_congr_right fun hlt => ?_
  unfold reserve
  rw [if_neg (Nat.not_le.2 (locate_ofTuning_lt t slotBytes hlt))]
  split
  · rename_i hthere
    refine iff_of_false ?_ fun h => Nat.not_le.2 hthere h.1
    rintro ⟨e, he⟩
    cases he
  · rename_i habsent
    rw [and_iff_right (Nat.not_lt.1 habsent)]
    split
    · exact iff_of_true ⟨_, rfl⟩ ‹_›
    · refine iff_of_false ?_ ‹_›
      rintro ⟨e, he⟩
      cases he

/-- Where memory for all slots can be had, it never cannot. -/
theorem not_growthFails_of_affordable {t : Tuning} {slotBytes : Nat}
    (h : (SlotPlan.ofTuning t slotBytes).Affordable) (s : Slots) :
    ¬s.GrowthFails (.ofTuning t slotBytes) := by
  rw [growthFails_ofTuning_iff]
  rintro ⟨-, hlt, -, hlarge⟩
  exact absurd (h s.handedOut hlt) (Nat.not_lt.2 hlarge)

/-- Where the lists always have room, they never fail. -/
theorem not_listsFail_of_ample {t : Tuning} (h : t.Ample) (slotBytes : Nat) (s : Slots) :
    ¬s.ListsFail (.ofTuning t slotBytes) := by
  rintro ⟨-, -, hnone⟩
  have hroom : (SlotPlan.ofTuning t slotBytes).lists s.asked = true := h slotBytes s.asked
  rw [hroom] at hnone
  cases hnone

/-- Where memory for all slots cannot be had, there is none for the first one. -/
theorem growthFails_empty_of_not_affordable {t : Tuning} {slotBytes : Nat} (hlow : 64 ≤ slotBytes)
    (hhigh : slotBytes ≤ 112) (h : ¬(SlotPlan.ofTuning t slotBytes).Affordable) :
    empty.GrowthFails (.ofTuning t slotBytes) := by
  rw [SlotPlan.affordable_ofTuning_iff t hlow hhigh, not_or] at h
  obtain ⟨hmax, horder⟩ := h
  refine (growthFails_ofTuning_iff t slotBytes).2 ⟨rfl, ?_, Nat.zero_le _, ?_⟩
  · exact Nat.pos_of_ne_zero fun h0 => hmax (UInt32.toNat_inj.1 h0)
  · exact SlotPlan.first_chunk_large t hlow (Nat.not_le.1 horder)

/-- A request that needs a chunk that cannot be had is refused. -/
theorem outcome_take_of_growthFails (h : s.GrowthFails plan) :
    ∃ e, (s.take plan).outcome = .ok (.error (.early e)) := by
  obtain ⟨hfree, hlt, e, he⟩ := h
  unfold take
  split
  · rename_i hsome
    rw [hfree] at hsome
    cases hsome
  · rw [if_neg (Nat.not_le.2 hlt), Traced.outcome_bind_of_ok he]
    exact ⟨e, rfl⟩

/-- Where the chunk of the next slot can be had, a request for a slot that is not free is up to the
lists. -/
theorem outcome_take_of_not_growthFails (hgrow : ¬s.GrowthFails plan) (hfree : s.free = [])
    (hlt : s.handedOut < plan.limit) :
    ∃ chunks, (s.take plan).outcome = .ok (s.book plan chunks hfree) := by
  unfold take
  split
  · rename_i hsome
    rw [hfree] at hsome
    cases hsome
  · rw [if_neg (Nat.not_le.2 hlt)]
    obtain ⟨result, hreserve⟩ := exists_outcome_reserve plan s s.handedOut
    cases result with
    | error e => exact absurd ⟨hfree, hlt, e, hreserve⟩ hgrow
    | ok chunks =>
      rw [Traced.outcome_bind_of_ok hreserve]
      exact ⟨chunks, rfl⟩

/-- A request for a slot is refused if none is free and all of the plan are handed out. -/
theorem outcome_take_of_full (hfree : s.free = []) (hfull : plan.limit ≤ s.handedOut) :
    (s.take plan).outcome = .ok (.error (.early ⟨UInt64.ofNat plan.slotBytes⟩)) := by
  unfold take
  split
  · rename_i hsome
    rw [hfree] at hsome
    cases hsome
  · rw [if_pos hfull]
    rfl

/-- A request for a slot is answered otherwise, unless it needs memory that cannot be had. -/
theorem exists_outcome_take_of_room (hgrow : ¬s.GrowthFails plan) (hlists : ¬s.ListsFail plan)
    (hroom : s.free = [] → s.handedOut < plan.limit) :
    ∃ taken, (s.take plan).outcome = .ok (.ok taken) := by
  cases hfree : s.free with
  | cons slot free =>
    unfold take
    split
    · exact ⟨_, rfl⟩
    · rename_i hnone
      rw [hfree] at hnone
      cases hnone
  | nil =>
    obtain ⟨chunks, htake⟩ := outcome_take_of_not_growthFails hgrow hfree (hroom hfree)
    have hasked : plan.lists s.asked = true := by
      refine Bool.not_eq_false _ ▸ fun hasked => ?_
      exact hlists ⟨hfree, hroom hfree, hasked⟩
    refine ⟨.fresh chunks hfree, htake.trans ?_⟩
    rw [book, if_pos hasked]

/-- No more slots are handed out than planned. -/
theorem handedOut_le_of_outcome_take {taken : s.Taken} (h : (s.take plan).outcome = .ok (.ok taken))
    (hle : s.handedOut ≤ plan.limit) : taken.rest.handedOut ≤ plan.limit := by
  cases taken with
  | reused slot free hfree => exact hle
  | fresh chunks hfree =>
    show s.handedOut + 1 ≤ plan.limit
    refine Nat.not_le.1 fun hfull => ?_
    rw [outcome_take_of_full hfree hfull] at h
    cases h

/-- Handing out a slot retires none. -/
@[simp] theorem retired_rest (taken : s.Taken) : taken.rest.retired = s.retired := by
  cases taken <;> rfl

end Slots

namespace Index

variable {α : Type} {ix ix' ix'' : Index α} {plan : SlotPlan} {waiting : Nat} {key : Address}
  {value : α}

/-- The slots of the entries, lowest address first. -/
def used (ix : Index α) : List Nat :=
  ix.toList.filterMap fun entry => (ix.lanes.find? entry.1).map (·.1)

/-- **Every slot handed out** is that of one entry, is retired or is free, and only one of these. -/
theorem partition_used (ix : Index α) :
    ix.slots.Partition ix.used ∧ ix.used.length = ix.size := by
  obtain ⟨towers, hsound⟩ := ix.sound
  have hused : ix.used = towers.map (·.slot) := by
    rw [used, toList, hsound.shape.toList_eq, List.filterMap_map, ← List.filterMap_eq_map]
    refine List.filterMap_congr fun t ht => ?_
    simp [hsound.find?_of_mem ht]
  rw [hused, List.length_map, hsound.counted]
  exact ⟨hsound.partition, rfl⟩

/-- Every slot handed out is that of an entry, retired or free. -/
theorem size_add_retired_add_free (ix : Index α) :
    ix.size + ix.slots.retired.length + ix.slots.free.length = ix.slots.handedOut := by
  obtain ⟨hpartition, hlength⟩ := ix.partition_used
  have hperm := List.Perm.length_eq hpartition
  simp only [List.length_append, List.length_range, hlength] at hperm
  omega

/-! ## (2) The operations -/

/-- An index keeps to a plan, and some removed entries wait for their slots to be recycled. -/
structure Stocked (ix : Index α) (plan : SlotPlan) (waiting : Nat) : Prop where
  plan_eq : ix.plan = plan
  handedOut_le : ix.slots.handedOut ≤ plan.limit
  retired : ix.slots.retired.length = waiting

/-- No slot is handed out at first, and none waits. -/
theorem stocked_empty (t : Tuning) (slotBytes : Nat) :
    (empty t slotBytes : Index α).Stocked (.ofTuning t slotBytes) 0 :=
  ⟨rfl, Nat.zero_le _, rfl⟩

/-- What an insertion comes to is what its request for a slot comes to. -/
theorem outcome_insert_eq (value : α) (hfind : ix.lanes.find? key = none) :
    (ix.insert key value).outcome = (ix.slots.take ix.plan).outcome.map fun
      | .ok taken => (.ok (), ix.add key value taken hfind)
      | .error refused => (.error refused.error, ix.refuse refused) := by
  obtain ⟨answer, htake⟩ := Slots.exists_outcome_take ix.plan ix.slots
  unfold insert
  split
  · rename_i hsome
    rw [hfind] at hsome
    cases hsome
  · rw [Traced.outcome_bind_of_ok htake, htake]
    cases answer <;> rfl

/-- An insertion that ends well took a slot for its entry, or was refused one. -/
theorem of_outcome_insert {result : Except OutOfMemory Unit}
    (h : (ix.insert key value).outcome = .ok (result, ix')) :
    match result with
    | .ok () => ∃ taken hfind, (ix.slots.take ix.plan).outcome = .ok (.ok taken) ∧
        ix' = ix.add key value taken hfind
    | .error e => ∃ refused, (ix.slots.take ix.plan).outcome = .ok (.error refused) ∧
        e = refused.error ∧ ix' = ix.refuse refused := by
  have hfind : ix.lanes.find? key = none :=
    Option.map_eq_none_iff.1 (absent_of_outcome_insert h)
  obtain ⟨answer, htake⟩ := Slots.exists_outcome_take ix.plan ix.slots
  rw [outcome_insert_eq value hfind, htake] at h
  cases answer with
  | error refused =>
    obtain ⟨rfl, rfl⟩ := Prod.mk.inj (Except.ok.inj h)
    exact ⟨refused, htake, rfl, rfl⟩
  | ok taken =>
    obtain ⟨rfl, rfl⟩ := Prod.mk.inj (Except.ok.inj h)
    exact ⟨taken, hfind, htake, rfl⟩

/-- A removal that ends well dropped its entry. -/
theorem of_outcome_remove (h : (ix.remove key).outcome = .ok (value, ix')) :
    ∃ slot, ∃ hfind : ix.lanes.find? key = some (slot, value), ix' = ix.drop key hfind := by
  unfold remove at h
  split at h
  · cases h
  · rename_i slot a hfind
    obtain ⟨rfl, rfl⟩ := Prod.mk.inj (Except.ok.inj h)
    exact ⟨slot, hfind, rfl⟩

/-- There is nothing to remove from an index without entries. -/
theorem removeRange_of_empty (h : ix.size = 0) (start length : Address) :
    ix.removeRange start length = ([], ix) := by
  unfold removeRange
  split
  · rfl
  · rw [removeDown]
    split
    · rfl
    · rename_i hsome
      obtain ⟨-, -, slot, hfind, -⟩ := removeTop?_eq_some hsome
      exact absurd h (Nat.ne_of_gt (ix.size_pos hfind))

namespace Stocked

/-- There is no slot to be had if the entries and the removed ones that wait fill the plan. -/
theorem outcome_take_of_full (h : ix.Stocked plan waiting)
    (hfull : ix.size + waiting = plan.limit) :
    (ix.slots.take ix.plan).outcome = .ok (.error (.early ⟨UInt64.ofNat plan.slotBytes⟩)) := by
  obtain ⟨rfl, hle, rfl⟩ := h
  -- all slots handed out are in use or retired, and there are as many as there may be
  have hsum := ix.size_add_retired_add_free
  have hfree : ix.slots.free = [] := List.eq_nil_of_length_eq_zero (by omega)
  exact Slots.outcome_take_of_full hfree (by omega)

/-- **When an insertion is refused**: exactly if the entries and the removed ones that wait fill the
plan. Nothing changes then, and the error names the size of a slot. -/
theorem outcome_insert (h : ix.Stocked plan waiting) (hkey : ix.contents key = none)
    (hgrow : ¬ix.slots.GrowthFails plan) (hlists : ¬ix.slots.ListsFail plan) (value : α) :
    if ix.size + waiting = plan.limit then
      (ix.insert key value).outcome = .ok (.error ⟨UInt64.ofNat plan.slotBytes⟩, ix)
    else ∃ ix', (ix.insert key value).outcome = .ok (.ok (), ix') := by
  have hfind : ix.lanes.find? key = none := Option.map_eq_none_iff.1 hkey
  rw [outcome_insert_eq value hfind]
  split
  · rename_i hfull
    rw [h.outcome_take_of_full hfull]
    rfl
  · rename_i hroom
    have hnext : ix.slots.free = [] → ix.slots.handedOut < ix.plan.limit := by
      intro hfree
      have hsum := ix.size_add_retired_add_free
      have hle := h.handedOut_le
      rw [hfree, List.length_nil, h.retired] at hsum
      rw [h.plan_eq]
      omega
    obtain ⟨taken, hok⟩ := Slots.exists_outcome_take_of_room (h.plan_eq ▸ hgrow)
      (h.plan_eq ▸ hlists) hnext
    exact ⟨ix.add key value taken hfind, by rw [hok]; rfl⟩

/-- An insertion leaves those that wait. -/
theorem insert (h : ix.Stocked plan waiting) {result : Except OutOfMemory Unit}
    (hinsert : (ix.insert key value).outcome = .ok (result, ix')) :
    ix'.Stocked plan waiting ∧ ix'.size = ix.size + if result = .ok () then 1 else 0 := by
  obtain ⟨rfl, hle, rfl⟩ := h
  have htake := of_outcome_insert hinsert
  cases result with
  | ok _ =>
    obtain ⟨taken, hfind, hok, rfl⟩ := htake
    exact ⟨⟨rfl, Slots.handedOut_le_of_outcome_take hok hle,
      congrArg List.length (Slots.retired_rest taken)⟩, rfl⟩
  | error e =>
    obtain ⟨refused, -, -, rfl⟩ := htake
    exact ⟨⟨rfl, refused.handedOut_rest ▸ hle, congrArg List.length refused.retired_rest⟩, rfl⟩

/-- An entry that is dropped waits. -/
theorem drop (h : ix.Stocked plan waiting) {slot : Nat}
    (hfind : ix.lanes.find? key = some (slot, value)) :
    (ix.drop key hfind).Stocked plan (waiting + 1) ∧ (ix.drop key hfind).size + 1 = ix.size :=
  ⟨⟨h.plan_eq, h.handedOut_le, congrArg (· + 1) h.retired⟩,
    Nat.sub_add_cancel (ix.size_pos hfind)⟩

/-- Every entry that is removed with a range waits. -/
theorem removeDown (start top : Address) (h : ix.Stocked plan waiting) :
    (ix.removeDown start top).2.Stocked plan (waiting + (ix.removeDown start top).1.length) ∧
      (ix.removeDown start top).2.size + (ix.removeDown start top).1.length = ix.size := by
  fun_induction Index.removeDown ix start top generalizing waiting with
  | case1 ix hnone => exact ⟨h, rfl⟩
  | case2 ix entry rest hsome removed last hrec ih =>
    obtain ⟨-, -, slot, hfind, rfl⟩ := removeTop?_eq_some hsome
    obtain ⟨hdropped, hsize⟩ := h.drop hfind
    obtain ⟨hstocked, hcount⟩ := ih hdropped
    rw [hrec] at hstocked hcount
    rw [Nat.add_right_comm] at hstocked
    refine ⟨hstocked, ?_⟩
    show last.size + (removed.length + 1) = ix.size
    have hcount : last.size + removed.length = (ix.drop entry.1 hfind).size := hcount
    omega

/-- The slots of the entries that are removed from a range join those that wait. -/
theorem removeRange (start length : Address) (h : ix.Stocked plan waiting) :
    (ix.removeRange start length).2.Stocked plan
        (waiting + (ix.removeRange start length).1.length) ∧
      (ix.removeRange start length).2.size + (ix.removeRange start length).1.length = ix.size := by
  unfold Index.removeRange
  split
  · exact ⟨h, rfl⟩
  · exact h.removeDown start _

/-- After recycling nothing waits. -/
theorem recycle (h : ix.Stocked plan waiting) : ix.recycle.Stocked plan 0 :=
  ⟨h.plan_eq, h.handedOut_le, rfl⟩

end Stocked

/-! ## (3) What refusals leave behind -/

/-- Two indexes are the same, but for the chunks taken and for how often room in the lists of slots
was asked for. -/
structure Alike (ix ix' : Index α) : Prop where
  plan : ix'.plan = ix.plan
  heights : ix'.heights = ix.heights
  lanes : ix'.lanes = ix.lanes
  slots : ∃ chunks asked, ix'.slots = { ix.slots with chunks, asked }

namespace Alike

/-- An index is like itself. -/
theorem refl (ix : Index α) : ix.Alike ix := ⟨rfl, rfl, rfl, _, _, rfl⟩

/-- What one refusal leaves and then another is what refusals leave. -/
theorem trans (h : ix.Alike ix') (h' : ix'.Alike ix'') : ix.Alike ix'' := by
  obtain ⟨chunks, asked, hslots⟩ := h.slots
  obtain ⟨chunks', asked', hslots'⟩ := h'.slots
  exact ⟨h'.plan.trans h.plan, h'.heights.trans h.heights, h'.lanes.trans h.lanes, chunks', asked',
    by rw [hslots', hslots]⟩

/-- A refusal leaves at most a chunk behind. -/
theorem refuse (ix : Index α) (refused : ix.slots.Refused) : ix.Alike (ix.refuse refused) := by
  refine ⟨rfl, rfl, rfl, ?_⟩
  cases refused <;> exact ⟨_, _, rfl⟩

/-- Refusals leave the entries. -/
theorem contents (h : ix.Alike ix') : ix'.contents = ix.contents := by
  funext k
  rw [Index.contents, Index.contents, h.lanes]

/-- They hand out no slot. -/
theorem handedOut (h : ix.Alike ix') : ix'.slots.handedOut = ix.slots.handedOut := by
  obtain ⟨chunks, asked, hslots⟩ := h.slots
  rw [hslots]

/-- They retire none. -/
theorem retired (h : ix.Alike ix') : ix'.slots.retired = ix.slots.retired := by
  obtain ⟨chunks, asked, hslots⟩ := h.slots
  rw [hslots]

/-- And they keep to the plan. -/
theorem stocked (h : ix.Alike ix') (hstocked : ix.Stocked plan waiting) :
    ix'.Stocked plan waiting :=
  ⟨h.plan.trans hstocked.plan_eq, h.handedOut ▸ hstocked.handedOut_le, h.retired ▸ hstocked.retired⟩

end Alike

/-! ## (4) Collecting -/

/-- The index after a collection: recycled if the gate has no reader. -/
def collected (ix : Index α) (gate : Gate) : Index α := if gate.Quiescent then ix.recycle else ix

/-- A collection always ends well. -/
theorem outcome_collect_eq (ix : Index α) (gate : Gate) :
    (ix.collect gate).outcome = .ok (ix.collected gate) := by
  unfold collect collected
  split
  · rename_i hnone
    have hsame : ix.recycle = ix := by
      obtain ⟨plan, ⟨handedOut, chunks, free, retired⟩, heights, lanes, size, sound⟩ := ix
      obtain rfl : retired = [] := hnone
      rfl
    rw [hsame, ite_self]
    rfl
  · split <;> rfl

/-- It leaves the entries. -/
@[simp] theorem contents_collected (ix : Index α) (gate : Gate) :
    (ix.collected gate).contents = ix.contents := by
  unfold collected
  split <;> rfl

/-- After a collection no slot waits if nobody reads, and the same ones do otherwise. -/
theorem Stocked.collected (h : ix.Stocked plan waiting) (gate : Gate) :
    (ix.collected gate).Stocked plan (if gate.Quiescent then 0 else waiting) := by
  unfold Index.collected
  split
  · exact h.recycle
  · exact h

end Index

end TraceAtlas
