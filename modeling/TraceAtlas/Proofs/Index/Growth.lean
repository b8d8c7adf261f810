import Mathlib.Order.Bounds.Basic
import TraceAtlas.Proofs.Index.Chunks

/-! # How an index grows

A new slot is handed out only if none is free, and a chunk is taken only if the chunks before it are
full. So there are never more chunks than the slots need, chunks are taken one after the other, and
each of them is told of once. A request that is refused for want of a slot or of memory for a chunk
takes nothing. But the lists of slots get their room last: a request that is refused there leaves
the chunk of its slot behind, and the next one finds it.

## Main definitions
* `Notice.isGrowth`, `SlotPlan.growth` : the notices that tell of chunks.
* `SlotPlan.HasRoom` : there is room for the chunks of all slots.
* `Slots.Pending`, `Slots.wanted` : the slots handed out, and one that could not be.
* `Slots.Fitted` : the chunks taken are the fewest that hold the slots that were wanted.
* `Slots.Room`, `Slots.Gives` : the chunk of the next slot, and what a request for a slot comes to.
* `Slots.Extends` : what an operation makes of the slots handed out and of the chunks.

## Main statements
* `SlotPlan.fst_locate_lt_iff` : which slots lie in the first chunks.
* `Slots.Fitted.gives` : what a request for a slot comes to if the chunks are the fewest.
* `Slots.Extends.fitted`, `Slots.Extends.growth` : they stay the fewest, and are told of in order.
* `Index.extends_insert`, `Index.extends_removeRange`, `Index.extends_collect` : the operations.
* `Index.insert_of_growthFails`, `Index.insert_of_listsFail` : insertions that are refused.
-/

namespace TraceAtlas

/-- The notice tells of a chunk that was taken. -/
def Notice.isGrowth : Notice → Bool
  | chunkTaken .. => true
  | _ => false

/-! ## (1) Chunks that are needed -/

namespace SlotPlan

variable {plan : SlotPlan} {slot chunk : Nat}

/-- The notice that tells of a chunk: how many chunks there are with it, and its bytes. -/
def growth (plan : SlotPlan) (chunk : Nat) : Notice :=
  .chunkTaken (chunk + 1) (plan.chunkBytes chunk)

/-- The first chunk has a slot, and every slot of the plan lies in a chunk that there is room for.
-/
structure HasRoom (plan : SlotPlan) : Prop where
  first_pos : 0 < plan.firstChunk
  locate_lt : ∀ slot < plan.limit, (plan.locate slot).1 < maxChunks

/-- The slots of the first chunks are those that these chunks hold. -/
theorem fst_locate_lt_iff (hfirst : 0 < plan.firstChunk) :
    (plan.locate slot).1 < chunk ↔ slot < plan.slotsBefore chunk := by
  obtain ⟨hlow, hhigh⟩ := (fst_locate_eq_iff hfirst).1 (rfl : (plan.locate slot).1 = _)
  constructor
  · intro hlt
    exact Nat.lt_of_lt_of_le hhigh (plan.slotsBefore_mono hlt)
  · intro hslot
    refine Nat.not_le.1 fun hle => ?_
    have hmono := plan.slotsBefore_mono hle
    omega

/-- Each chunk holds a slot. -/
theorem slotsBefore_lt_succ (hfirst : 0 < plan.firstChunk) (chunk : Nat) :
    plan.slotsBefore chunk < plan.slotsBefore (chunk + 1) := by
  have hsum := plan.slotsBefore_add_firstChunk chunk
  rw [slotsBefore_succ]
  omega

end SlotPlan

namespace Slots

variable {plan : SlotPlan} {s s' : Slots} {notices : List Notice} {chunks : Nat}

/-- When room in the lists of slots was asked for most recently, there was none. -/
def Pending (plan : SlotPlan) (s : Slots) : Prop :=
  0 < s.asked ∧ plan.lists (s.asked - 1) = false

instance (plan : SlotPlan) (s : Slots) : Decidable (s.Pending plan) :=
  inferInstanceAs (Decidable (_ ∧ _))

/-- The slots handed out, and the next one if it was wanted and there was no room for it. -/
def wanted (plan : SlotPlan) (s : Slots) : Nat :=
  if s.Pending plan then s.handedOut + 1 else s.handedOut

/-- Every slot that was handed out was wanted. -/
theorem handedOut_le_wanted : s.handedOut ≤ s.wanted plan := by
  unfold wanted
  split <;> omega

/-- At most one slot was wanted and not handed out. -/
theorem wanted_le : s.wanted plan ≤ s.handedOut + 1 := by
  unfold wanted
  split <;> omega

/-- Whether a slot is pending shows in how often room was asked for. -/
theorem pending_congr (h : s'.asked = s.asked) : s'.Pending plan ↔ s.Pending plan := by
  rw [Pending, Pending, h]

/-- The chunks taken are the fewest that hold the slots that were wanted. -/
def Fitted (s : Slots) (plan : SlotPlan) : Prop :=
  IsLeast {chunks | s.wanted plan ≤ plan.slotsBefore chunks} s.chunks

/-- Without a slot left in the chunks, these are full. -/
theorem Fitted.eq_of_not_lt (h : s.Fitted plan) (hfull : ¬s.handedOut < plan.slotsBefore s.chunks) :
    s.handedOut = plan.slotsBefore s.chunks :=
  Nat.le_antisymm (Nat.le_trans handedOut_le_wanted h.1) (Nat.not_lt.1 hfull)

/-- Memory is asked for the chunk behind those that are full, and for no other. -/
theorem Fitted.reserve_eq (h : s.Fitted plan) (hplan : plan.HasRoom)
    (hlt : s.handedOut < plan.limit) : s.reserve plan s.handedOut =
      if s.handedOut < plan.slotsBefore s.chunks then ⟨[], .ok (.ok s.chunks)⟩
      else if UInt64.size / 2 ≤ plan.chunkLength s.chunks * plan.slotBytes then
        ⟨[], .ok (.error ⟨.ofNat (plan.chunkBytes s.chunks)⟩)⟩
      else ⟨[plan.growth s.chunks], .ok (.ok (s.chunks + 1))⟩ := by
  have hchunk : (plan.locate s.handedOut).1 < s.chunks ↔ s.handedOut < plan.slotsBefore s.chunks :=
    SlotPlan.fst_locate_lt_iff hplan.first_pos
  unfold reserve
  rw [if_neg (Nat.not_le.2 (hplan.locate_lt _ hlt))]
  by_cases hroom : s.handedOut < plan.slotsBefore s.chunks
  · rw [if_pos hroom, if_pos (hchunk.2 hroom)]
    rfl
  · have hfull := h.eq_of_not_lt hroom
    have hnext : (plan.locate s.handedOut).1 = s.chunks := by
      rw [SlotPlan.fst_locate_eq_iff hplan.first_pos, hfull]
      exact ⟨Nat.le_refl _, SlotPlan.slotsBefore_lt_succ hplan.first_pos _⟩
    rw [if_neg hroom, if_neg (fun hlt => hroom (hchunk.1 hlt)), hnext]
    rfl

/-! ## (2) Requests for slots -/

/-- The chunk of the next slot is there, as the last of so many: it was, or it is taken now. -/
inductive Room (plan : SlotPlan) (s : Slots) : List Notice → Nat → Prop
  | there : s.handedOut < plan.slotsBefore s.chunks → Room plan s [] s.chunks
  | taken : s.handedOut = plan.slotsBefore s.chunks →
      Room plan s [plan.growth s.chunks] (s.chunks + 1)

/-- With the chunk of the next slot the chunks are the fewest that hold it. -/
theorem Room.isLeast (h : s.Room plan notices chunks) (hs : s.Fitted plan)
    (hfirst : 0 < plan.firstChunk) :
    IsLeast {chunks | s.handedOut + 1 ≤ plan.slotsBefore chunks} chunks := by
  cases h with
  | there hroom =>
    refine ⟨hroom, ?_⟩
    intro chunks hchunks
    exact hs.2 (Nat.le_trans wanted_le hchunks)
  | taken hfull =>
    rw [hfull]
    refine ⟨SlotPlan.slotsBefore_lt_succ hfirst _, ?_⟩
    intro chunks hchunks
    -- fewer chunks than there were hold no more slots than they did
    refine Nat.not_le.1 fun hle => ?_
    exact Nat.not_lt.2 (plan.slotsBefore_mono hle) hchunks

/-- What is told of chunks goes on where it stopped. -/
theorem Room.growth (h : s.Room plan notices chunks) :
    (List.range s.chunks).map plan.growth ++ notices.filter Notice.isGrowth =
      (List.range chunks).map plan.growth := by
  cases h with
  | there _ => exact List.append_nil _
  | taken _ =>
    rw [List.range_succ, List.map_append]
    rfl

/-- What a request for a slot comes to, with the notices that it leaves behind. -/
inductive Gives (plan : SlotPlan) (s : Slots) : List Notice → Except s.Refused s.Taken → Prop
  /-- A free slot is used again. -/
  | reused {slot : Nat} {free : List Nat} (hfree : s.free = slot :: free) :
      Gives plan s [] (.ok (.reused slot free hfree))
  /-- All slots that there may be are handed out. -/
  | full : s.free = [] → plan.limit ≤ s.handedOut →
      Gives plan s [] (.error (.early ⟨.ofNat plan.slotBytes⟩))
  /-- The chunks are full, and there is no memory for another one. -/
  | short : s.free = [] → s.handedOut = plan.slotsBefore s.chunks →
      UInt64.size / 2 ≤ plan.chunkLength s.chunks * plan.slotBytes →
      Gives plan s [] (.error (.early ⟨.ofNat (plan.chunkBytes s.chunks)⟩))
  /-- The next slot is handed out. -/
  | fresh {notices : List Notice} {chunks : Nat} (hfree : s.free = []) :
      s.Room plan notices chunks → plan.lists s.asked = true →
      Gives plan s notices (.ok (.fresh chunks hfree))
  /-- The lists of slots have no room for the next one. -/
  | late {notices : List Notice} {chunks : Nat} : s.free = [] →
      s.Room plan notices chunks → plan.lists s.asked = false →
      Gives plan s notices (.error (.late chunks))

/-- With a new slot handed out, nothing is pending. -/
theorem not_pending_fresh (hfree : s.free = []) (hlists : plan.lists s.asked = true) :
    ¬(Taken.fresh chunks hfree).rest.Pending plan := by
  rintro ⟨-, hnone⟩
  have hnone : plan.lists s.asked = false := hnone
  rw [hlists] at hnone
  cases hnone

/-- Once the chunk of the next slot is there, it is up to the lists. -/
theorem Room.gives_book (h : s.Room plan notices chunks) (hfree : s.free = []) :
    s.Gives plan notices (s.book plan chunks hfree) := by
  unfold book
  split
  · rename_i hlists
    exact .fresh hfree h hlists
  · rename_i hlists
    exact .late hfree h (Bool.not_eq_true _ ▸ hlists)

/-- A request for a slot gives one and takes a chunk if it must, or takes none. -/
theorem Fitted.gives (h : s.Fitted plan) (hplan : plan.HasRoom)
    {result : Except s.Refused s.Taken} (htake : (s.take plan).outcome = .ok result) :
    s.Gives plan (s.take plan).notices result := by
  unfold take at htake ⊢
  split at htake
  · obtain rfl := Except.ok.inj htake
    exact .reused _
  · rename_i hfree
    by_cases hlimit : plan.limit ≤ s.handedOut
    · rw [if_pos hlimit] at htake ⊢
      obtain rfl := Except.ok.inj htake
      exact .full hfree hlimit
    · rw [if_neg hlimit, h.reserve_eq hplan (Nat.not_le.1 hlimit)] at htake ⊢
      -- the last chunk still has room for the slot, or another chunk is needed
      by_cases hroom : s.handedOut < plan.slotsBefore s.chunks
      · rw [if_pos hroom] at htake ⊢
        obtain rfl := Except.ok.inj htake
        exact (Room.there hroom).gives_book hfree
      · have hfull := h.eq_of_not_lt hroom
        rw [if_neg hroom] at htake ⊢
        split at htake
        · rename_i hlarge
          obtain rfl := Except.ok.inj htake
          rw [if_pos hlarge]
          exact .short hfree hfull hlarge
        · rename_i hfits
          obtain rfl := Except.ok.inj htake
          rw [if_neg hfits]
          exact (Room.taken hfull).gives_book hfree

/-! ## (3) Operations -/

/-- What an operation makes of the slots handed out and of the chunks taken, and which chunks it
tells of: no slot is new and none was asked for, or the next one was asked for, since none was free,
and is handed out or refused. -/
inductive Extends (plan : SlotPlan) (s : Slots) : List Notice → Slots → Prop
  | same {notices : List Notice} {s' : Slots} : s'.handedOut = s.handedOut →
      s'.chunks = s.chunks → s'.asked = s.asked → notices.filter Notice.isGrowth = [] →
      Extends plan s notices s'
  | fresh {notices : List Notice} {chunks : Nat} (hfree : s.free = []) :
      s.Room plan notices chunks → plan.lists s.asked = true →
      Extends plan s notices (Taken.fresh chunks hfree).rest
  | late {notices : List Notice} {chunks : Nat} : s.Room plan notices chunks →
      plan.lists s.asked = false → Extends plan s notices (Refused.late chunks : s.Refused).rest

namespace Extends

/-- The chunks stay the fewest. -/
theorem fitted (h : s.Extends plan notices s') (hfirst : 0 < plan.firstChunk)
    (hs : s.Fitted plan) : s'.Fitted plan := by
  cases h with
  | same hslots hchunks hasked _ =>
    have hwanted : s'.wanted plan = s.wanted plan := by
      simp only [wanted, pending_congr hasked, hslots]
    rw [Fitted, hwanted, hchunks]
    exact hs
  | fresh hfree hroom hlists =>
    rw [Fitted, wanted, if_neg (not_pending_fresh hfree hlists)]
    exact hroom.isLeast hs hfirst
  | @late chunks hroom hlists =>
    have hpending : (Refused.late chunks : s.Refused).rest.Pending plan := ⟨Nat.succ_pos _, hlists⟩
    rw [Fitted, wanted, if_pos hpending]
    exact hroom.isLeast hs hfirst

/-- What is told of chunks goes on where it stopped. -/
theorem growth (h : s.Extends plan notices s') :
    (List.range s.chunks).map plan.growth ++ notices.filter Notice.isGrowth =
      (List.range s'.chunks).map plan.growth := by
  cases h with
  | same _ hchunks _ hnone => rw [hnone, hchunks, List.append_nil]
  | fresh _ hroom _ => exact hroom.growth
  | late hroom _ => exact hroom.growth

end Extends

end Slots

namespace Index

variable {α : Type} {ix ix' : Index α} {key : Address} {value : α} {notices : List Notice}

/-- An insertion tells what its request for a slot tells. -/
theorem notices_insert (value : α) (hfind : ix.lanes.find? key = none) :
    (ix.insert key value).notices = (ix.slots.take ix.plan).notices := by
  obtain ⟨result, htake⟩ := Slots.exists_outcome_take ix.plan ix.slots
  unfold insert
  split
  · rename_i hsome
    rw [hfind] at hsome
    cases hsome
  · rw [Traced.bind_def, Traced.andThen, htake]
    cases result <;> exact List.append_nil _

/-- An insertion is given a slot for its entry, or it is refused one. -/
theorem gives_insert (hplan : ix.plan.HasRoom) (hs : ix.slots.Fitted ix.plan)
    {result : Except OutOfMemory Unit}
    (h : ix.insert key value = ⟨notices, .ok (result, ix')⟩) :
    match result with
    | .ok () => ∃ taken hfind, ix.slots.Gives ix.plan notices (.ok taken) ∧
        ix' = ix.add key value taken hfind
    | .error e => ∃ refused, ix.slots.Gives ix.plan notices (.error refused) ∧
        e = refused.error ∧ ix' = ix.refuse refused := by
  have houtcome : (ix.insert key value).outcome = .ok (result, ix') := congrArg Traced.outcome h
  have hfind : ix.lanes.find? key = none :=
    Option.map_eq_none_iff.1 (absent_of_outcome_insert houtcome)
  have hnotices : (ix.slots.take ix.plan).notices = notices :=
    (notices_insert value hfind).symm.trans (congrArg Traced.notices h)
  have htake := of_outcome_insert houtcome
  cases result with
  | ok _ =>
    obtain ⟨taken, hfind, hok, rfl⟩ := htake
    exact ⟨taken, hfind, hnotices ▸ hs.gives hplan hok, rfl⟩
  | error e =>
    obtain ⟨refused, hrefused, he, rfl⟩ := htake
    exact ⟨refused, hnotices ▸ hs.gives hplan hrefused, he, rfl⟩

/-- An insertion hands out a slot at most, with a chunk if it must. -/
theorem extends_insert (hplan : ix.plan.HasRoom) (hs : ix.slots.Fitted ix.plan)
    {result : Except OutOfMemory Unit}
    (h : ix.insert key value = ⟨notices, .ok (result, ix')⟩) :
    ix.slots.Extends ix.plan notices ix'.slots := by
  have hgives := gives_insert hplan hs h
  cases result with
  | ok _ =>
    obtain ⟨taken, hfind, hok, rfl⟩ := hgives
    cases hok with
    | reused _ => exact .same rfl rfl rfl rfl
    | fresh hfree hroom hlists => exact .fresh hfree hroom hlists
  | error e =>
    obtain ⟨refused, hrefused, -, rfl⟩ := hgives
    cases hrefused with
    | full _ _ => exact .same rfl rfl rfl rfl
    | short _ _ _ => exact .same rfl rfl rfl rfl
    | late _ hroom hlists => exact .late hroom hlists

/-- An insertion that leaves a slot pending finds it so, or is refused without a size. -/
theorem pending_of_insert (hplan : ix.plan.HasRoom) (hs : ix.slots.Fitted ix.plan)
    {result : Except OutOfMemory Unit}
    (h : ix.insert key value = ⟨notices, .ok (result, ix')⟩)
    (hpending : ix'.slots.Pending ix.plan) :
    ix.slots.Pending ix.plan ∨ result = .error .ofReservation := by
  have hgives := gives_insert hplan hs h
  cases result with
  | ok _ =>
    obtain ⟨taken, hfind, hok, rfl⟩ := hgives
    cases hok with
    | reused _ => exact .inl hpending
    | fresh hfree _ hlists => exact absurd hpending (Slots.not_pending_fresh hfree hlists)
  | error e =>
    obtain ⟨refused, hrefused, rfl, rfl⟩ := hgives
    cases hrefused with
    | full _ _ => exact .inl hpending
    | short _ _ _ => exact .inl hpending
    | late _ _ _ => exact .inr rfl

/-- A removal hands out no slot. -/
theorem extends_remove (h : ix.remove key = ⟨notices, .ok (value, ix')⟩) :
    ix.slots.Extends ix.plan notices ix'.slots := by
  unfold remove at h
  split at h
  · cases h
  · cases h
    exact .same rfl rfl rfl rfl

/-- Removing entries asks for no slot and takes no chunk. -/
theorem removeDown_slots (start top : Address) :
    let slots := (ix.removeDown start top).2.slots
    slots.handedOut = ix.slots.handedOut ∧ slots.chunks = ix.slots.chunks ∧
      slots.asked = ix.slots.asked := by
  fun_induction Index.removeDown ix start top with
  | case1 ix hnone => exact ⟨rfl, rfl, rfl⟩
  | case2 ix entry rest hsome removed last hrec ih =>
    obtain ⟨-, -, slot, hfind, rfl⟩ := removeTop?_eq_some hsome
    rw [hrec] at ih
    exact ih

/-- Nor does removing a range. -/
theorem extends_removeRange (start length : Address) :
    ix.slots.Extends ix.plan [] (ix.removeRange start length).2.slots := by
  unfold removeRange
  split
  · exact .same rfl rfl rfl rfl
  · obtain ⟨hslots, hchunks, hasked⟩ :=
      ix.removeDown_slots start (Address.advance start (length - 1))
    exact .same hslots hchunks hasked rfl

/-- Removing a range asks for no room. -/
theorem asked_removeRange (start length : Address) :
    (ix.removeRange start length).2.slots.asked = ix.slots.asked := by
  unfold removeRange
  split
  · rfl
  · exact (ix.removeDown_slots start (Address.advance start (length - 1))).2.2

/-- A collection hands out no slot, and what it tells is not of chunks. -/
theorem extends_collect {gate : Gate} (h : ix.collect gate = ⟨notices, .ok ix'⟩) :
    ix.slots.Extends ix.plan notices ix'.slots := by
  unfold collect at h
  split at h
  · cases h
    exact .same rfl rfl rfl rfl
  · split at h
    · cases h
      exact .same rfl rfl rfl rfl
    · cases h
      exact .same rfl rfl rfl rfl

end Index

end TraceAtlas
