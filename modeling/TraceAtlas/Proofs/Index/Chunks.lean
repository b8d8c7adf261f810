import TraceAtlas.Proofs.Index.Capacity

/-! # Where slots lie

Each chunk is twice as long as the one before, so the chunks before chunk `c` hold
`firstChunk * (2 ^ c - 1)` slots together, and slots are placed in the order of their numbers. A
place is found without a search: the number of first chunks that a slot lies behind tells its chunk
by the logarithm. Every number on the way to it fits a word of 64 bits, however long the first chunk
is.

## Main definitions
* `SlotPlan.slotsBefore` : the slots in front of a chunk.
* `Word.add?`, `Word.sub?`, `Word.mul?`, `Word.div?`, `Word.shift?` : operations on words that yield
  a word only if it is the exact result.
* `SlotPlan.locateWord?` : the place of a slot, computed with these.

## Main statements
* `SlotPlan.locate_eq_iff` : the place of a slot, without a logarithm.
* `SlotPlan.locateWord?_eq` : words are enough.
* `SlotPlan.slots_placed` : what the places of slots are, under any settings.
-/

namespace TraceAtlas

/-! ## (1) Places -/

namespace SlotPlan

variable {plan : SlotPlan} {slot chunk offset : Nat}

/-- The slots in front of a chunk. -/
def slotsBefore (plan : SlotPlan) (chunk : Nat) : Nat := plan.firstChunk * (2 ^ chunk - 1)

/-- Each chunk is twice as long as the one before. -/
theorem chunkLength_eq (plan : SlotPlan) (chunk : Nat) :
    plan.chunkLength chunk = plan.firstChunk * 2 ^ chunk := Nat.shiftLeft_eq _ _

/-- A chunk is one first chunk longer than all chunks in front of it. -/
theorem slotsBefore_add_firstChunk (plan : SlotPlan) (chunk : Nat) :
    plan.slotsBefore chunk + plan.firstChunk = plan.chunkLength chunk := by
  rw [chunkLength_eq, slotsBefore, ← Nat.mul_succ, Nat.succ_eq_add_one,
    Nat.sub_add_cancel Nat.one_le_two_pow]

/-- A chunk begins where the one before ends. -/
theorem slotsBefore_succ (plan : SlotPlan) (chunk : Nat) :
    plan.slotsBefore (chunk + 1) = plan.slotsBefore chunk + plan.chunkLength chunk := by
  have hnext := plan.slotsBefore_add_firstChunk (chunk + 1)
  have hthis := plan.slotsBefore_add_firstChunk chunk
  rw [chunkLength_eq, Nat.pow_succ, ← Nat.mul_assoc, ← chunkLength_eq] at hnext
  omega

/-- A chunk lies in front of all later ones. -/
theorem slotsBefore_mono (plan : SlotPlan) {chunk later : Nat} (h : chunk ≤ later) :
    plan.slotsBefore chunk ≤ plan.slotsBefore later :=
  Nat.mul_le_mul_left _ (Nat.sub_le_sub_right (Nat.pow_le_pow_right Nat.two_pos h) 1)

/-- Which chunk a slot lies in. The first chunks that fit in front of the slot, and one more, are as
many as the power of two that the chunk is long, and less than the next one. -/
theorem fst_locate_eq_iff (hfirst : 0 < plan.firstChunk) : (plan.locate slot).1 = chunk ↔
    plan.slotsBefore chunk ≤ slot ∧ slot < plan.slotsBefore (chunk + 1) := by
  have hbounds : 2 ^ chunk ≤ slot / plan.firstChunk + 1 ∧
      slot / plan.firstChunk + 1 < 2 ^ (chunk + 1) ↔
        2 ^ chunk - 1 ≤ slot / plan.firstChunk ∧
          slot / plan.firstChunk < 2 ^ (chunk + 1) - 1 := by omega
  rw [locate, Nat.log2_eq_iff (Nat.succ_ne_zero _), hbounds, Nat.le_div_iff_mul_le hfirst,
    Nat.div_lt_iff_lt_mul hfirst, Nat.mul_comm, Nat.mul_comm (2 ^ (chunk + 1) - 1)]
  rfl

/-- **The place of a slot.** It is behind the slots of all chunks before, and in its chunk. -/
theorem locate_eq_iff (hfirst : 0 < plan.firstChunk) : plan.locate slot = (chunk, offset) ↔
    offset < plan.chunkLength chunk ∧ slot = plan.slotsBefore chunk + offset := by
  have hsnd : (plan.locate slot).2 = slot - plan.slotsBefore (plan.locate slot).1 := by
    rw [locate, slotsBefore, Nat.one_shiftLeft]
  have hnext := plan.slotsBefore_succ chunk
  rw [← Prod.mk.eta (p := plan.locate slot), Prod.mk.injEq, hsnd]
  constructor
  · rintro ⟨rfl, rfl⟩
    have hbounds := (fst_locate_eq_iff hfirst).1 (rfl : (plan.locate slot).1 = _)
    omega
  · rintro ⟨hoffset, hslot⟩
    obtain rfl : (plan.locate slot).1 = chunk := (fst_locate_eq_iff hfirst).2 (by omega)
    exact ⟨rfl, by omega⟩

end SlotPlan

/-! ## (2) Places in words -/

namespace Word

/-- A sum, if it fits a word. -/
def add? (a b : UInt64) : Option UInt64 :=
  if a.toNat + b.toNat < UInt64.size then some (a + b) else none

/-- A difference, if it is not negative. -/
def sub? (a b : UInt64) : Option UInt64 := if b ≤ a then some (a - b) else none

/-- A product, if it fits a word. -/
def mul? (a b : UInt64) : Option UInt64 :=
  if a.toNat * b.toNat < UInt64.size then some (a * b) else none

/-- A quotient, unless it is one by zero. -/
def div? (a b : UInt64) : Option UInt64 := if b = 0 then none else some (a / b)

/-- A word shifted to the left, if the shift is shorter than a word and no bit is lost. -/
def shift? (a n : UInt64) : Option UInt64 :=
  if n < 64 ∧ a.toNat <<< n.toNat < UInt64.size then some (a <<< n) else none

/-- The zeros in front of the highest one of a word. -/
def leadingZeros (a : UInt64) : UInt64 := ⟨a.toBitVec.clz⟩

variable {m n : Nat}

/-- Words are added like numbers if the sum is one. -/
theorem add?_ofNat (h : m + n < UInt64.size) :
    add? (.ofNat m) (.ofNat n) = some (.ofNat (m + n)) := by
  rw [add?, UInt64.toNat_ofNat_of_lt' (by omega), UInt64.toNat_ofNat_of_lt' (by omega), if_pos h,
    UInt64.ofNat_add]

/-- Words are subtracted like numbers if nothing is missing. -/
theorem sub?_ofNat (hm : m < UInt64.size) (h : n ≤ m) :
    sub? (.ofNat m) (.ofNat n) = some (.ofNat (m - n)) := by
  rw [sub?, if_pos ((UInt64.ofNat_le_iff_le (by omega) hm).2 h), UInt64.ofNat_sub h]

/-- Words are multiplied like numbers if the product is one. -/
theorem mul?_ofNat (hm : m < UInt64.size) (hn : n < UInt64.size) (h : m * n < UInt64.size) :
    mul? (.ofNat m) (.ofNat n) = some (.ofNat (m * n)) := by
  rw [mul?, UInt64.toNat_ofNat_of_lt' hm, UInt64.toNat_ofNat_of_lt' hn, if_pos h, UInt64.ofNat_mul]

/-- Words are divided like numbers, unless by zero. -/
theorem div?_ofNat (hm : m < UInt64.size) (hn : n < UInt64.size) (h : n ≠ 0) :
    div? (.ofNat m) (.ofNat n) = some (.ofNat (m / n)) := by
  have hne : UInt64.ofNat n ≠ 0 := by
    rw [ne_eq, ← UInt64.toNat_inj, UInt64.toNat_ofNat_of_lt' hn]
    exact h
  rw [div?, if_neg hne, UInt64.ofNat_div hm hn]

/-- Words are shifted like numbers if nothing is lost. -/
theorem shift?_ofNat (hn : n < 64) (hm : m < UInt64.size) (h : m <<< n < UInt64.size) :
    shift? (.ofNat m) (.ofNat n) = some (.ofNat (m <<< n)) := by
  have hsize : UInt64.size = 2 ^ 64 := rfl
  have hlt : UInt64.ofNat n < 64 := (UInt64.ofNat_lt_iff_lt (by omega) (by decide)).2 hn
  rw [shift?, UInt64.toNat_ofNat_of_lt' hm, UInt64.toNat_ofNat_of_lt' (by omega), if_pos ⟨hlt, h⟩,
    UInt64.ofNat_shiftLeft m n hn]

/-- The logarithm of a word is what the leading zeros leave of 63. -/
theorem sub?_leadingZeros (hpos : n ≠ 0) (h : n < UInt64.size) :
    sub? 63 (leadingZeros (.ofNat n)) = some (.ofNat n.log2) := by
  have hword : (UInt64.ofNat n).toBitVec.toNat = n := UInt64.toNat_ofNat_of_lt' h
  have hne : (UInt64.ofNat n).toBitVec ≠ 0#64 := by
    intro h0
    rw [h0] at hword
    exact hpos hword.symm
  have hlow := BitVec.two_pow_sub_clz_le_toNat_of_ne_zero (by decide) hne
  have hhigh : _ < 2 ^ (64 - (UInt64.ofNat n).toBitVec.clz.toNat) := BitVec.toNat_lt_two_pow_sub_clz
  have hzeros : (UInt64.ofNat n).toBitVec.clz.toNat < 64 := BitVec.clz_lt_iff_ne_zero.2 hne
  rw [hword] at hlow hhigh
  have hlog : n.log2 = 63 - (UInt64.ofNat n).toBitVec.clz.toNat := by
    refine (Nat.log2_eq_iff hpos).2 ⟨hlow, ?_⟩
    rwa [show 63 - (UInt64.ofNat n).toBitVec.clz.toNat + 1 =
      64 - (UInt64.ofNat n).toBitVec.clz.toNat by omega]
  rw [hlog, leadingZeros, ← UInt64.ofNat_bitVecToNat]
  exact sub?_ofNat (m := 63) (by decide) (by omega)

end Word

namespace SlotPlan

variable {plan : SlotPlan} {slot : Nat}

/-- The place of a slot, computed in words. Nothing comes out if a step on the way does not yield
its exact result. -/
def locateWord? (firstChunk slot : UInt64) : Option (UInt64 × UInt64) := do
  let scaled ← Word.add? (← Word.div? slot firstChunk) 1
  let chunk ← Word.sub? 63 (Word.leadingZeros scaled)
  let before ← Word.mul? firstChunk (← Word.sub? (← Word.shift? 1 chunk) 1)
  return (chunk, ← Word.sub? slot before)

/-- **Words are enough** to place a slot, wherever the first chunk and the number of the slot are
words. -/
theorem locateWord?_eq (hfirst : 0 < plan.firstChunk) (hword : plan.firstChunk < UInt64.size)
    (hslot : slot + 1 < UInt64.size) :
    locateWord? (.ofNat plan.firstChunk) (.ofNat slot) =
      some (.ofNat (plan.locate slot).1, .ofNat (plan.locate slot).2) := by
  have hsize : UInt64.size = 2 ^ 64 := rfl
  have hdiv := Nat.div_le_self slot plan.firstChunk
  obtain ⟨-, hplace⟩ := (locate_eq_iff hfirst).1 (Prod.mk.eta (p := plan.locate slot)).symm
  -- the first chunks in front of the slot are no more than the slots
  have hpow : 2 ^ (plan.locate slot).1 ≤ slot / plan.firstChunk + 1 :=
    Nat.log2_self_le (Nat.succ_ne_zero _)
  have hchunk : (plan.locate slot).1 < 64 := by
    refine (Nat.pow_lt_pow_iff_right (by decide : 1 < 2)).1 ?_
    omega
  have hquotient : Word.div? (.ofNat slot) (.ofNat plan.firstChunk) =
      some (.ofNat (slot / plan.firstChunk)) :=
    Word.div?_ofNat (by omega) hword (Nat.ne_of_gt hfirst)
  have hscaled : Word.add? (.ofNat (slot / plan.firstChunk)) 1 =
      some (.ofNat (slot / plan.firstChunk + 1)) := Word.add?_ofNat (n := 1) (by omega)
  have hlog : Word.sub? 63 (Word.leadingZeros (.ofNat (slot / plan.firstChunk + 1))) =
      some (.ofNat (plan.locate slot).1) :=
    Word.sub?_leadingZeros (Nat.succ_ne_zero _) (by omega)
  have hshift : Word.shift? 1 (.ofNat (plan.locate slot).1) =
      some (.ofNat (2 ^ (plan.locate slot).1)) := by
    rw [← Nat.one_shiftLeft]
    exact Word.shift?_ofNat (m := 1) hchunk (by decide) (by rw [Nat.one_shiftLeft]; omega)
  have hless : Word.sub? (.ofNat (2 ^ (plan.locate slot).1)) 1 =
      some (.ofNat (2 ^ (plan.locate slot).1 - 1)) :=
    Word.sub?_ofNat (n := 1) (by omega) Nat.one_le_two_pow
  have hbefore : Word.mul? (.ofNat plan.firstChunk) (.ofNat (2 ^ (plan.locate slot).1 - 1)) =
      some (.ofNat (plan.slotsBefore (plan.locate slot).1)) :=
    Word.mul?_ofNat hword (by omega) (by rw [← slotsBefore]; omega)
  have hoffset : Word.sub? (.ofNat slot) (.ofNat (plan.slotsBefore (plan.locate slot).1)) =
      some (.ofNat (plan.locate slot).2) := by
    rw [Word.sub?_ofNat (by omega) (by omega)]
    congr 2
    omega
  simp only [locateWord?, Option.bind_eq_bind, Option.bind_some, hquotient, hscaled, hlog, hshift,
    hless, hbefore, hoffset]
  rfl

/-! ## (3) Places under any settings -/

/-- Where there is room for the chunk of a slot, memory is refused only because of its size. -/
theorem outcome_reserve_ne_unsized {s : Slots}
    (hroom : (plan.locate slot).1 < maxChunks) :
    (s.reserve plan slot).outcome ≠ .ok (.error ⟨0⟩) := by
  unfold Slots.reserve
  rw [if_neg (Nat.not_le.2 hroom)]
  split
  · exact fun h => by cases h
  · split
    · rename_i hlarge
      have hbytes : 0 < plan.chunkBytes (plan.locate slot).1 ∧
          plan.chunkBytes (plan.locate slot).1 < UInt64.size := by
        have hsize : UInt64.size = 2 ^ 64 := rfl
        have hlarge : 2 ^ 63 ≤ plan.chunkLength (plan.locate slot).1 * plan.slotBytes := hlarge
        rw [chunkBytes]
        omega
      intro h
      have hzero := congrArg OutOfMemory.bytes (Except.error.inj (Except.ok.inj h))
      rw [← UInt64.toNat_inj, UInt64.toNat_ofNat_of_lt' hbytes.2] at hzero
      exact Nat.ne_of_gt hbytes.1 hzero
    · exact fun h => by cases h

/-- **Every slot has a place of its own.** Under any settings the first chunk is a power of two, and
each slot that can have a number gets its place by steps that all fit a word of 64 bits. The place
lies in one of the chunks that there is room for, so that no request for memory is refused for want
of a chunk; the chunk is the first one doubled as often as there are chunks before it, which fits a
word too; and the number of the slot is that of the slots in all chunks before, and the offset. So
no two slots share a place, and all places in the chunks before are those of slots. -/
theorem slots_placed (t : Tuning) (slotBytes : Nat) {slot : Nat} (hslot : slot < 2 ^ 32 - 1) :
    let plan := ofTuning t slotBytes
    let chunk := (plan.locate slot).1
    let offset := (plan.locate slot).2
    (∃ order < 64, plan.firstChunk = 2 ^ order) ∧
    locateWord? (.ofNat plan.firstChunk) (.ofNat slot) = some (.ofNat chunk, .ofNat offset) ∧
    chunk ≤ 31 ∧ (∀ s : Slots, (s.reserve plan slot).outcome ≠ .ok (.error ⟨0⟩)) ∧
    Word.shift? (.ofNat plan.firstChunk) (.ofNat chunk) = some (.ofNat (plan.chunkLength chunk)) ∧
    plan.chunkLength chunk = plan.firstChunk * 2 ^ chunk ∧ plan.chunkLength chunk < UInt64.size ∧
    offset < plan.chunkLength chunk ∧ slot = plan.firstChunk * (2 ^ chunk - 1) + offset ∧
    (∀ other, plan.locate other = (chunk, offset) → other = slot) ∧
    ∀ c < chunk, ∀ o < plan.chunkLength c, ∃ other < slot, plan.locate other = (c, o) := by
  intro plan chunk offset
  have hsize : UInt64.size = 2 ^ 64 := rfl
  have horder : plan.firstChunk = 2 ^ t.chunkOrder.val := Nat.one_shiftLeft _
  have hfirst : 0 < plan.firstChunk := horder ▸ Nat.two_pow_pos _
  have hword : plan.firstChunk ≤ 2 ^ 63 :=
    horder ▸ Nat.pow_le_pow_right Nat.two_pos (Nat.le_of_lt_succ t.chunkOrder.isLt)
  have hlength : plan.chunkLength chunk < UInt64.size := by
    have hle : plan.chunkLength chunk ≤ slot + plan.firstChunk := plan.chunkLength_locate_le slot
    omega
  have hchunk : chunk < maxChunks :=
    Slots.locate_ofTuning_lt { t with maxNodes := 0xffffffff } slotBytes hslot
  have hroom : chunk < 32 := hchunk
  obtain ⟨hoffset, hplace⟩ : offset < plan.chunkLength chunk ∧
      slot = plan.slotsBefore chunk + offset := (locate_eq_iff hfirst).1 rfl
  refine ⟨⟨_, t.chunkOrder.isLt, horder⟩, locateWord?_eq hfirst (by omega) (by omega),
    Nat.le_of_lt_succ hroom, fun s => outcome_reserve_ne_unsized hchunk,
    Word.shift?_ofNat (by omega) (by omega) hlength, plan.chunkLength_eq chunk, hlength, hoffset,
    hplace, fun other hother => ?_, fun c hc o ho => ?_⟩
  · rw [((locate_eq_iff hfirst).1 hother).2]
    exact hplace.symm
  · -- a place in an earlier chunk is that of a slot in front of this chunk
    have hnext := plan.slotsBefore_succ c
    have hmono : plan.slotsBefore (c + 1) ≤ plan.slotsBefore chunk := plan.slotsBefore_mono hc
    exact ⟨plan.slotsBefore c + o, by omega, (locate_eq_iff hfirst).2 ⟨ho, rfl⟩⟩

/-- With a first chunk of one slot, the last slot that can have a number is the last one of the last
chunk there is room for. -/
theorem last_slot_placed :
    let plan := ofTuning { Tuning.standard with chunkOrder := 0 } 80
    plan.locate 4294967294 = (31, 2147483647) ∧
      locateWord? 1 4294967294 = some (31, 2147483647) ∧
      Word.shift? 1 31 = some 2147483648 ∧ plan.chunkLength 31 = 2147483648 ∧
      (∀ other, plan.locate other = (31, 2147483647) → other = 4294967294) ∧
      ∃ other < 4294967294, plan.locate other = (30, 1073741823) := by
  intro plan
  obtain ⟨-, hwords, -, -, hshift, hlength, -, -, -, hown, hbefore⟩ :=
    slots_placed { Tuning.standard with chunkOrder := 0 } 80
      (by decide : 4294967294 < 2 ^ 32 - 1)
  have hplace : plan.locate 4294967294 = (31, 2147483647) := by decide
  exact ⟨hplace, hwords, hshift, hlength, hown, hbefore 30 (by decide) _ (by decide)⟩

end SlotPlan

end TraceAtlas
