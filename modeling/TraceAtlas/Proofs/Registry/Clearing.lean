import TraceAtlas.Proofs.Registry.Edits
import TraceAtlas.Proofs.Lookup

/-! # Clearing ranges

An index takes a range out from the top down, one entry after the other, until the nearest entry
from below starts in front of the range. Clearing and freeing in a registry come to that in one of
the maps or in both. Here it is said what a clear takes and what it leaves, for ranges anywhere in
the address space, and what lookups show in the range afterwards: entries that start in it are gone,
but one that starts in front of it may reach into it.

## Main definitions
* `Registry.Clears` : a call clears the regions and the blocks that start at some addresses.

## Main statements
* `Contents.finds_eraseRange_iff` : what a lookup finds in a range that was cleared.
* `Registry.ranges_cleared` : an index, each of the two maps, and both of them.
-/

namespace TraceAtlas

/-! ## (1) Maps -/

namespace Address

/-- A range has an address in it unless it is empty. -/
theorem exists_inRange_iff {start length : Address} :
    (∃ a, InRange start length a) ↔ length ≠ 0 := by
  constructor
  · rintro ⟨a, ha⟩ rfl
    exact not_inRange_zero ha
  · intro hlength
    exact ⟨start, (inRange_iff_sub_lt (UInt64.le_refl start)).2 (by
      rw [UInt64.sub_self]
      exact UInt64.pos_iff_ne_zero.2 hlength)⟩

/-- Up to an address of a range, the range is all that does not lie in front of its start. -/
theorem inRange_iff_of_le {start length a k : Address} (ha : InRange start length a) (hka : k ≤ a) :
    InRange start length k ↔ start ≤ k :=
  and_iff_left (Nat.lt_of_le_of_lt (UInt64.le_iff_toNat_le.1 hka) ha.2)

/-- Code from `start` up to `stop` is the range of as many bytes as lie between the two. -/
theorem inRange_distance_iff {start stop a : Address} :
    InRange start (distance start stop) a ↔ start ≤ a ∧ a < stop := by
  refine and_congr_right fun hle => ?_
  rw [UInt64.le_iff_toNat_le] at hle
  rw [UInt64.lt_iff_toNat_lt, toNat_distance]
  omega

end Address

namespace Contents

variable {α : Type} {m : Contents α} {size : α → UInt32} {start length a k : Address} {v : α}

/-- What is erased is what starts in the range. -/
theorem eraseRange_eq_some_iff :
    m.eraseRange start length k = some v ↔ m k = some v ∧ ¬Address.InRange start length k := by
  unfold eraseRange
  split <;> simp [*]

/-- **Lookups in a range that was cleared** find what a lookup right in front of it would find, if
that reaches as far as the address. -/
theorem finds_eraseRange_iff (ha : Address.InRange start length a) :
    (m.eraseRange start length).Finds size a (some (k, v)) ↔
      k < start ∧ m.Covers size a k v ∧ ∀ l, k < l → l < start → m l = none := by
  rw [finds_some_iff, Covers, eraseRange_eq_some_iff]
  constructor
  · rintro ⟨⟨⟨hk, hout⟩, hrange⟩, hbehind⟩
    rw [Address.inRange_iff_of_le ha hrange.1, UInt64.not_le] at hout
    refine ⟨hout, ⟨hk, hrange⟩, fun l hkl hl => ?_⟩
    have hla : l ≤ a := UInt64.le_trans (UInt64.le_of_lt hl) ha.1
    have hnone := hbehind l hkl hla
    rwa [eraseRange, if_neg fun h => UInt64.not_le.2 hl h.1] at hnone
  · rintro ⟨hk, ⟨hlive, hrange⟩, hbetween⟩
    refine ⟨⟨⟨hlive, fun h => UInt64.not_le.2 hk h.1⟩, hrange⟩, fun l hkl hla => ?_⟩
    -- behind `k` an entry lay in front of the range, where none is, or in it
    unfold eraseRange
    split
    · rfl
    · rename_i hout
      rw [Address.inRange_iff_of_le ha hla, UInt64.not_le] at hout
      exact hbetween l hkl hout

end Contents

/-! ## (2) Behind a set gate -/

/-- Behind a gate that is set, clearing regions is a fault, unless the range is empty. -/
theorem Regions.outcome_clearRange_of_invalid {gate : Gate} (hgate : gate.Invalid) (m : Regions)
    (start size : Address) : (m.clearRange gate start size).outcome =
      if size = 0 then .ok (m, gate) else .error .gateAlreadySet := by
  unfold clearRange
  split
  · rfl
  · rw [Traced.outcome_note_bind,
      Traced.outcome_bind_of_error (Gate.outcome_mutate_of_invalid hgate _)]

/-- So is clearing blocks. -/
theorem DepthBlocks.outcome_clearRange_of_invalid {gate : Gate} (hgate : gate.Invalid)
    (m : DepthBlocks) (start size : Address) : (m.clearRange gate start size).outcome =
      if size = 0 then .ok (m, gate) else .error .gateAlreadySet := by
  unfold clearRange
  split
  · rfl
  · rw [Traced.outcome_note_bind,
      Traced.outcome_bind_of_error (Gate.outcome_mutate_of_invalid hgate _)]

namespace Registry

variable {r : Registry}

/-- In a registry whose gate is set, clearing regions is a fault, unless the range is empty. -/
theorem outcome_clearRegions_of_invalid (hgate : r.gate.Invalid) (start size : Address) :
    (r.clearRegions start size).outcome = if size = 0 then .ok r else .error .gateAlreadySet := by
  have hout := Regions.outcome_clearRange_of_invalid hgate r.regions start size
  rw [clearRegions]
  by_cases hsize : size = 0
  · rw [if_pos hsize] at hout ⊢
    rw [Traced.outcome_bind_of_ok hout]
    rfl
  · rw [if_neg hsize] at hout ⊢
    exact Traced.outcome_bind_of_error hout _

/-- So is clearing blocks there. -/
theorem outcome_clearBlocks_of_invalid (hgate : r.gate.Invalid) (start size : Address) :
    (r.clearBlocks start size).outcome = if size = 0 then .ok r else .error .gateAlreadySet := by
  have hout := DepthBlocks.outcome_clearRange_of_invalid hgate r.blocks start size
  rw [clearBlocks]
  by_cases hsize : size = 0
  · rw [if_pos hsize] at hout ⊢
    rw [Traced.outcome_bind_of_ok hout]
    rfl
  · rw [if_neg hsize] at hout ⊢
    exact Traced.outcome_bind_of_error hout _

/-- And so is freeing code, unless it is empty. -/
theorem outcome_freeBlock_of_invalid (hgate : r.gate.Invalid) (start stop : Address) :
    (r.freeBlock start stop).outcome =
      if Address.distance start stop = 0 then .ok r else .error .gateAlreadySet := by
  have hblocks := outcome_clearBlocks_of_invalid hgate start (Address.distance start stop)
  have hregions := outcome_clearRegions_of_invalid hgate start (Address.distance start stop)
  rw [freeBlock, Traced.outcome_note_bind]
  by_cases hsize : Address.distance start stop = 0
  · rw [if_pos hsize] at hblocks
    rw [Traced.outcome_bind_of_ok hblocks, hregions]
  · rw [if_neg hsize] at hblocks ⊢
    exact Traced.outcome_bind_of_error hblocks _

/-! ## (3) Clearing in a registry -/

/-- A call clears the regions that start at some addresses and the blocks that start at some, where
none of them lies in front of `start`. -/
structure Clears (r : Registry) (call : Traced Registry) (start : Address)
    (regions blocks : Address → Prop) : Prop where
  /-- Only a gate that is set stops it, and only if there is anything to clear. -/
  fault_iff (e : Fault) : call.outcome = .error e ↔
    e = .gateAlreadySet ∧ r.gate.Invalid ∧ ∃ a, regions a ∨ blocks a
  gate_iff {r' : Registry} : call.outcome = .ok r' → (r'.gate.Invalid ↔ r.gate.Invalid)
  region_iff {r' : Registry} : call.outcome = .ok r' → ∀ k region,
    r'.liveRegions k = some region ↔ r.liveRegions k = some region ∧ ¬regions k
  block_iff {r' : Registry} : call.outcome = .ok r' → ∀ k block,
    r'.liveBlocks k = some block ↔ r.liveBlocks k = some block ∧ ¬blocks k
  /-- The only region that is found where regions were cleared is the last one in front of them. -/
  found_iff {r' : Registry} : call.outcome = .ok r' → ∀ a, regions a → ∀ k region,
    r'.region? a = some (k, region) ↔ k < start ∧ r.liveRegions.Covers Region.size a k region ∧
      ∀ l, k < l → l < start → r.liveRegions l = none
  /-- And so with the depths. -/
  depth_iff {r' : Registry} : call.outcome = .ok r' → ∀ a, blocks a → ∀ depth,
    r'.depthAt? a = some depth ↔ ∃ k block, (k < start ∧ r.liveBlocks.Covers Block.size a k block ∧
      ∀ l, k < l → l < start → r.liveBlocks l = none) ∧ block.depth = depth

/-- A call that erases a range in each of the maps, or nothing, and that stops at a set gate unless
there is nothing to erase, clears the starts in these ranges. -/
theorem clears_of_eraseRange {call : Traced Registry}
    {start length regionLength blockLength : Address}
    (hclear : ¬r.gate.Invalid → ∃ r', call.outcome = .ok r' ∧
      r'.Holds (r.liveRegions.eraseRange start regionLength)
        (r.liveBlocks.eraseRange start blockLength))
    (hset : r.gate.Invalid →
      call.outcome = if length = 0 then .ok r else .error .gateAlreadySet)
    (hlength : length = 0 ↔ regionLength = 0 ∧ blockLength = 0) :
    r.Clears call start (Address.InRange start regionLength)
      (Address.InRange start blockLength) := by
  have hany : (∃ a, Address.InRange start regionLength a ∨ Address.InRange start blockLength a) ↔
      length ≠ 0 := by
    rw [exists_or, Address.exists_inRange_iff, Address.exists_inRange_iff]
    tauto
  have hfault (e : Fault) : call.outcome = .error e ↔ e = .gateAlreadySet ∧ r.gate.Invalid ∧
      ∃ a, Address.InRange start regionLength a ∨ Address.InRange start blockLength a := by
    rw [hany]
    -- a set gate is noticed only if there is something to erase
    by_cases hgate : r.gate.Invalid
    · rw [hset hgate]
      by_cases hzero : length = 0 <;> simp [hzero, hgate, eq_comm]
    · obtain ⟨r', hout, -⟩ := hclear hgate
      simp [hout, hgate]
  have hleft {r' : Registry} (hout : call.outcome = .ok r') :
      (r'.gate.Invalid ↔ r.gate.Invalid) ∧
        r'.liveRegions = r.liveRegions.eraseRange start regionLength ∧
        r'.liveBlocks = r.liveBlocks.eraseRange start blockLength := by
    by_cases hgate : r.gate.Invalid
    · -- the call ended well, so there was nothing to erase
      have hzero : length = 0 := by
        by_contra hzero
        rw [(hfault _).2 ⟨rfl, hgate, hany.2 hzero⟩] at hout
        cases hout
      rw [hset hgate, if_pos hzero] at hout
      obtain rfl := Except.ok.inj hout
      obtain ⟨rfl, rfl⟩ := hlength.1 hzero
      simp only [Contents.eraseRange_zero, and_self]
    · obtain ⟨r₁, hout₁, hholds⟩ := hclear hgate
      obtain rfl := Except.ok.inj (hout.symm.trans hout₁)
      exact ⟨iff_of_false hholds.gate hgate, hholds.liveRegions, hholds.liveBlocks⟩
  -- where there is something to look for the range is not empty, so the gate was clear
  have hopen {r' : Registry} {a : Address} (hout : call.outcome = .ok r')
      (ha : Address.InRange start regionLength a ∨ Address.InRange start blockLength a) :
      ¬r'.gate.Invalid := by
    rw [(hleft hout).1]
    intro hgate
    rw [(hfault _).2 ⟨rfl, hgate, a, ha⟩] at hout
    cases hout
  exact {
    fault_iff := hfault
    gate_iff := fun hout => (hleft hout).1
    region_iff := fun hout k region => by
      rw [(hleft hout).2.1, Contents.eraseRange_eq_some_iff]
    block_iff := fun hout k block => by
      rw [(hleft hout).2.2, Contents.eraseRange_eq_some_iff]
    found_iff := fun hout a ha k region => by
      rw [region?_eq_some_iff (hopen hout (.inl ha)), (hleft hout).2.1,
        Contents.finds_eraseRange_iff ha]
    depth_iff := fun hout a ha depth => by
      simp only [depthAt?_eq_some_iff (hopen hout (.inr ha)), (hleft hout).2.2,
        Contents.finds_eraseRange_iff ha] }

/-- **Clearing a range.** An index yields each entry that starts in the range once, with its value
and the highest first, and keeps all others; an empty range is nothing to do. So clearing blocks,
clearing regions and freeing code take exactly what starts in their range, be it one that goes on to
the end of the address space, and in the range nothing is found afterwards but what starts in front
of it and reaches into it. -/
theorem ranges_cleared {α : Type} (ix : Index α) (r : Registry) (start length stop : Address) :
    (ix.contents.EnumeratesDown start length (ix.removeRange start length).1 ∧
      (ix.removeRange start length).2.contents = ix.contents.eraseRange start length ∧
      ix.removeRange start 0 = ([], ix)) ∧
    r.Clears (r.clearBlocks start length) start (fun _ => False) (Address.InRange start length) ∧
    r.Clears (r.clearRegions start length) start (Address.InRange start length) (fun _ => False) ∧
    r.Clears (r.freeBlock start stop) start (fun a => start ≤ a ∧ a < stop)
      (fun a => start ≤ a ∧ a < stop) := by
  have hnone : (fun _ => False) = Address.InRange start 0 :=
    funext fun _ => (eq_false Address.not_inRange_zero).symm
  -- the code up to `stop` is a range of its own, cut off where `stop` lies below `start`
  have hcode : (fun a => start ≤ a ∧ a < stop) =
      Address.InRange start (Address.distance start stop) :=
    funext fun _ => propext Address.inRange_distance_iff.symm
  obtain ⟨hremoved, hkept⟩ := ix.removeRange_spec start length
  refine ⟨⟨hremoved, hkept, if_pos rfl⟩, ?_, ?_, ?_⟩
  · rw [hnone]
    refine clears_of_eraseRange (fun hgate => ?_) (outcome_clearBlocks_of_invalid · start length)
      (by simp)
    rw [Contents.eraseRange_zero]
    exact (holds_of_clear hgate).clearBlocks start length
  · rw [hnone]
    refine clears_of_eraseRange (fun hgate => ?_) (outcome_clearRegions_of_invalid · start length)
      (by simp)
    rw [Contents.eraseRange_zero]
    exact (holds_of_clear hgate).clearRegions start length
  · rw [hcode]
    exact clears_of_eraseRange (fun hgate => (holds_of_clear hgate).freeBlock start stop)
      (outcome_freeBlock_of_invalid · start stop) (by simp)

end Registry

end TraceAtlas
