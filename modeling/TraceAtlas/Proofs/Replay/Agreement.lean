import TraceAtlas.Proofs.Replay.Step

/-! # Claims and live starts

A replay means to claim exactly the starts that are live, so that an operation is refused for a
start that is taken exactly if something starts there. For regions it does. For blocks it does at
every address but the highest: a claim on that one is never forgotten, while clearing a range up to
the end of the address space removes the block. Here the starts are followed through every list of
operations that are all applied.

## Main definitions
* `Op.regionStart?`, `Op.blockStarts`, `Op.DropsRegion`, `Op.DropsBlock` : the starts that an
  operation adds and drops.
* `Op.LoseHighest` : some operations leave a claim on the highest address behind.

## Main statements
* `Replay.Applied.sound` : applied operations keep claims and what is live together.
* `Replay.claims_iff_live` : claims against live starts, after any operations.
-/

namespace TraceAtlas

/-! ## (1) Starts that come and go -/

namespace Op

/-- The start of the region that an operation registers. -/
def regionStart? : Op → Option Address
  | addCode start _ _ | addTrace start _ _ _ => some start
  | _ => none

/-- The starts of the blocks that an operation registers. -/
def blockStarts : Op → List Address
  | addDepth start _ _ => [start]
  | frameDepths start stop positions _ =>
    Replay.startsAt start (Replay.claimed (Address.distance start stop) positions)
  | _ => []

/-- An operation drops the region that starts at an address. -/
def DropsRegion (a : Address) : Op → Prop
  | removeCode start => a = start
  | free start stop => Address.InRange start (Address.distance start stop) a
  | _ => False

/-- An operation drops the block that starts at an address. -/
def DropsBlock (a : Address) : Op → Prop
  | clearDepth start size => Address.InRange start size a
  | free start stop => Address.InRange start (Address.distance start stop) a
  | _ => False

/-- Among some operations one registers a block at the highest address, and a later one clears a
range that this address lies in. -/
def LoseHighest (ops : List Op) : Prop :=
  ∃ before op, before ++ [op] <+: ops ∧ (∃ earlier ∈ before, Address.last ∈ earlier.blockStarts) ∧
    op.DropsBlock Address.last

/-- The highest block is lost earlier on, or the last operation drops it after it was registered. -/
theorem loseHighest_concat_iff {ops : List Op} {op : Op} :
    LoseHighest (ops ++ [op]) ↔ LoseHighest ops ∨
      (∃ earlier ∈ ops, Address.last ∈ earlier.blockStarts) ∧ op.DropsBlock Address.last := by
  simp only [LoseHighest, List.prefix_concat_iff]
  constructor
  · rintro ⟨before, last, heq | hprefix, hadd, hdrop⟩
    · obtain ⟨rfl, hlast⟩ := List.append_inj' heq rfl
      obtain rfl := List.singleton_inj.1 hlast
      exact .inr ⟨hadd, hdrop⟩
    · exact .inl ⟨before, last, hprefix, hadd, hdrop⟩
  · rintro (⟨before, last, hprefix, hadd, hdrop⟩ | ⟨hadd, hdrop⟩)
    · exact ⟨before, last, .inr hprefix, hadd, hdrop⟩
    · exact ⟨ops, op, .inl rfl, hadd, hdrop⟩

end Op

/-! ## (2) One operation -/

namespace Contents

/-- Erasing a range leaves what there was outside of it. -/
theorem eraseRange_ne_none_iff {α : Type} {m : Contents α} {start length a : Address} :
    m.eraseRange start length a ≠ none ↔ m a ≠ none ∧ ¬Address.InRange start length a := by
  unfold eraseRange
  split <;> simp [*]

/-- After an update there is something at the address that was set and where there was before. -/
theorem update_ne_none_iff {α : Type} {m : Contents α} {start a : Address} {v : α} :
    Function.update m start (some v) a ≠ none ↔ m a ≠ none ∨ start = a := by
  by_cases h : a = start
  · simp [h]
  · rw [Function.update_of_ne h]
    simp [Ne.symm h]

end Contents

namespace Replay

namespace Applied

variable {r r' : Replay} {op : Op}

/-- Claims on regions come with a registration and go with what drops the region. -/
theorem mem_regions (h : r.Applied op r') (a : Address) :
    a ∈ r'.regions ↔ (a ∈ r.regions ∨ op.regionStart? = some a) ∧ ¬op.DropsRegion a := by
  cases h with
  | addCode _ _ h | addTrace _ _ _ h =>
    simp [h.regions, Op.regionStart?, Op.DropsRegion, or_comm, eq_comm]
  | removeCode _ h | addDepth _ h | frameDepths _ h | clearDepth h =>
    simp [h.regions, Op.regionStart?, Op.DropsRegion]
  | free h => simp [h.regions, mem_forgetRange_distance, Op.regionStart?, Op.DropsRegion]

/-- And so do regions. -/
theorem liveRegions_ne_none_iff (h : r.Applied op r') (a : Address) :
    r'.liveRegions a ≠ none ↔
      (r.liveRegions a ≠ none ∨ op.regionStart? = some a) ∧ ¬op.DropsRegion a := by
  cases h with
  | addCode _ _ h | addTrace _ _ _ h =>
    rw [liveRegions, h.registry.liveRegions, Contents.update_ne_none_iff]
    simp [Op.regionStart?, Op.DropsRegion]
  | @removeCode start _ _ h =>
    rw [liveRegions, h.registry.liveRegions]
    by_cases ha : a = start
    · simp [ha, Op.regionStart?, Op.DropsRegion]
    · rw [Function.update_of_ne ha]
      simp [ha, Op.regionStart?, Op.DropsRegion]
  | addDepth _ h | frameDepths _ h | clearDepth h =>
    rw [liveRegions, h.registry.liveRegions]
    simp [Op.regionStart?, Op.DropsRegion]
  | free h =>
    rw [liveRegions, h.registry.liveRegions, Contents.eraseRange_ne_none_iff]
    simp [Op.regionStart?, Op.DropsRegion]

/-- Claims on blocks come with a registration and go with what drops the block, but one on the
highest address stays. -/
theorem mem_blocks (h : r.Applied op r') (a : Address) :
    a ∈ r'.blocks ↔
      (a ∈ r.blocks ∨ a ∈ op.blockStarts) ∧ ¬(a ≠ Address.last ∧ op.DropsBlock a) := by
  cases h with
  | addDepth _ h | frameDepths _ h => simp [h.blocks, Op.blockStarts, Op.DropsBlock, or_comm]
  | addCode _ _ h | addTrace _ _ _ h | removeCode _ h =>
    simp [h.blocks, Op.blockStarts, Op.DropsBlock]
  | clearDepth h | free h => simp [h.blocks, mem_forgetRange, Op.blockStarts, Op.DropsBlock]

/-- Blocks come with a registration and go with what drops them. -/
theorem liveBlocks_ne_none_iff (h : r.Applied op r') (hop : op.validate = .ok ()) (a : Address) :
    r'.liveBlocks a ≠ none ↔
      (r.liveBlocks a ≠ none ∨ a ∈ op.blockStarts) ∧ ¬op.DropsBlock a := by
  cases h with
  | addDepth _ h =>
    rw [liveBlocks, h.registry.liveBlocks, Contents.update_ne_none_iff]
    simp [Op.blockStarts, Op.DropsBlock, eq_comm]
  | @frameDepths start stop positions depths _ _ h =>
    -- the pieces that are registered are cut where the starts are claimed
    obtain ⟨hpairs, -, hstop, -⟩ := of_validate_frameDepths hop
    have hlength : Address.distance start stop = stop - start := if_pos hstop
    rw [liveBlocks, h.registry.liveBlocks, Contents.withPieces_ne_none_iff]
    simp [Op.blockStarts, Op.DropsBlock, mem_startsAt, hlength, claimed_eq_map_pieces _ hpairs,
      eq_comm]
  | addCode _ _ h | addTrace _ _ _ h | removeCode _ h =>
    rw [liveBlocks, h.registry.liveBlocks]
    simp [Op.blockStarts, Op.DropsBlock]
  | clearDepth h | free h =>
    rw [liveBlocks, h.registry.liveBlocks, Contents.eraseRange_ne_none_iff]
    simp [Op.blockStarts, Op.DropsBlock]

/-- A start that an operation registers a block at was not claimed, and nothing drops it there. -/
theorem of_mem_blockStarts (h : r.Applied op r') {a : Address} (ha : a ∈ op.blockStarts) :
    a ∉ r.blocks ∧ ¬op.DropsBlock a := by
  cases h with
  | addDepth hfree _ => exact ⟨List.mem_singleton.1 ha ▸ hfree, id⟩
  | frameDepths hfree _ =>
    obtain ⟨p, hp, rfl⟩ := mem_startsAt.1 ha
    exact ⟨(hfree p hp).2, id⟩
  | addCode | addTrace | removeCode | clearDepth | free => cases ha

/-- Applied operations keep claims and what is live together. -/
theorem sound (h : r.Applied op r') (hr : r.Sound) (hop : op.validate = .ok ())
    (hr' : r'.Readable) : r'.Sound where
  toReadable := hr'
  regions a := by rw [h.mem_regions, h.liveRegions_ne_none_iff, hr.regions]
  blocks a ha := by
    obtain ⟨hadded, hkept⟩ := (h.liveBlocks_ne_none_iff hop a).1 ha
    exact (h.mem_blocks a).2 ⟨hadded.imp_left (hr.blocks a), fun hdrop => hkept hdrop.2⟩

end Applied

/-! ## (3) Operations in a row -/

/-- A list of operations is applied to its end exactly if all but the last are and then that one is.
-/
theorem applyAll_concat_eq_ok_iff {r r'' : Replay} {position : Nat} {ops : List Op} {op : Op} :
    (r.applyAll position (ops ++ [op])).outcome = .ok (.ok (), r'') ↔
      ∃ r', (r.applyAll position ops).outcome = .ok (.ok (), r') ∧
        (r'.apply op).outcome = .ok (.ok (), r'') := by
  induction ops generalizing r position with
  | nil =>
    simp only [List.nil_append, applyAll, Traced.outcome_bind_eq_ok]
    constructor
    · rintro ⟨⟨result, r'⟩, happly, hrest⟩
      cases result with
      | error e => cases hrest
      | ok _ =>
        obtain rfl : r' = r'' := congrArg Prod.snd (Except.ok.inj hrest)
        exact ⟨r, rfl, happly⟩
    · rintro ⟨r', hr', happly⟩
      obtain rfl : r = r' := congrArg Prod.snd (Except.ok.inj hr')
      exact ⟨(.ok (), r''), happly, rfl⟩
  | cons first ops ih =>
    -- behind the first operation the list is one shorter and ends in the same one
    simp only [List.cons_append, applyAll, Traced.outcome_bind_eq_ok]
    constructor
    · rintro ⟨⟨result, r₁⟩, happly, hrest⟩
      cases result with
      | error e => cases hrest
      | ok _ =>
        obtain ⟨r', hr', hlast⟩ := ih.1 hrest
        exact ⟨r', ⟨(.ok (), r₁), happly, hr'⟩, hlast⟩
    · rintro ⟨r', ⟨⟨result, r₁⟩, happly, hrest⟩, hlast⟩
      cases result with
      | error e => cases hrest
      | ok _ => exact ⟨(.ok (), r₁), happly, ih.2 ⟨r', hrest, hlast⟩⟩

/-- Operations that were validated and are all applied lead from a sound replay to a sound one. -/
theorem Sound.applied_of_apply {r r' : Replay} {op : Op} (h : r.Sound) (hop : op.validate = .ok ())
    (happly : (r.apply op).outcome = .ok (.ok (), r')) : r.Applied op r' ∧ r'.Sound := by
  rcases h.apply hop with ⟨-, hfault⟩ | ⟨-, result, r₁, hout, hreadable, happlied⟩
  · rw [hfault] at happly
    cases happly
  · obtain ⟨rfl, rfl⟩ := Prod.mk.inj (Except.ok.inj (hout.symm.trans happly))
    exact ⟨happlied rfl, (happlied rfl).sound h hop hreadable⟩

/-- What holds of the claims on blocks after some operations: they are the starts of live blocks,
with the highest address among them once a block was registered there. -/
theorem blocks_applyAll (t : Tuning) {ops : List Op} {r : Replay}
    (hops : ∀ op ∈ ops, op.validate = .ok ())
    (h : ((start t).applyAll 0 ops).outcome = .ok (.ok (), r)) :
    r.Sound ∧ (∀ a, a ≠ Address.last → (a ∈ r.blocks ↔ r.liveBlocks a ≠ none)) ∧
      (Address.last ∈ r.blocks ↔ ∃ op ∈ ops, Address.last ∈ op.blockStarts) ∧
      (Address.last ∈ r.blocks ∧ r.liveBlocks Address.last = none ↔ Op.LoseHighest ops) := by
  -- from the end, since what a block at the highest address comes to depends on what was before
  induction ops using List.reverseRecOn generalizing r with
  | nil =>
    obtain rfl : start t = r := congrArg Prod.snd (Except.ok.inj h)
    refine ⟨sound_start t, fun a _ => ?_, ?_, ?_⟩
    · rw [liveBlocks_start]
      simp [start, Contents.empty]
    · simp [start]
    · simp [start, Op.LoseHighest]
  | append_singleton ops op ih =>
    obtain ⟨r₁, hops₁, happly⟩ := applyAll_concat_eq_ok_iff.1 h
    have hop : op.validate = .ok () := hops op (by simp)
    obtain ⟨hr₁, hagree, hclaimed, hlost⟩ := ih (fun op hop => hops op (by simp [hop])) hops₁
    obtain ⟨happlied, hr⟩ := hr₁.applied_of_apply hop happly
    have hlast : Address.last ∈ r.blocks ↔
        Address.last ∈ r₁.blocks ∨ Address.last ∈ op.blockStarts := by
      rw [happlied.mem_blocks]
      simp
    refine ⟨hr, fun a ha => ?_, ?_, ?_⟩
    · rw [happlied.mem_blocks, happlied.liveBlocks_ne_none_iff hop, hagree a ha]
      simp [ha]
    · rw [hlast, hclaimed]
      simp [or_and_right, exists_or]
    · -- a claim without a block was left by an earlier operation, or by this one
      have hlive := happlied.liveBlocks_ne_none_iff hop Address.last
      rw [Op.loseHighest_concat_iff, ← hlost, ← hclaimed, hlast]
      rw [← not_ne_iff, hlive]
      by_cases hadd : Address.last ∈ op.blockStarts
      · -- a block is registered there only while the address is not claimed
        obtain ⟨hfree, hdrop⟩ := happlied.of_mem_blockStarts hadd
        simp [hadd, hfree, hdrop]
      · by_cases hdrop : op.DropsBlock Address.last
        · simpa [hadd, hdrop] using fun hclaim _ => hclaim
        · simp [hadd, hdrop]

/-- A region is refused as taken exactly if its start is claimed. -/
theorem addCode_refuses_iff {r : Replay} {start : Address} {size : UInt32} {chain : Chain} :
    (∃ r', (r.addCode start size chain).outcome = .ok (.error (.regionTaken start), r')) ↔
      start ∈ r.regions := by
  unfold addCode
  split
  · rename_i htaken
    exact iff_of_true ⟨r, rfl⟩ htaken
  · rename_i hfree
    refine iff_of_false ?_ hfree
    rintro ⟨r', h⟩
    obtain ⟨⟨added, registry⟩, -, hadded⟩ := Traced.outcome_bind_eq_ok.1 h
    cases added <;> cases hadded

/-- A block is refused as taken exactly if its start is claimed. -/
theorem claimBlock_refuses_iff {r : Replay} {a : Address} :
    r.claimBlock a = .error (.blockTaken a) ↔ a ∈ r.blocks := by
  unfold claimBlock
  split <;> simp [*]

/-- **Claims against live starts.** After operations that were validated and are all applied, the
claims on regions are the starts of the live regions. The claims on blocks are the starts of the
live blocks, except that a claim on the highest address is left behind when the block there is
cleared, and this is the only way in which they part. So a start is refused as taken exactly if
something starts there, or if it is the highest address and was left behind. -/
theorem claims_iff_live (t : Tuning) {ops : List Op} {r : Replay}
    (hops : ∀ op ∈ ops, op.validate = .ok ())
    (h : ((start t).applyAll 0 ops).outcome = .ok (.ok (), r)) :
    (∀ a, a ∈ r.regions ↔ r.liveRegions a ≠ none) ∧
      (∀ a, a ∈ r.blocks ↔ r.liveBlocks a ≠ none ∨ a = Address.last ∧ Op.LoseHighest ops) ∧
      ((∀ a, a ∈ r.blocks ↔ r.liveBlocks a ≠ none) ↔ ¬Op.LoseHighest ops) ∧
      (∀ a size chain,
        (∃ r', (r.addCode a size chain).outcome = .ok (.error (.regionTaken a), r')) ↔
          r.liveRegions a ≠ none) ∧
      ∀ a, r.claimBlock a = .error (.blockTaken a) ↔
        r.liveBlocks a ≠ none ∨ a = Address.last ∧ Op.LoseHighest ops := by
  obtain ⟨hr, hagree, -, hlost⟩ := blocks_applyAll t hops h
  have hblocks (a : Address) : a ∈ r.blocks ↔
      r.liveBlocks a ≠ none ∨ a = Address.last ∧ Op.LoseHighest ops := by
    by_cases ha : a = Address.last
    · subst ha
      have hkept := hr.blocks Address.last
      rw [← hlost]
      -- the highest address is claimed for good once a block was there
      by_cases hlive : r.liveBlocks Address.last = none
      · simp [hlive]
      · simp [hlive, hkept hlive]
    · simp [hagree a ha, ha]
  refine ⟨hr.regions, hblocks, ⟨fun hall hlose => ?_, fun hkeep a => ?_⟩, fun a size chain => ?_,
    fun a => ?_⟩
  · obtain ⟨hclaimed, hcleared⟩ := hlost.2 hlose
    exact (hall Address.last).1 hclaimed hcleared
  · rw [hblocks, or_iff_left fun hlose => hkeep hlose.2]
  · rw [addCode_refuses_iff, hr.regions]
  · rw [claimBlock_refuses_iff, hblocks]

/-- A block at the highest address that is cleared with a range leaves its claim behind. -/
theorem claim_left_at_highest : ∃ r, ((start .standard).applyAll 0
      [.addDepth Address.last 1 3, .clearDepth Address.last 1]).outcome = .ok (.ok (), r) ∧
    r.claimBlock Address.last = .error (.blockTaken Address.last) ∧
    ¬∀ a, a ∈ r.blocks ↔ r.liveBlocks a ≠ none := by
  have hops : ∀ op ∈ [Op.addDepth Address.last 1 3, .clearDepth Address.last 1],
      op.validate = .ok () := by simp [Op.validate]
  have hlose : Op.LoseHighest [.addDepth Address.last 1 3, .clearDepth Address.last 1] :=
    ⟨[.addDepth Address.last 1 3], .clearDepth Address.last 1, List.prefix_rfl, by
      simp [Op.blockStarts], by simp only [Op.DropsBlock]; decide⟩
  have hend : (((start .standard).applyAll 0
      [.addDepth Address.last 1 3, .clearDepth Address.last 1]).outcome.toOption.bind
        fun p => p.1.toOption) = some () := by decide +kernel
  cases h : ((start .standard).applyAll 0
      [.addDepth Address.last 1 3, .clearDepth Address.last 1]).outcome with
  | error e => simp [h, Except.toOption] at hend
  | ok p =>
    obtain ⟨result, r⟩ := p
    cases result with
    | error e => simp [h, Except.toOption] at hend
    | ok _ =>
      obtain ⟨-, -, hpart, -, hrefuse⟩ := claims_iff_live .standard hops h
      exact ⟨r, rfl, (hrefuse Address.last).2 (.inr ⟨rfl, hlose⟩), fun hall => hpart.1 hall hlose⟩

end Replay

end TraceAtlas
