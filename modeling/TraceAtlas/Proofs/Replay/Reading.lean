import TraceAtlas.Proofs.Chain.Nesting
import TraceAtlas.Proofs.Replay.Agreement
import TraceAtlas.Proofs.Replay.Edits
import TraceAtlas.Proofs.Replay.Safety

/-! # What a script says

A script can be read without a registry: its operations add regions and blocks and drop them again,
a trace says from where to where each of its frames is active, and positions cut code into pieces.
Here a script is read that way, with neither chains of words nor claims nor slots, and samples are
compared with what was read. The two agree at every address once all operations are applied.

## Main definitions
* `Op.region?`, `Op.AddsBlock` : what an operation says of the region or the blocks that it adds.
* `Script.LiveRegion`, `Script.LiveBlock` : what was added and not dropped since.
* `Script.Reads` : what a reading of the script shows at an address.

## Main statements
* `Replay.sample_eq_ok_iff_reads` : a sample is what a reading of the script shows.
-/

namespace TraceAtlas

/-! ## (1) What operations say -/

/-- A frame boundary as an event of a chain under construction. -/
def TraceEvent.toEvent : TraceEvent → Chain.Builder.Event
  | enter frame start => .enter frame start
  | leave stop => .leave stop

/-- What a script says of a region: its size, and the frames that are active at each offset. -/
structure ScriptRegion where
  size : UInt32
  framesAt : Nat → Except Fault (List FrameId)

namespace Op

/-- What happens in a trace, from the frames on that are active at its start. -/
def traced (inherited : List FrameId) (events : List TraceEvent) : List Chain.Builder.Event :=
  .inherit inherited :: events.map TraceEvent.toEvent

/-- The number of records that the trace of an operation opens. -/
def records : Op → Nat
  | addTrace _ _ inherited events => Chain.Builder.opens (traced inherited events)
  | _ => 0

/-- The region that an operation adds, with its start. Finished chains are walked; in a trace those
frames are active whose stay covers the offset, in the order in which they were entered. -/
def region? : Op → Option (Address × ScriptRegion)
  | addCode start size words => some (start, ⟨size, fun offset => Chain.frames ⟨words⟩ offset⟩)
  | addTrace start size inherited events =>
    let stays := Chain.Builder.history (traced inherited events)
    some (start, ⟨size, fun offset =>
      .ok ((stays.filter fun stay => stay.Covers size offset).map (·.frame))⟩)
  | _ => none

/-- An operation adds a block that starts at an address. Between a position and the next one, or the
end of the code, lies a piece of it; one that is not empty is a block, cut to the longest one there
can be. -/
def AddsBlock (a : Address) (block : Block) : Op → Prop
  | addDepth start size depth => a = start ∧ block = ⟨size, depth⟩
  | frameDepths start stop positions depths => ∃ i position depth,
      positions[i]? = some position ∧ depths[i]? = some depth ∧
        let length := stop.toNat - start.toNat
        let next := (positions[i + 1]?.map UInt32.toNat).getD length
        position.toNat < next ∧ a.toNat = start.toNat + position.toNat ∧
          block.size.toNat = min (next - position.toNat) (UInt32.size - 1) ∧ block.depth = depth
  | _ => False

end Op

/-! ## (2) What a script says -/

namespace Script

variable {α : Type}

/-- Among some operations one adds something, and none after it drops that again. -/
def LiveIn (adds drops : Op → Prop) (ops : List Op) : Prop :=
  ∃ before op after, ops = before ++ op :: after ∧ adds op ∧ ∀ later ∈ after, ¬drops later

/-- A region was added and not dropped since. -/
def LiveRegion (ops : List Op) (a : Address) (region : ScriptRegion) : Prop :=
  LiveIn (fun op => op.region? = some (a, region)) (fun op => op.DropsRegion a) ops

/-- A block was added and not dropped since. -/
def LiveBlock (ops : List Op) (a : Address) (block : Block) : Prop :=
  LiveIn (fun op => op.AddsBlock a block) (fun op => op.DropsBlock a) ops

/-- Of all that is live, something has the greatest start that is not above an address. -/
def Nearest (live : Address → α → Prop) (pc a : Address) (v : α) : Prop :=
  live a v ∧ a ≤ pc ∧ ∀ b w, live b w → b ≤ pc → b ≤ a

/-- What has the greatest start that is not above an address is shown if the address lies in it, and
else nothing is. -/
def Shows (live : Address → α → Prop) (size : α → UInt32) (pc : Address) :
    Option (Address × α) → Prop
  | some (a, v) => Nearest live pc a v ∧ pc.toNat - a.toNat < (size v).toNat
  | none => ∀ a v, Nearest live pc a v → (size v).toNat ≤ pc.toNat - a.toNat

/-- What a reading of a script shows at an address. -/
structure Reads (ops : List Op) (a : Address) (sample : Sample) : Prop where
  pc : sample.pc = a
  region : ∃ found, Shows (LiveRegion ops) ScriptRegion.size a found ∧
    sample.region = found.map (·.1) ∧
      match found with
      | some (start, region) => region.framesAt (a.toNat - start.toNat) = .ok sample.frames
      | none => sample.frames = []
  depth : ∃ found, Shows (LiveBlock ops) Block.size a found ∧
    sample.depth = found.map (·.2.depth)

/-- Nothing is live before the first operation. -/
theorem not_liveIn_nil {adds drops : Op → Prop} : ¬LiveIn adds drops [] := by
  rintro ⟨before, op, after, h, -⟩
  cases before <;> cases h

/-- What is live after one more operation was added by it, or was live and is not dropped. -/
theorem liveIn_concat_iff {adds drops : Op → Prop} {ops : List Op} {op : Op} :
    LiveIn adds drops (ops ++ [op]) ↔ adds op ∨ LiveIn adds drops ops ∧ ¬drops op := by
  constructor
  · rintro ⟨before, first, after, heq, hadds, hkept⟩
    rcases List.eq_nil_or_concat after with rfl | ⟨after, last, rfl⟩
    · obtain ⟨-, hlast⟩ := List.append_inj' heq rfl
      obtain rfl := List.singleton_inj.1 hlast
      exact .inl hadds
    · rw [List.concat_eq_append, ← List.cons_append, ← List.append_assoc] at heq
      obtain ⟨rfl, hlast⟩ := List.append_inj' heq rfl
      obtain rfl := List.singleton_inj.1 hlast
      rw [List.concat_eq_append, List.forall_mem_append] at hkept
      exact .inr ⟨⟨before, first, after, rfl, hadds, hkept.1⟩, hkept.2 op (by simp)⟩
  · rintro (hadds | ⟨⟨before, first, after, rfl, hadds, hkept⟩, hdrop⟩)
    · exact ⟨ops, op, [], rfl, hadds, by simp⟩
    · refine ⟨before, first, after ++ [op], by simp, hadds, ?_⟩
      rw [List.forall_mem_append]
      exact ⟨hkept, by simpa using hdrop⟩

end Script

/-! ## (3) Traces -/

namespace Replay

/-- The events of a trace that is not refused build what they build as events of a chain. -/
theorem run_of_buildTrace {b b' : Chain.Builder} {events : List TraceEvent}
    (h : buildTrace b events = .ok b') :
    (Chain.Builder.run (events.map TraceEvent.toEvent) b).2 = b' := by
  induction events generalizing b with
  | nil => exact Except.ok.inj h
  | cons event events ih =>
    cases event with
    | enter frame start => exact ih h
    | leave stop =>
      rw [buildTrace] at h
      split at h
      · cases h
      · rename_i frame b₁ hleave
        rw [List.map_cons, Chain.Builder.run_snd_cons]
        simp only [TraceEvent.toEvent, Chain.Builder.perform, hleave]
        exact ih h

/-- The offsets of a trace that was checked do not go back. -/
theorem pairwise_of_validateEvents {previous : Offset} {events : List TraceEvent}
    (h : Op.validateEvents previous events = .ok ()) :
    (previous :: Chain.Builder.offsets (events.map TraceEvent.toEvent)).Pairwise (· ≤ ·) := by
  induction events generalizing previous with
  | nil => exact List.pairwise_singleton _ _
  | cons event events ih =>
    rw [Op.validateEvents] at h
    split at h
    · cases h
    · rename_i hahead
      have hle : previous ≤ event.offset := UInt32.not_lt.1 hahead
      have hrest := ih h
      have hoffsets : Chain.Builder.offsets ((event :: events).map TraceEvent.toEvent) =
          event.offset :: Chain.Builder.offsets (events.map TraceEvent.toEvent) := by
        cases event <;> rfl
      rw [hoffsets]
      refine List.pairwise_cons.2 ⟨?_, hrest⟩
      intro o ho
      rcases List.mem_cons.1 ho with rfl | ho
      · exact hle
      · exact UInt32.le_trans hle ((List.pairwise_cons.1 hrest).1 o ho)

end Replay

namespace Chain.Builder

/-- Where a finished chain passes the check, a walk meets the frames whose stay covers the offset.
-/
theorem frames_finish_after {events : List Event} (hord : (offsets events).Pairwise (· ≤ ·))
    (hopens : opens events < 2 ^ 30) {regionSize : Offset}
    (hcheck : ((after events).finish regionSize).check regionSize = .ok ()) (offset : Nat) :
    ((after events).finish regionSize).frames offset =
      .ok (((history events).filter fun s => s.Covers regionSize offset).map (·.frame)) := by
  have hlength : (after events).records.length < 2 ^ 30 := by
    simpa [after, length_records_run, empty] using hopens
  obtain ⟨last, ho, hfinish, hstays, hlast⟩ :=
    exists_finished (stacked_run stacked_empty events) regionSize
  rw [after, hfinish] at hcheck ⊢
  -- no stay ends behind the region, since no record of a chain in order does
  have hwithin : (run events empty).2.Within regionSize := by
    have hclosed := within_of_check ho hcheck
    simpa [Within, hstays, within_close_iff] using hclosed
  have hnested := (hlast (nested_after hord hopens) hwithin hlength).1
  rw [frames_eq_of_safeAt (hnested.safeAt ho offset), records_ofRecords,
    frames_filter_records ho hstays offset, stays_run]

end Chain.Builder

namespace Replay

/-- A walk in the chain of a trace meets the frames that the trace says are active. -/
theorem frames_of_traceChain {size : UInt32} {inherited : List FrameId} {events : List TraceEvent}
    {chain : Chain} (hvalid : Op.validateEvents 0 events = .ok ())
    (hrecords : Chain.Builder.opens (Op.traced inherited events) < 2 ^ 30)
    (htrace : traceChain size inherited events = .ok chain) (hcheck : chain.check size = .ok ())
    (offset : Nat) : chain.frames offset =
      .ok (((Chain.Builder.history (Op.traced inherited events)).filter fun stay =>
        stay.Covers size offset).map (·.frame)) := by
  obtain ⟨b, hbuild, rfl⟩ : ∃ b, buildTrace (Chain.Builder.empty.inherit inherited) events = .ok b ∧
      b.finish size = chain := by
    rw [traceChain] at htrace
    cases hbuild : buildTrace (Chain.Builder.empty.inherit inherited) events with
    | error e =>
      rw [hbuild] at htrace
      cases htrace
    | ok b =>
      rw [hbuild] at htrace
      exact ⟨b, rfl, Except.ok.inj htrace⟩
  obtain rfl : Chain.Builder.after (Op.traced inherited events) = b := run_of_buildTrace hbuild
  have hord : (Chain.Builder.offsets (Op.traced inherited events)).Pairwise (· ≤ ·) := by
    have hevents := pairwise_of_validateEvents hvalid
    -- what is inherited is entered at the start of the region, ahead of all events
    show (inherited.map (fun _ => (0 : Offset)) ++
      Chain.Builder.offsets (events.map TraceEvent.toEvent)).Pairwise (· ≤ ·)
    refine List.pairwise_append.2 ⟨?_, (List.pairwise_cons.1 hevents).2, ?_⟩
    · exact List.pairwise_map.2 (List.pairwise_of_forall fun _ _ => UInt32.le_refl 0)
    · intro o ho
      obtain ⟨frame, -, rfl⟩ := List.mem_map.1 ho
      exact (List.pairwise_cons.1 hevents).1
  exact Chain.Builder.frames_finish_after hord hrecords hcheck offset

end Replay

/-! ## (4) One operation -/

/-- What a script would say of a region. -/
def Region.reading (region : Region) : ScriptRegion := ⟨region.size, region.chain.frames⟩

namespace Replay

namespace Applied

variable {r r' : Replay} {op : Op} {a : Address}

/-- The region that an operation adds to the registry is the one that it says. -/
theorem live_regionEdits_iff (h : r.Applied op r') (hop : op.validate = .ok ())
    (hrecords : op.records < 2 ^ 30) (serial : Nat) {x : ScriptRegion} :
    (∃ region, Edit.Live (op.regionEdits serial) a region ∧ region.reading = x) ↔
      op.region? = some (a, x) := by
  have hadded {start : Address} {added : Region} :
      (∃ region, Edit.Live [.add start added] a region ∧ region.reading = x) ↔
        some (start, added.reading) = some (a, x) := by
    have hkept : ∀ e ∈ [Edit.add start added], ¬e.Ends a := by simp [Edit.Ends]
    simp only [Edit.live_iff_mem hkept]
    simp [eq_comm, and_assoc]
  cases h with
  | addCode _ _ _ => exact hadded
  | @addTrace start size inherited events chain _ htrace hcheck _ _ =>
    -- the frames of the chain are those of the stays that its trace tells of
    have hreading : (⟨size, chain, serial⟩ : Region).reading = ⟨size, fun offset =>
        .ok (((Chain.Builder.history (Op.traced inherited events)).filter fun stay =>
          stay.Covers size offset).map (·.frame))⟩ := by
      simp only [Region.reading, ScriptRegion.mk.injEq, true_and]
      funext offset
      exact frames_of_traceChain hop hrecords htrace hcheck offset
    rw [Op.regionEdits, htrace]
    exact hadded.trans (by rw [hreading, Op.region?])
  | removeCode _ _ | addDepth _ _ | frameDepths _ _ | clearDepth _ | free _ =>
    refine iff_of_false ?_ (by simp [Op.region?])
    rintro ⟨region, hlive, -⟩
    simpa [Op.regionEdits] using hlive.mem

/-- The blocks that an operation adds to the registry are those that it says. -/
theorem live_blockEdits_iff (h : r.Applied op r') (hop : op.validate = .ok ()) {block : Block} :
    Edit.Live op.blockEdits a block ↔ op.AddsBlock a block := by
  cases h with
  | @addDepth start size depth _ _ _ =>
    show Edit.Live [.add start ⟨size, depth⟩] a block ↔ _
    rw [Edit.live_iff_mem (by simp [Edit.Ends])]
    simp [Op.AddsBlock]
  | @frameDepths start stop positions depths _ hfit _ =>
    obtain ⟨hpairs, -, hstop, -⟩ := of_validate_frameDepths hop
    have hlength : Address.distance start stop = stop - start := if_pos hstop
    rw [hlength, claimed_eq_map_pieces _ hpairs] at hfit
    show Edit.Live ((Registry.pieces (stop - start) positions depths).map
      (Registry.addPiece start)) a block ↔ _
    rw [Edit.live_iff_mem (by simp [Registry.addPiece, Edit.Ends]), List.mem_map]
    have htoNat : (stop - start).toNat = stop.toNat - start.toNat :=
      UInt64.toNat_sub_of_le _ _ hstop
    constructor
    · rintro ⟨piece, hpiece, heq⟩
      -- no start runs past the end of the address space, so addresses add up like numbers
      have hbefore := hfit _ (List.mem_map_of_mem hpiece)
      obtain ⟨i, position, depth, hposition, hdepth, hlt, rfl⟩ := Registry.mem_pieces_iff.1 hpiece
      obtain ⟨rfl, rfl⟩ := Edit.add.inj heq
      rw [htoNat] at hlt
      refine ⟨i, position, depth, hposition, hdepth, hlt, ?_, ?_, rfl⟩
      · exact Address.toNat_add_offset hbefore.1
      · rw [htoNat]
        exact Registry.toNat_cut _
    · rintro ⟨i, position, depth, hposition, hdepth, hlt, ha, hsize, hblock⟩
      rw [← htoNat] at hlt hsize
      have hpiece := Registry.mem_pieces_iff.2 ⟨i, position, depth, hposition, hdepth, hlt, rfl⟩
      have hbefore := hfit _ (List.mem_map_of_mem hpiece)
      refine ⟨_, hpiece, ?_⟩
      obtain rfl : start + position.toUInt64 = a := by
        rw [← UInt64.toNat_inj, Address.toNat_add_offset hbefore.1, ha]
      obtain ⟨size, depth'⟩ := block
      obtain rfl : depth' = depth := hblock
      rw [Registry.addPiece, ← hsize, UInt32.ofNat_toNat]
  | addCode _ _ _ | addTrace _ _ _ _ | removeCode _ _ | clearDepth _ | free _ =>
    refine iff_of_false ?_ (by simp [Op.AddsBlock])
    intro hlive
    simpa [Op.blockEdits] using hlive.mem

end Applied

end Replay

namespace Op

/-- An operation ends in the registry what it says that it drops. -/
theorem forall_not_ends_regionEdits_iff {op : Op} (serial : Nat) {a : Address} :
    (∀ e ∈ op.regionEdits serial, ¬e.Ends a) ↔ ¬op.DropsRegion a := by
  cases op with
  | addTrace start size inherited events =>
    rw [regionEdits]
    split <;> simp [DropsRegion, Edit.Ends]
  | addCode | removeCode | addDepth | frameDepths | clearDepth | free =>
    simp [regionEdits, DropsRegion, Edit.Ends]

/-- The same for blocks. -/
theorem forall_not_ends_blockEdits_iff {op : Op} {a : Address} :
    (∀ e ∈ op.blockEdits, ¬e.Ends a) ↔ ¬op.DropsBlock a := by
  cases op <;> simp [blockEdits, DropsBlock, Edit.Ends, Registry.addPiece]

end Op

/-! ## (5) Whole scripts -/

namespace Replay

variable {r : Replay} {ops : List Op}

/-- **What is live in the registry** once all operations of a script are applied is what the script
says. -/
theorem live_applyAll_iff (t : Tuning) (hops : ∀ op ∈ ops, op.validate = .ok ())
    (hrecords : ∀ op ∈ ops, op.records < 2 ^ 30)
    (h : ((start t).applyAll 0 ops).outcome = .ok (.ok (), r)) :
    r.Sound ∧ (∀ a x, (∃ region, r.liveRegions a = some region ∧ region.reading = x) ↔
        Script.LiveRegion ops a x) ∧
      ∀ a block, r.liveBlocks a = some block ↔ Script.LiveBlock ops a block := by
  -- from the end, since what an operation adds is live until a later one drops it
  induction ops using List.reverseRecOn generalizing r with
  | nil =>
    obtain rfl : start t = r := congrArg Prod.snd (Except.ok.inj h)
    refine ⟨sound_start t, fun a x => ?_, fun a block => ?_⟩
    · refine iff_of_false ?_ Script.not_liveIn_nil
      rintro ⟨region, hlive, -⟩
      rw [liveRegions_start] at hlive
      cases hlive
    · refine iff_of_false ?_ Script.not_liveIn_nil
      rw [liveBlocks_start]
      intro hlive
      cases hlive
  | append_singleton ops op ih =>
    obtain ⟨r₁, hbefore, happly⟩ := applyAll_concat_eq_ok_iff.1 h
    obtain ⟨hr₁, hregions, hblocks⟩ := ih (fun op hop => hops op (by simp [hop]))
      (fun op hop => hrecords op (by simp [hop])) hbefore
    have hop : op.validate = .ok () := hops op (by simp)
    obtain ⟨happlied, hr⟩ := hr₁.applied_of_apply hop happly
    obtain ⟨serial, hedited, -⟩ := edits_of_apply happly
    refine ⟨hr, fun a x => ?_, fun a block => ?_⟩
    · rw [Script.LiveRegion, Script.liveIn_concat_iff, ← Script.LiveRegion, ← hregions,
        ← happlied.live_regionEdits_iff hop (hrecords op (by simp)) serial,
        ← Op.forall_not_ends_regionEdits_iff serial]
      have hlive (region : Region) := hedited.regions.eq_some_iff (k := a) (v := region)
      simp only [hlive]
      constructor
      · rintro ⟨region, hadded | ⟨hold, hkept⟩, hx⟩
        · exact .inl ⟨region, hadded, hx⟩
        · exact .inr ⟨⟨region, hold, hx⟩, hkept⟩
      · rintro (⟨region, hadded, hx⟩ | ⟨⟨region, hold, hx⟩, hkept⟩)
        · exact ⟨region, .inl hadded, hx⟩
        · exact ⟨region, .inr ⟨hold, hkept⟩, hx⟩
    · rw [Script.LiveBlock, Script.liveIn_concat_iff, ← Script.LiveBlock, ← hblocks,
        ← happlied.live_blockEdits_iff hop, ← Op.forall_not_ends_blockEdits_iff]
      exact hedited.blocks.eq_some_iff

end Replay

/-! ## (6) Samples -/

namespace Contents

variable {α β : Type} {m : Contents α} {live : Address → α → Prop} {size : α → UInt32}
  {a : Address}

/-- What a lookup finds is what is shown of the entries that are live. -/
theorem finds_iff_shows (h : ∀ k v, m k = some v ↔ live k v) {found : Option (Address × α)} :
    m.Finds size a found ↔ Script.Shows live size a found := by
  have hfloor (k : Address) (v : α) :
      m.IsFloor a (some (k, v)) ↔ Script.Nearest live a k v := by
    rw [IsFloor, Script.Nearest, h k v]
    refine and_congr_right fun _ => and_congr_right fun _ => ⟨?_, ?_⟩
    · intro hbehind l w hl hla
      by_contra hkl
      have hnone := hbehind l (UInt64.not_le.1 hkl) hla
      rw [(h l w).2 hl] at hnone
      cases hnone
    · intro hgreatest l hkl hla
      by_contra hlive
      obtain ⟨w, hw⟩ := Option.ne_none_iff_exists'.1 hlive
      exact UInt64.not_le.2 hkl (hgreatest l w ((h l w).1 hw) hla)
  -- the nearest entry is not above the address, so the distance does not go below zero
  have hrange {k : Address} (v : α) (hka : k ≤ a) :
      Address.InRange k (size v).toUInt64 a ↔ a.toNat - k.toNat < (size v).toNat := by
    rw [Address.InRange, and_iff_right hka, UInt32.toNat_toUInt64]
    rw [UInt64.le_iff_toNat_le] at hka
    omega
  cases found with
  | none =>
    show (∀ k v, m.IsFloor a (some (k, v)) → ¬Address.InRange k (size v).toUInt64 a) ↔
      ∀ k v, Script.Nearest live a k v → (size v).toNat ≤ a.toNat - k.toNat
    refine forall_congr' fun k => forall_congr' fun v => ?_
    rw [hfloor k v]
    refine imp_congr_right fun hnearest => ?_
    rw [hrange v hnearest.2.1, Nat.not_lt]
  | some entry =>
    obtain ⟨k, v⟩ := entry
    show m.IsFloor a (some (k, v)) ∧ Address.InRange k (size v).toUInt64 a ↔
      Script.Nearest live a k v ∧ a.toNat - k.toNat < (size v).toNat
    rw [hfloor k v]
    exact and_congr_right fun hnearest => hrange v hnearest.2.1

/-- What is found among entries that are looked at in some way is what is found among the entries.
-/
theorem Finds.map {f : α → β} {size' : β → UInt32} (hsize : ∀ v, size' (f v) = size v)
    {found : Option (Address × α)} (h : m.Finds size a found) :
    Contents.Finds (fun k => (m k).map f) size' a
      (found.map fun entry => (entry.1, f entry.2)) := by
  cases found with
  | none =>
    intro k x hfloor
    obtain ⟨hk, hka, hbehind⟩ := hfloor
    obtain ⟨v, hv, rfl⟩ := Option.map_eq_some_iff.1 hk
    rw [hsize]
    exact h k v ⟨hv, hka, fun l hkl hla => Option.map_eq_none_iff.1 (hbehind l hkl hla)⟩
  | some entry =>
    obtain ⟨k, v⟩ := entry
    obtain ⟨⟨hk, hka, hbehind⟩, hrange⟩ := h
    refine ⟨⟨congrArg (Option.map f) hk, hka, ?_⟩, ?_⟩
    · intro l hkl hla
      exact congrArg (Option.map f) (hbehind l hkl hla)
    · show Address.InRange k (size' (f v)).toUInt64 a
      rwa [hsize]

end Contents

namespace Script

variable {ops : List Op} {a : Address}

/-- A reading shows one thing at an address where no two are shown of the regions or the blocks. -/
theorem Reads.unique {sample sample' : Sample}
    (hregions : ∀ found found', Shows (LiveRegion ops) ScriptRegion.size a found →
      Shows (LiveRegion ops) ScriptRegion.size a found' → found = found')
    (hblocks : ∀ found found', Shows (LiveBlock ops) Block.size a found →
      Shows (LiveBlock ops) Block.size a found' → found = found')
    (h : Reads ops a sample) (h' : Reads ops a sample') : sample = sample' := by
  obtain ⟨hpc, ⟨found, hshows, hregion, hframes⟩, block, hblock, hdepth⟩ := h
  obtain ⟨hpc', ⟨found', hshows', hregion', hframes'⟩, block', hblock', hdepth'⟩ := h'
  obtain rfl := hregions found found' hshows hshows'
  obtain rfl := hblocks block block' hblock hblock'
  have hsame : sample.frames = sample'.frames := by
    cases found with
    | none => exact hframes.trans hframes'.symm
    | some entry => exact Except.ok.inj (hframes.symm.trans hframes')
  obtain ⟨pc, region, frames, depth⟩ := sample
  obtain ⟨pc', region', frames', depth'⟩ := sample'
  simp only [Sample.mk.injEq]
  exact ⟨hpc.trans hpc'.symm, hregion.trans hregion'.symm, hsame, hdepth.trans hdepth'.symm⟩

end Script

namespace Replay

variable {r : Replay} {s : Script}

/-- **Samples are what a script says.** Once all operations of a script that passes the check are
applied, and none of its traces opens more records than a skip pointer can count, every address can
be sampled, and the sample is the one thing that a reading of the script shows there. -/
theorem sample_eq_ok_iff_reads (t : Tuning) (hvalid : s.validate = .ok ())
    (hrecords : ∀ op ∈ s.ops, op.records < 2 ^ 30)
    (h : ((start t).applyAll 0 s.ops).outcome = .ok (.ok (), r)) (pc : Address) :
    (∃ sample, r.sample pc = .ok sample) ∧
      ∀ sample, r.sample pc = .ok sample ↔ Script.Reads s.ops pc sample := by
  obtain ⟨hr, hregions, hblocks⟩ :=
    live_applyAll_iff t (Script.validate_of_validateFrom hvalid) hrecords h
  have hregion {found : Option (Address × ScriptRegion)} :
      Contents.Finds (fun k => (r.liveRegions k).map Region.reading) ScriptRegion.size pc found ↔
        Script.Shows (Script.LiveRegion s.ops) ScriptRegion.size pc found := by
    refine Contents.finds_iff_shows fun k x => ?_
    rw [← hregions, Option.map_eq_some_iff]
  have hblock {found : Option (Address × Block)} : r.liveBlocks.Finds Block.size pc found ↔
      Script.Shows (Script.LiveBlock s.ops) Block.size pc found :=
    Contents.finds_iff_shows hblocks
  have hreads (sample : Sample) (hsample : r.sample pc = .ok sample) :
      Script.Reads s.ops pc sample := by
    have hfinds := Registry.finds_region? hr.gate pc
    have hshows := hregion.1 (hfinds.map fun region => (rfl : region.reading.size = region.size))
    obtain ⟨found, hfound, hdepth⟩ := Registry.finds_depthAt? hr.gate pc
    rw [sample_eq] at hsample
    -- the region that is found decides what the frames are
    cases hcase : r.registry.region? pc with
    | none =>
      rw [hcase] at hsample hshows
      obtain rfl := Except.ok.inj hsample
      exact ⟨rfl, ⟨none, hshows, rfl, rfl⟩, found, hblock.1 hfound, hdepth⟩
    | some entry =>
      obtain ⟨start, region⟩ := entry
      rw [hcase] at hsample hshows hfinds
      simp only at hsample
      cases hframes : region.chain.frames (pc - start).toNat with
      | error e =>
        rw [hframes] at hsample
        cases hsample
      | ok frames =>
        rw [hframes] at hsample
        obtain rfl := Except.ok.inj hsample
        rw [UInt64.toNat_sub_of_le _ _ hfinds.1.2.1] at hframes
        exact ⟨rfl, ⟨some (start, region.reading), hshows, rfl, hframes⟩, found,
          hblock.1 hfound, hdepth⟩
  obtain ⟨shown, hshown⟩ := hr.exists_sample pc
  refine ⟨⟨shown, hshown⟩, fun sample => ⟨hreads sample, ?_⟩⟩
  intro hsample
  -- a reading shows one sample only, so the one that is taken is that one
  have hsame := Script.Reads.unique (fun _ _ h h' => (hregion.2 h).unique (hregion.2 h'))
    (fun _ _ h h' => (hblock.2 h).unique (hblock.2 h')) hsample (hreads shown hshown)
  rw [hsame]
  exact hshown

/-- A trace that goes on from another one, with code cut into pieces and some of it dropped again.
-/
theorem nested_trace_sampled : ∃ s : Script, ∃ r, s.validate = .ok () ∧
    ((start .standard).applyAll 0 s.ops).outcome = .ok (.ok (), r) ∧
    r.sample 0x10c8 = .ok ⟨0x10c8, some 0x1000, [9, 4, 2], some 3⟩ ∧
    Script.Reads s.ops 0x10c8 ⟨0x10c8, some 0x1000, [9, 4, 2], some 3⟩ := by
  let s : Script := ⟨[], {},
    [.addTrace 0x1000 600 [9] [.enter 4 0, .enter 2 100, .leave 300, .leave 400],
      .frameDepths 0x1000 0x1258 [0, 16, 16, 512] [1, 2, 3, 4], .addDepth 0x2000 8 5,
      .addCode 0x10c0 16 [7, 0, 16, 4], .clearDepth 0x1200 64, .removeCode 0x10c0]⟩
  have hvalid : s.validate = .ok () := by decide +kernel
  have hrecords : ∀ op ∈ s.ops, op.records < 2 ^ 30 := by decide
  have hout : ((start .standard).applyAll 0 s.ops).outcome.map
      (fun p => (p.1, p.2.sample 0x10c8)) =
        .ok (.ok (), .ok ⟨0x10c8, some 0x1000, [9, 4, 2], some 3⟩) := by decide +kernel
  obtain ⟨⟨result, r⟩, h, hshown⟩ := Traced.exists_of_map_eq_ok hout
  obtain ⟨rfl, hsample⟩ := Prod.mk.inj hshown
  exact ⟨s, r, hvalid, h, hsample,
    ((sample_eq_ok_iff_reads .standard hvalid hrecords h 0x10c8).2 _).1 hsample⟩

end Replay

end TraceAtlas
