import TraceAtlas.Proofs.Chain.Skips
import TraceAtlas.Proofs.Lookup
import TraceAtlas.Proofs.Registry.Edits
import TraceAtlas.Proofs.Replay.Agreement

/-! # Operations as edits

Nothing is assumed of the operations here: words that were never checked, events that go backwards
or leave the region, positions that do not go with their depths. Whatever an operation that is
no fault comes to, it makes a few edits of the two maps, which can be read off it. A region is the
only thing with a form of its own, and it is added behind a check of its chain, be it made of words
or of events. So chains are in order in every state that operations lead to.

## Main definitions
* `Op.regionEdits`, `Op.blockEdits` : the edits that an operation makes of the two maps.
* `Replay.Ending` : the ways in which an operation ends.
* `Replay.attemptAll` : operations in a row, going on behind those that are refused.

## Main statements
* `Replay.ending_of_apply` : an operation that is no fault ends in one of these ways.
* `Replay.edits_of_apply` : what an operation makes of the registry.
* `Replay.chains_checked_of_attemptAll` : the chains of all live regions pass the check.
-/

namespace TraceAtlas

/-! ## (1) Edits that keep chains in order -/

/-- A region that an edit adds has a chain that passes the check. -/
def Edit.Checked : Edit Region → Prop
  | add _ region => region.chain.check region.size = .ok ()
  | remove _ | clear _ _ => True

/-- Edits that add chains in order keep all chains in order. -/
theorem Contents.Edited.checked {R R' : Contents Region} {edits : List (Edit Region)}
    (h : R.Edited edits R') (hR : R.Checked) (hedits : ∀ e ∈ edits, e.Checked) : R'.Checked := by
  induction h with
  | nil R => exact hR
  | @cons R _ e edits _ _ ih =>
    obtain ⟨he, hrest⟩ := List.forall_mem_cons.1 hedits
    refine ih ?_ hrest
    cases e with
    | add start region => exact hR.update he
    | remove start => exact hR.remove start
    | clear start length => exact hR.eraseRange start length

/-- A walk in a chain that passes the check ends, and every frame that it meets is the one of a
record that is active. -/
theorem Chain.exists_frames_of_check {c : Chain} {regionSize : UInt32}
    (hc : c.check regionSize = .ok ()) (offset : Nat) : ∃ frames, c.frames offset = .ok frames ∧
      ∀ frame ∈ frames, ∃ record ∈ c.records, record.frame = frame ∧ record.Active offset := by
  obtain ⟨frames, hframes, hsublist, -⟩ := framesFrom_of_check hc offset 0
  refine ⟨frames, hframes, ?_⟩
  intro frame hframe
  have hactive := hsublist.subset hframe
  rw [activeFrom, List.drop_zero, List.mem_map] at hactive
  obtain ⟨record, hrecord, rfl⟩ := hactive
  obtain ⟨hmem, ha⟩ := List.mem_filter.1 hrecord
  exact ⟨record, hmem, rfl, of_decide_eq_true ha⟩

namespace Op

/-- The edits of the regions that an operation makes, given the number that the registry counts a
region by. -/
def regionEdits (serial : Nat) : Op → List (Edit Region)
  | addCode start size words => [.add start ⟨size, ⟨words⟩, serial⟩]
  | addTrace start size inherited events =>
    match Replay.traceChain size inherited events with
    | .error _ => []
    | .ok chain => [.add start ⟨size, chain, serial⟩]
  | removeCode start => [.remove start]
  | free start stop => [.clear start (Address.distance start stop)]
  | addDepth .. | frameDepths .. | clearDepth .. => []

/-- The edits of the blocks that an operation makes. -/
def blockEdits : Op → List (Edit Block)
  | addDepth start size depth => [.add start ⟨size, depth⟩]
  | frameDepths start stop positions depths =>
    (Registry.pieces (stop - start) positions depths).map (Registry.addPiece start)
  | clearDepth start size => [.clear start size]
  | free start stop => [.clear start (Address.distance start stop)]
  | addCode .. | addTrace .. | removeCode .. => []

/-- An operation that registers a region leaves the blocks alone. -/
theorem blockEdits_of_regionStart? {op : Op} {start : Address}
    (h : op.regionStart? = some start) : op.blockEdits = [] := by
  cases op with
  | addCode | addTrace => rfl
  | removeCode | addDepth | frameDepths | clearDepth | free => cases h

end Op

/-! ## (2) One operation -/

namespace Replay

variable {r r' : Replay} {op : Op} {result : Except ReplayError Unit}

/-- Claiming starts of blocks does nothing to the registry, nor to the claims on regions. -/
theorem same_of_claimBlocks {start : Address} {positions : List Offset}
    (h : (r.claimBlocks start positions).outcome = .ok (result, r')) :
    r'.registry = r.registry ∧ r'.regions = r.regions := by
  induction positions generalizing r with
  | nil =>
    obtain rfl : r = r' := congrArg Prod.snd (Except.ok.inj h)
    exact ⟨rfl, rfl⟩
  | cons position positions ih =>
    rw [claimBlocks] at h
    split at h
    · cases h
    · by_cases htaken : start + position.toUInt64 ∈ r.blocks
      · simp only [claimBlock, if_pos htaken] at h
        obtain rfl : r = r' := congrArg Prod.snd (Except.ok.inj h)
        exact ⟨rfl, rfl⟩
      · simp only [claimBlock, if_neg htaken] at h
        -- the claims are all that another call starts from
        have hsame := ih h
        exact hsame

/-- The ways in which an operation ends that is no fault: it was turned away for its chain or for a
start, or the registry did what it could, with the claims that go with it. -/
inductive Ending (r : Replay) : Op → Except ReplayError Unit → Replay → Prop
  | malformed {start : Address} {size : UInt32} {words : List UInt32} {cause : MalformedChain} :
      Chain.check ⟨words⟩ size = .error cause →
      Ending r (.addCode start size words) (.error (.malformedChain start cause)) r
  | unbalanced {start : Address} {size : UInt32} {inherited : List FrameId}
      {events : List TraceEvent} {e : ReplayError} : traceChain size inherited events = .error e →
      Ending r (.addTrace start size inherited events) (.error e) r
  | leaving {start : Address} {size : UInt32} {inherited : List FrameId}
      {events : List TraceEvent} {chain : Chain} {cause : MalformedChain} :
      traceChain size inherited events = .ok chain → chain.check size = .error cause →
      Ending r (.addTrace start size inherited events) (.error (.leavesRegion start cause)) r
  | regionTaken {op : Op} {start : Address} : op.regionStart? = some start → start ∈ r.regions →
      Ending r op (.error (.regionTaken start)) r
  | region {op : Op} {start : Address} {size : UInt32} {chain : Chain}
      {added : Except OutOfMemory Unit} {registry : Registry} : op.regionStart? = some start →
      (∀ serial, op.regionEdits serial = [.add start ⟨size, chain, serial⟩]) →
      chain.check size = .ok () → start ∉ r.regions →
      (r.registry.registerCode start size chain).outcome = .ok (added, registry) →
      Ending r op (added.mapError .outOfMemory) { r with registry, regions := start :: r.regions }
  | regionUnknown {start : Address} : start ∉ r.regions →
      Ending r (.removeCode start) (.error (.regionUnknown start)) r
  | removed {start : Address} {registry : Registry} : start ∈ r.regions →
      (r.registry.unregisterCode start).outcome = .ok registry →
      Ending r (.removeCode start) (.ok ())
        { r with registry, regions := r.regions.filter (· != start) }
  | blockTaken {start : Address} {size depth : UInt32} : start ∈ r.blocks →
      Ending r (.addDepth start size depth) (.error (.blockTaken start)) r
  | block {start : Address} {size depth : UInt32} {added : Except OutOfMemory Unit}
      {registry : Registry} : start ∉ r.blocks →
      (r.registry.addBlock start size depth).outcome = .ok (added, registry) →
      Ending r (.addDepth start size depth) (added.mapError .outOfMemory)
        { r with registry, blocks := start :: r.blocks }
  | positionTaken {start stop : Address} {positions : List Offset} {depths : List UInt32}
      {e : ReplayError} {r' : Replay} :
      (r.claimBlocks start (claimed (Address.distance start stop) positions)).outcome =
        .ok (.error e, r') →
      Ending r (.frameDepths start stop positions depths) (.error e) r'
  | pieces {start stop : Address} {positions : List Offset} {depths : List UInt32} {r' : Replay}
      {added : Except OutOfMemory Unit} {registry : Registry} :
      (r.claimBlocks start (claimed (Address.distance start stop) positions)).outcome =
        .ok (.ok (), r') →
      (r'.registry.registerDepths start stop positions depths).outcome = .ok (added, registry) →
      Ending r (.frameDepths start stop positions depths) (added.mapError .outOfMemory)
        { r' with registry }
  | cleared {start size : Address} {registry : Registry} :
      (r.registry.clearBlocks start size).outcome = .ok registry →
      Ending r (.clearDepth start size) (.ok ())
        { r with registry, blocks := forgetRange r.blocks start size }
  | freed {start stop : Address} {registry : Registry} :
      (r.registry.freeBlock start stop).outcome = .ok registry →
      Ending r (.free start stop) (.ok ()) {
        registry
        regions := forgetRange r.regions start (Address.distance start stop)
        blocks := forgetRange r.blocks start (Address.distance start stop) }

/-- Registering a region behind the check finds its start taken, or asks the registry. -/
theorem ending_of_addCode {start : Address} {size : UInt32} {chain : Chain}
    (hstart : op.regionStart? = some start)
    (hop : ∀ serial, op.regionEdits serial = [.add start ⟨size, chain, serial⟩])
    (hcheck : chain.check size = .ok ())
    (h : (r.addCode start size chain).outcome = .ok (result, r')) : r.Ending op result r' := by
  unfold addCode at h
  split at h
  · rename_i htaken
    obtain ⟨rfl, rfl⟩ := Prod.mk.inj (Except.ok.inj h)
    exact .regionTaken hstart htaken
  · rename_i hfree
    obtain ⟨⟨added, registry⟩, hadd, hlast⟩ := Traced.outcome_bind_eq_ok.1 h
    obtain ⟨rfl, rfl⟩ := Prod.mk.inj (Except.ok.inj hlast)
    exact .region hstart hop hcheck hfree hadd

/-- **How an operation ends** that is no fault, whatever it is. -/
theorem ending_of_apply (h : (r.apply op).outcome = .ok (result, r')) : r.Ending op result r' := by
  cases op with
  | addCode start size words =>
    simp only [Replay.apply, Traced.outcome_note_bind] at h
    split at h
    · rename_i hcheck
      obtain ⟨rfl, rfl⟩ := Prod.mk.inj (Except.ok.inj h)
      exact .malformed hcheck
    · rename_i hcheck
      exact ending_of_addCode rfl (fun serial => rfl) hcheck h
  | addTrace start size inherited events =>
    simp only [Replay.apply, Traced.outcome_note_bind] at h
    split at h
    · rename_i htrace
      obtain ⟨rfl, rfl⟩ := Prod.mk.inj (Except.ok.inj h)
      exact .unbalanced htrace
    · -- what the trace comes to is checked like words that were given
      rename_i chain htrace
      split at h
      · rename_i hcheck
        obtain ⟨rfl, rfl⟩ := Prod.mk.inj (Except.ok.inj h)
        exact .leaving htrace hcheck
      · rename_i hcheck
        refine ending_of_addCode rfl (fun serial => ?_) hcheck h
        simp only [Op.regionEdits, htrace]
  | removeCode start =>
    simp only [Replay.apply, Traced.outcome_note_bind] at h
    split at h
    · rename_i hclaimed
      obtain ⟨registry, hremove, hlast⟩ := Traced.outcome_bind_eq_ok.1 h
      obtain ⟨rfl, rfl⟩ := Prod.mk.inj (Except.ok.inj hlast)
      exact .removed hclaimed hremove
    · rename_i hunclaimed
      obtain ⟨rfl, rfl⟩ := Prod.mk.inj (Except.ok.inj h)
      exact .regionUnknown hunclaimed
  | addDepth start size depth =>
    simp only [Replay.apply, Traced.outcome_note_bind] at h
    by_cases htaken : start ∈ r.blocks
    · simp only [claimBlock, if_pos htaken] at h
      obtain ⟨rfl, rfl⟩ := Prod.mk.inj (Except.ok.inj h)
      exact .blockTaken htaken
    · simp only [claimBlock, if_neg htaken] at h
      obtain ⟨⟨added, registry⟩, hadd, hlast⟩ := Traced.outcome_bind_eq_ok.1 h
      obtain ⟨rfl, rfl⟩ := Prod.mk.inj (Except.ok.inj hlast)
      exact .block htaken hadd
  | frameDepths start stop positions depths =>
    simp only [Replay.apply, Traced.outcome_note_bind] at h
    -- all starts are claimed before the registry is asked for anything
    obtain ⟨⟨claims, r₁⟩, hclaim, hrest⟩ := Traced.outcome_bind_eq_ok.1 h
    cases claims with
    | error e =>
      obtain ⟨rfl, rfl⟩ := Prod.mk.inj (Except.ok.inj hrest)
      exact .positionTaken hclaim
    | ok _ =>
      obtain ⟨⟨added, registry⟩, hadd, hlast⟩ := Traced.outcome_bind_eq_ok.1 hrest
      obtain ⟨rfl, rfl⟩ := Prod.mk.inj (Except.ok.inj hlast)
      exact .pieces hclaim hadd
  | clearDepth start size =>
    simp only [Replay.apply, Traced.outcome_note_bind] at h
    obtain ⟨registry, hclear, hlast⟩ := Traced.outcome_bind_eq_ok.1 h
    obtain ⟨rfl, rfl⟩ := Prod.mk.inj (Except.ok.inj hlast)
    exact .cleared hclear
  | free start stop =>
    simp only [Replay.apply, Traced.outcome_note_bind] at h
    obtain ⟨registry, hfree, hlast⟩ := Traced.outcome_bind_eq_ok.1 h
    obtain ⟨rfl, rfl⟩ := Prod.mk.inj (Except.ok.inj hlast)
    exact .freed hfree

/-- What an operation makes of a registry: all of its edits, with chains that pass the check, or, if
it was refused, at most some edits of the blocks. -/
def Edits (r : Replay) (op : Op) (r' : Replay) : Except ReplayError Unit → Prop
  | .ok () => ∃ serial, r.registry.Edited (op.regionEdits serial) op.blockEdits r'.registry ∧
      ∀ e ∈ op.regionEdits serial, e.Checked
  | .error _ => ∃ blocks, r.registry.Edited [] blocks r'.registry

/-- **What an operation makes of the registry**, whatever it is. -/
theorem edits_of_apply (h : (r.apply op).outcome = .ok (result, r')) : r.Edits op r' result := by
  cases ending_of_apply h with
  | malformed | unbalanced | leaving | regionTaken | regionUnknown | blockTaken =>
    exact ⟨[], .refl _⟩
  | @region _ start size chain added registry hstart hop hcheck _ hadd =>
    have hedited := Registry.edited_registerCode hadd
    cases added with
    | error cause => exact ⟨[], hedited⟩
    | ok _ =>
      obtain ⟨serial, hedited⟩ := hedited
      refine ⟨serial, ?_, ?_⟩
      · rw [hop serial, Op.blockEdits_of_regionStart? hstart]
        exact hedited
      · rw [hop serial]
        exact List.forall_mem_singleton.2 hcheck
  | removed _ hremove =>
    exact ⟨0, Registry.edited_unregisterCode hremove, by simp [Op.regionEdits, Edit.Checked]⟩
  | @block start size depth added registry _ hadd =>
    have hedited := Registry.edited_addBlock hadd
    cases added with
    | error cause => exact ⟨[], hedited⟩
    | ok _ => exact ⟨0, hedited, by simp [Op.regionEdits]⟩
  | positionTaken hclaim =>
    -- claiming does nothing to the registry, so its maps are those from before
    obtain ⟨hsame, -⟩ := same_of_claimBlocks hclaim
    refine ⟨[], ?_⟩
    rw [hsame]
    exact .refl _
  | @pieces start stop positions depths r₁ added registry hclaim hadd =>
    obtain ⟨hsame, -⟩ := same_of_claimBlocks hclaim
    rw [hsame] at hadd
    have hedited := Registry.edited_registerDepths hadd
    cases added with
    | error cause =>
      -- some of the pieces were added, and all of them are cleared
      obtain ⟨n, -, hedited⟩ := hedited
      exact ⟨_, hedited⟩
    | ok _ => exact ⟨0, hedited, by simp [Op.regionEdits]⟩
  | cleared hclear => exact ⟨0, Registry.edited_clearBlocks hclear, by simp [Op.regionEdits]⟩
  | freed hfree =>
    exact ⟨0, Registry.edited_freeBlock hfree, by simp [Op.regionEdits, Edit.Checked]⟩

/-- What was readable stays readable, also if the operation is refused. -/
theorem Edits.readable (h : r.Edits op r' result) (hr : r.Readable) : r'.Readable := by
  cases result with
  | ok _ =>
    obtain ⟨serial, hedited, hchecked⟩ := h
    exact ⟨mt hedited.gate.1 hr.gate, hedited.regions.checked hr.checked hchecked⟩
  | error e =>
    obtain ⟨blocks, hedited⟩ := h
    refine ⟨mt hedited.gate.1 hr.gate, ?_⟩
    show r'.liveRegions.Checked
    rw [liveRegions, hedited.regions.eq_of_nil]
    exact hr.checked

/-! ## (3) Operations in a row -/

/-- Applies operations in order, and goes on behind those that are refused. -/
def attemptAll (r : Replay) : List Op → Traced Replay
  | [] => return r
  | op :: ops => do
    let (_, r) ← r.apply op
    r.attemptAll ops

/-- Operations one after the other, the failed ones among them, leave a replay readable. -/
theorem Readable.attemptAll {ops : List Op} (hr : r.Readable)
    (h : (r.attemptAll ops).outcome = .ok r') : r'.Readable := by
  induction ops generalizing r with
  | nil =>
    obtain rfl : r = r' := Except.ok.inj h
    exact hr
  | cons op ops ih =>
    obtain ⟨⟨result, r₁⟩, happly, hrest⟩ := Traced.outcome_bind_eq_ok.1 h
    exact ih ((edits_of_apply happly).readable hr) hrest

/-! ## (4) Samples -/

/-- A sample shows the region that is found, what a walk in its chain meets, and the depth. -/
theorem sample_eq (r : Replay) (pc : Address) : r.sample pc =
    match r.registry.region? pc with
    | none => .ok ⟨pc, none, [], r.registry.depthAt? pc⟩
    | some (start, region) => (region.chain.frames (pc - start).toNat).map fun frames =>
        ⟨pc, some start, frames, r.registry.depthAt? pc⟩ := by
  have hstart : (r.registry.find pc).1.map (·.start) = (r.registry.region? pc).map (·.1) := by
    rw [Registry.region?, Option.map_map]
    rfl
  rw [sample, hstart, Registry.traceback_eq]
  cases r.registry.region? pc with
  | none => rfl
  | some found =>
    obtain ⟨start, region⟩ := found
    dsimp only
    cases region.chain.frames (pc - start).toNat <;> rfl

/-- Where all chains pass the check every address can be sampled, and every frame that is shown is
the one of a record, active at the address, of the live region that contains it. -/
theorem Readable.sample_sound (h : r.Readable) (pc : Address) :
    ∃ sample, r.sample pc = .ok sample ∧ ∀ frame ∈ sample.frames, ∃ start region,
      sample.region = some start ∧ r.liveRegions.Covers Region.size pc start region ∧
        ∃ record ∈ region.chain.records,
          record.frame = frame ∧ record.Active (pc - start).toNat := by
  rw [sample_eq]
  have hfinds := Registry.finds_region? h.gate pc
  cases hfound : r.registry.region? pc with
  | none => exact ⟨_, rfl, by simp⟩
  | some found =>
    obtain ⟨start, region⟩ := found
    rw [hfound] at hfinds
    obtain ⟨hcovers, -⟩ := Contents.finds_some_iff.1 hfinds
    obtain ⟨frames, hframes, hactive⟩ :=
      Chain.exists_frames_of_check (h.checked start region hcovers.1) (pc - start).toNat
    refine ⟨⟨pc, some start, frames, r.registry.depthAt? pc⟩, ?_, ?_⟩
    · simp only [hframes]
      rfl
    · intro frame hframe
      exact ⟨start, region, rfl, hcovers, hactive frame hframe⟩

/-- **Chains are in order in every state.** After operations of any kind, those that were refused
among them, the chain of every live region passes the check for its region. So every address can be
sampled, and every frame that is shown is the one of a record, active at the address, of the live
region that contains it. -/
theorem chains_checked_of_attemptAll (t : Tuning) {ops : List Op}
    (h : ((start t).attemptAll ops).outcome = .ok r) :
    (∀ start region, r.liveRegions start = some region →
        region.chain.check region.size = .ok ()) ∧
      ∀ pc, ∃ sample, r.sample pc = .ok sample ∧ ∀ frame ∈ sample.frames, ∃ start region,
        sample.region = some start ∧ r.liveRegions.Covers Region.size pc start region ∧
          ∃ record ∈ region.chain.records,
            record.frame = frame ∧ record.Active (pc - start).toNat := by
  have hreadable := (sound_start t).toReadable.attemptAll h
  exact ⟨hreadable.checked, hreadable.sample_sound⟩

/-- Words that fill no record, a leave without a frame, events that go back and a leave behind the
end of the region are refused, and so is a second region at a start that is taken. What is left is
the one chain that is in order. -/
theorem malformed_code_refused : ∃ r, ((start .standard).attemptAll
      [.addCode 0x1000 16 [1, 0], .addTrace 0x1000 16 [] [.leave 3],
        .addTrace 0x1000 16 [] [.enter 1 8, .enter 2 4], .addTrace 0x1000 16 [4] [.leave 32],
        .addCode 0x1000 16 [7, 0, 16, 4], .addCode 0x1000 8 [],
        .removeCode 0x2000]).outcome = .ok r ∧
    r.sample 0x1008 = .ok ⟨0x1008, some 0x1000, [7], none⟩ ∧
    (∀ start region, r.liveRegions start = some region →
      region.chain.check region.size = .ok ()) ∧
    ∃ region, r.liveRegions.Covers Region.size 0x1008 0x1000 region ∧
      ∃ record ∈ region.chain.records, record.frame = 7 ∧ record.Active 8 := by
  have hout : ((start .standard).attemptAll
      [.addCode 0x1000 16 [1, 0], .addTrace 0x1000 16 [] [.leave 3],
        .addTrace 0x1000 16 [] [.enter 1 8, .enter 2 4], .addTrace 0x1000 16 [4] [.leave 32],
        .addCode 0x1000 16 [7, 0, 16, 4], .addCode 0x1000 8 [],
        .removeCode 0x2000]).outcome.map (·.sample 0x1008) =
      .ok (.ok ⟨0x1008, some 0x1000, [7], none⟩) := by decide +kernel
  obtain ⟨r, h, hshown⟩ := Traced.exists_of_map_eq_ok hout
  obtain ⟨hchecked, hsample⟩ := chains_checked_of_attemptAll .standard h
  obtain ⟨sample, hsample, hactive⟩ := hsample 0x1008
  obtain rfl := Except.ok.inj (hshown.symm.trans hsample)
  obtain ⟨start, region, hstart, hcovers, hrecord⟩ := hactive 7 (by simp)
  obtain rfl : 0x1000 = start := Option.some.inj hstart
  exact ⟨r, h, hshown, hchecked, region, hcovers, hrecord⟩

end Replay

end TraceAtlas
