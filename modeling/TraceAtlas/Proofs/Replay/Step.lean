import TraceAtlas.Proofs.Chain.Checked
import TraceAtlas.Proofs.Registry
import TraceAtlas.Proofs.Replay.Claims

/-! # One operation of a replay

What an operation that was validated makes of a replay, said once for each kind of operation: what
it found when it was applied, which regions and blocks are live afterwards, and which starts are
claimed. The only fault it can stop at is a position behind the end of the address space.

## Main definitions
* `Replay.Readable` : every live region has a chain that passes the check, and the gate is clear.
* `Replay.Sound` : and whatever is live is claimed.
* `Replay.Overflows` : an operation runs past the end of the address space.
* `Replay.Applied` : what an operation that was applied has done.

## Main statements
* `Replay.Sound.apply` : what may come of an operation.
* `Replay.Readable.exists_sample` : an address can be sampled.
-/

namespace TraceAtlas

/-! ## (1) States -/

/-- The chains of all regions pass the check for their regions. -/
def Contents.Checked (R : Contents Region) : Prop :=
  ∀ a region, R a = some region → region.chain.check region.size = .ok ()

namespace Contents.Checked

variable {R : Contents Region}

/-- A region in order may be added. -/
theorem update (h : R.Checked) {start : Address} {region : Region}
    (hregion : region.chain.check region.size = .ok ()) :
    Contents.Checked (Function.update R start (some region)) := by
  intro a found ha
  by_cases hk : a = start
  · rw [hk, Function.update_self] at ha
    exact Option.some.inj ha ▸ hregion
  · rw [Function.update_of_ne hk] at ha
    exact h a found ha

/-- Any region may be removed. -/
theorem remove (h : R.Checked) (start : Address) :
    Contents.Checked (Function.update R start none) := by
  intro a found ha
  by_cases hk : a = start
  · rw [hk, Function.update_self] at ha
    cases ha
  · rw [Function.update_of_ne hk] at ha
    exact h a found ha

/-- So may those in a range. -/
theorem eraseRange (h : R.Checked) (start length : Address) :
    (R.eraseRange start length).Checked := by
  intro a found ha
  unfold Contents.eraseRange at ha
  split at ha
  · cases ha
  · exact h a found ha

end Contents.Checked

namespace Replay

/-- The regions that are live, by their starts. -/
abbrev liveRegions (r : Replay) : Contents Region := r.registry.liveRegions

/-- The blocks that are live, by their starts. -/
abbrev liveBlocks (r : Replay) : Contents Block := r.registry.liveBlocks

/-- The gate is clear, some regions and blocks are live, and some starts are claimed. -/
structure Holds (r : Replay) (R : Contents Region) (D : Contents Block)
    (regions blocks : List Address) : Prop where
  registry : r.registry.Holds R D
  regions : r.regions = regions
  blocks : r.blocks = blocks

/-- The gate is clear, and every region that is live has a chain that passes the check. -/
structure Readable (r : Replay) : Prop where
  gate : ¬r.registry.gate.Invalid
  checked : r.liveRegions.Checked

/-- A replay whose claims cover what is live, with no claim on a region in excess. -/
structure Sound (r : Replay) : Prop extends Readable r where
  regions : ∀ a, a ∈ r.regions ↔ r.liveRegions a ≠ none
  blocks : ∀ a, r.liveBlocks a ≠ none → a ∈ r.blocks

/-- What holds with regions in order can be read. -/
theorem Holds.readable {r : Replay} {R : Contents Region} {D : Contents Block}
    {regions blocks : List Address} (h : r.Holds R D regions blocks) (hR : R.Checked) :
    r.Readable where
  gate := h.registry.gate
  checked := by rwa [liveRegions, h.registry.liveRegions]

/-- A readable replay holds what is live in it. -/
theorem Readable.holds {r : Replay} (h : r.Readable) :
    r.registry.Holds r.liveRegions r.liveBlocks := ⟨h.gate, rfl, rfl⟩

/-- No region is live at first. -/
@[simp] theorem liveRegions_start (t : Tuning) : (start t).liveRegions = Contents.empty :=
  (Registry.holds_empty t).liveRegions

/-- No block is live at first. -/
@[simp] theorem liveBlocks_start (t : Tuning) : (start t).liveBlocks = Contents.empty :=
  (Registry.holds_empty t).liveBlocks

/-- At first the claims agree with what is live, since there is neither. -/
theorem sound_start (t : Tuning) : (start t).Sound where
  gate := (Registry.holds_empty t).gate
  checked a region h := by simp [Contents.empty] at h
  regions a := by
    rw [liveRegions_start]
    simp [start, Contents.empty]
  blocks a h := by simp [Contents.empty] at h

/-! ## (2) Sampling -/

end Replay

/-- A region that is found is live. -/
theorem Registry.liveRegions_of_find {r : Registry} {a : Address} {handle : RegionHandle}
    (h : (r.find a).1 = some handle) : r.liveRegions handle.start = some handle.region := by
  have hfloor := r.regions.index.floor?_spec a
  simp only [find, Regions.find] at h
  split at h
  · cases h
  · rename_i start region hfound
    rw [hfound] at hfloor
    split at h
    · cases h
    · split at h
      · obtain rfl := Option.some.inj h
        exact hfloor.1
      · cases h

namespace Replay

/-- Every address can be sampled where all chains pass the check. -/
theorem Readable.exists_sample {r : Replay} (h : r.Readable) (pc : Address) :
    ∃ sample, r.sample pc = .ok sample := by
  have hframes : ∃ frames, r.registry.traceback pc = .ok frames := by
    unfold Registry.traceback
    split
    · exact ⟨[], rfl⟩
    · rename_i handle r' hfind
      have hlive := Registry.liveRegions_of_find (congrArg Prod.fst hfind)
      obtain ⟨steps, hwalk⟩ :=
        Chain.exists_walk_of_check (h.checked _ _ hlive) (handle.offsetOf pc) 0
      rw [Nat.mul_zero] at hwalk
      rw [RegionHandle.frames, Chain.frames, hwalk]
      exact ⟨_, rfl⟩
  obtain ⟨frames, hframes⟩ := hframes
  rw [sample, hframes]
  exact ⟨_, rfl⟩

/-! ## (3) Applied operations -/

/-- An operation runs past the end of the address space while it claims starts. -/
def Overflows (r : Replay) : Op → Prop
  | .frameDepths start stop positions _ =>
    ClaimsOverflow r.blocks start (claimed (Address.distance start stop) positions)
  | _ => False

/-- What an operation has done that was applied: what it relied on, and the state afterwards. -/
inductive Applied (r : Replay) : Op → Replay → Prop
  | addCode {start : Address} {size : UInt32} {words : List UInt32} {r' : Replay} :
      Chain.check ⟨words⟩ size = .ok () → start ∉ r.regions →
      r'.Holds (Function.update r.liveRegions start
        (some ⟨size, ⟨words⟩, r.registry.regions.issued⟩)) r.liveBlocks
        (start :: r.regions) r.blocks → Applied r (.addCode start size words) r'
  | addTrace {start : Address} {size : UInt32} {inherited : List FrameId}
      {events : List TraceEvent} {chain : Chain} {r' : Replay} :
      traceChain size inherited events = .ok chain → chain.check size = .ok () →
      start ∉ r.regions →
      r'.Holds (Function.update r.liveRegions start
        (some ⟨size, chain, r.registry.regions.issued⟩)) r.liveBlocks
        (start :: r.regions) r.blocks → Applied r (.addTrace start size inherited events) r'
  | removeCode {start : Address} {r' : Replay} : start ∈ r.regions →
      r'.Holds (Function.update r.liveRegions start none) r.liveBlocks
        (r.regions.filter (· != start)) r.blocks → Applied r (.removeCode start) r'
  | addDepth {start : Address} {size depth : UInt32} {r' : Replay} : start ∉ r.blocks →
      r'.Holds r.liveRegions (Function.update r.liveBlocks start (some ⟨size, depth⟩))
        r.regions (start :: r.blocks) → Applied r (.addDepth start size depth) r'
  | frameDepths {start stop : Address} {positions : List Offset} {depths : List UInt32}
      {r' : Replay} :
      (∀ p ∈ claimed (Address.distance start stop) positions,
        start.toNat + p.toNat < UInt64.size ∧ start + p.toUInt64 ∉ r.blocks) →
      r'.Holds r.liveRegions
        (r.liveBlocks.withPieces start (Registry.pieces (stop - start) positions depths))
        r.regions ((startsAt start (claimed (Address.distance start stop) positions)).reverse ++
          r.blocks) → Applied r (.frameDepths start stop positions depths) r'
  | clearDepth {start size : Address} {r' : Replay} :
      r'.Holds r.liveRegions (r.liveBlocks.eraseRange start size) r.regions
        (forgetRange r.blocks start size) → Applied r (.clearDepth start size) r'
  | free {start stop : Address} {r' : Replay} :
      r'.Holds (r.liveRegions.eraseRange start (Address.distance start stop))
        (r.liveBlocks.eraseRange start (Address.distance start stop))
        (forgetRange r.regions start (Address.distance start stop))
        (forgetRange r.blocks start (Address.distance start stop)) →
      Applied r (.free start stop) r'

/-- What may come of an operation that is no fault: an error or a new state, but in either case
one that can be read. -/
def Finishes (r : Replay) (op : Op) (out : Traced (Except ReplayError Unit × Replay)) : Prop :=
  ∃ result r', out.outcome = .ok (result, r') ∧ r'.Readable ∧ (result = .ok () → r.Applied op r')

/-- A state in which an operation left everything readable that was there before it failed. -/
theorem finishes_of_error {r r' : Replay} {op : Op}
    {out : Traced (Except ReplayError Unit × Replay)} {e : ReplayError}
    (hout : out.outcome = .ok (.error e, r')) (hr : r'.Readable) :
    r.Finishes op out :=
  ⟨.error e, r', hout, hr, fun h => by cases h⟩

/-- A state that an operation leaves when it was applied. -/
theorem finishes_of_ok {r r' : Replay} {op : Op} {out : Traced (Except ReplayError Unit × Replay)}
    (hout : out.outcome = .ok (.ok (), r')) (hr : r'.Readable) (happlied : r.Applied op r') :
    r.Finishes op out :=
  ⟨.ok (), r', hout, hr, fun _ => happlied⟩

/-! ## (4) One operation -/

namespace Sound

variable {r : Replay}

/-- A region whose chain passes the check is registered where no region starts, unless the registry
is out of memory. -/
theorem addCode (h : r.Sound) (op : Op) {start : Address} {size : UInt32} {chain : Chain}
    (hcheck : chain.check size = .ok ())
    (happlied : ∀ r', start ∉ r.regions →
      r'.Holds (Function.update r.liveRegions start
        (some ⟨size, chain, r.registry.regions.issued⟩)) r.liveBlocks
        (start :: r.regions) r.blocks → r.Applied op r') :
    r.Finishes op (r.addCode start size chain) := by
  unfold Replay.addCode
  by_cases htaken : start ∈ r.regions
  · rw [if_pos htaken]
    exact finishes_of_error rfl h.toReadable
  · rw [if_neg htaken]
    have hkey : r.liveRegions start = none := by
      rwa [h.regions, Decidable.not_not] at htaken
    obtain ⟨result, registry, hadd, hresult⟩ := h.holds.registerCode hkey size chain
    have hout : (r.registry.registerCode start size chain >>= fun p =>
        (pure (p.1.mapError .outOfMemory,
            { r with registry := p.2, regions := start :: r.regions }) :
          Traced (Except ReplayError Unit × Replay))).outcome =
        .ok (result.mapError .outOfMemory, { r with registry, regions := start :: r.regions }) := by
      rw [Traced.outcome_bind_of_ok hadd]
      rfl
    cases result with
    | error e =>
      have hafter : Holds { r with registry, regions := start :: r.regions } _ _ _ _ :=
        ⟨hresult, rfl, rfl⟩
      exact finishes_of_error hout (hafter.readable h.checked)
    | ok _ =>
      have hafter : Holds { r with registry, regions := start :: r.regions } _ _ _ _ :=
        ⟨hresult, rfl, rfl⟩
      exact finishes_of_ok hout (hafter.readable (h.checked.update hcheck))
        (happlied _ htaken hafter)

/-- A region is unregistered if there is one, and refused as unknown if there is none. -/
theorem removeCode (h : r.Sound) (start : Address) :
    r.Finishes (.removeCode start) (r.apply (.removeCode start)) := by
  by_cases hclaimed : start ∈ r.regions
  · obtain ⟨registry, hremove, hholds⟩ := h.holds.unregisterCode ((h.regions start).1 hclaimed)
    have hout : (r.apply (.removeCode start)).outcome =
        .ok (.ok (), { r with registry, regions := r.regions.filter (· != start) }) := by
      simp only [Replay.apply, Traced.outcome_note_bind, if_pos hclaimed,
        Traced.outcome_bind_of_ok hremove]
      rfl
    have hafter : Holds { r with registry, regions := r.regions.filter (· != start) } _ _ _ _ :=
      ⟨hholds, rfl, rfl⟩
    exact finishes_of_ok hout (hafter.readable (h.checked.remove start))
      (.removeCode hclaimed hafter)
  · have hout : (r.apply (.removeCode start)).outcome =
        .ok (.error (.regionUnknown start), r) := by
      simp only [Replay.apply, Traced.outcome_note_bind, if_neg hclaimed]
      rfl
    exact finishes_of_error hout h.toReadable

/-- A block is registered where none is claimed, unless the registry is out of memory. -/
theorem addDepth (h : r.Sound) (start : Address) (size depth : UInt32) :
    r.Finishes (.addDepth start size depth) (r.apply (.addDepth start size depth)) := by
  by_cases htaken : start ∈ r.blocks
  · have hout : (r.apply (.addDepth start size depth)).outcome =
        .ok (.error (.blockTaken start), r) := by
      simp only [Replay.apply, Traced.outcome_note_bind, claimBlock, if_pos htaken]
      rfl
    exact finishes_of_error hout h.toReadable
  · -- what is live is claimed, so nothing is live at a start that is free
    have hkey : r.liveBlocks start = none := by
      by_contra hlive
      exact htaken (h.blocks start hlive)
    obtain ⟨result, registry, hadd, hresult⟩ := h.holds.addBlock hkey size depth
    have hout : (r.apply (.addDepth start size depth)).outcome = .ok
        (result.mapError .outOfMemory, { r with registry, blocks := start :: r.blocks }) := by
      simp only [Replay.apply, Traced.outcome_note_bind, claimBlock, if_neg htaken,
        Traced.outcome_bind_of_ok hadd]
      rfl
    cases result with
    | error e =>
      have hafter : Holds { r with registry, blocks := start :: r.blocks } _ _ _ _ :=
        ⟨hresult, rfl, rfl⟩
      exact finishes_of_error hout (hafter.readable h.checked)
    | ok _ =>
      have hafter : Holds { r with registry, blocks := start :: r.blocks } _ _ _ _ :=
        ⟨hresult, rfl, rfl⟩
      exact finishes_of_ok hout (hafter.readable h.checked) (.addDepth htaken hafter)

/-- Blocks are cleared in a range, and the claims on them given up. -/
theorem clearDepth (h : r.Sound) (start size : Address) :
    r.Finishes (.clearDepth start size) (r.apply (.clearDepth start size)) := by
  obtain ⟨registry, hout, hholds⟩ := h.holds.clearBlocks start size
  have hafter : Holds { r with registry, blocks := forgetRange r.blocks start size } _ _ _ _ :=
    ⟨hholds, rfl, rfl⟩
  refine finishes_of_ok ?_ (hafter.readable h.checked) (.clearDepth hafter)
  simp only [Replay.apply, Traced.outcome_note_bind, Traced.outcome_bind_of_ok hout]
  rfl

/-- Regions and blocks of freed code go together, and the claims on them are given up. -/
theorem free (h : r.Sound) (start stop : Address) :
    r.Finishes (.free start stop) (r.apply (.free start stop)) := by
  obtain ⟨registry, hout, hholds⟩ := h.holds.freeBlock start stop
  have hafter : Holds ⟨registry, forgetRange r.regions start (Address.distance start stop),
      forgetRange r.blocks start (Address.distance start stop)⟩ _ _ _ _ := ⟨hholds, rfl, rfl⟩
  refine finishes_of_ok ?_ (hafter.readable (h.checked.eraseRange _ _)) (.free hafter)
  simp only [Replay.apply, Traced.outcome_note_bind, Traced.outcome_bind_of_ok hout]
  rfl

/-- Once all pieces are claimed, their depths are registered, unless the registry is out of memory.
-/
theorem frameDepths_of_claims (h : r.Sound) {start stop : Address} {positions : List Offset}
    {depths : List UInt32} (hop : (Op.frameDepths start stop positions depths).validate = .ok ())
    (hclaim : (r.claimBlocks start (claimed (stop - start) positions)).outcome = .ok (.ok (),
      { r with blocks := (startsAt start (claimed (stop - start) positions)).reverse ++ r.blocks }))
    (hfree : ∀ p ∈ claimed (stop - start) positions,
      start.toNat + p.toNat < UInt64.size ∧ start + p.toUInt64 ∉ r.blocks) :
    r.Finishes (.frameDepths start stop positions depths)
      (r.apply (.frameDepths start stop positions depths)) := by
  obtain ⟨hpairs, hascending, hstop, -⟩ := of_validate_frameDepths hop
  have hlength : Address.distance start stop = stop - start := if_pos hstop
  have hpieces := claimed_eq_map_pieces (stop - start) hpairs
  -- the pieces start where a claim was made, so nothing is live there, and no two at one address
  have hpiece : ∀ piece ∈ Registry.pieces (stop - start) positions depths,
      piece.position ∈ claimed (stop - start) positions := by
    intro piece hmem
    rw [hpieces]
    exact List.mem_map_of_mem hmem
  have habsent : ∀ piece ∈ Registry.pieces (stop - start) positions depths,
      r.liveBlocks (start + piece.position.toUInt64) = none := by
    intro piece hmem
    by_contra hlive
    exact (hfree _ (hpiece piece hmem)).2 (h.blocks _ hlive)
  have hapart : (Registry.pieces (stop - start) positions depths).Pairwise fun p q =>
      start + p.position.toUInt64 ≠ start + q.position.toUInt64 :=
    (Registry.pairwise_pieces hascending).imp fun hlt heq =>
      UInt32.ne_of_lt hlt (Address.add_offset_inj heq)
  obtain ⟨added, registry, hadd, hadded⟩ := h.holds.registerDepths hpairs
    (fun piece hmem => (hfree _ (hpiece piece hmem)).1) habsent hapart
  have hout : (r.apply (.frameDepths start stop positions depths)).outcome = .ok
      (added.mapError .outOfMemory, { r with
        registry
        blocks := (startsAt start (claimed (stop - start) positions)).reverse ++ r.blocks }) := by
    simp only [Replay.apply, Traced.outcome_note_bind, hlength, Traced.outcome_bind_of_ok hclaim,
      Traced.outcome_bind_of_ok hadd]
    rfl
  have hafter {D : Contents Block} (hD : registry.Holds r.liveRegions D) : Holds { r with
      registry
      blocks := (startsAt start (claimed (stop - start) positions)).reverse ++ r.blocks }
      r.liveRegions D r.regions
      ((startsAt start (claimed (stop - start) positions)).reverse ++ r.blocks) := ⟨hD, rfl, rfl⟩
  cases added with
  | error e =>
    obtain ⟨n, hn⟩ := hadded
    exact finishes_of_error hout ((hafter hn).readable h.checked)
  | ok _ =>
    refine finishes_of_ok hout ((hafter hadded).readable h.checked) ?_
    exact .frameDepths (hlength ▸ hfree) (hlength ▸ hafter hadded)

/-- Depths are registered for all pieces that were claimed, unless one of them was taken or the
registry is out of memory. -/
theorem frameDepths (h : r.Sound) {start stop : Address} {positions : List Offset}
    {depths : List UInt32} (hop : (Op.frameDepths start stop positions depths).validate = .ok ()) :
    r.Overflows (.frameDepths start stop positions depths) ∧
        (r.apply (.frameDepths start stop positions depths)).outcome = .error .addressOverflow ∨
      ¬r.Overflows (.frameDepths start stop positions depths) ∧
        r.Finishes (.frameDepths start stop positions depths)
          (r.apply (.frameDepths start stop positions depths)) := by
  obtain ⟨-, hascending, hstop, -⟩ := of_validate_frameDepths hop
  have hlength : Address.distance start stop = stop - start := if_pos hstop
  simp only [Overflows, hlength]
  refine (outcome_claimBlocks r start (pairwise_claimed (stop - start) hascending)).imp ?_ ?_
  · rintro ⟨hover, hclaim⟩
    refine ⟨hover, ?_⟩
    simp only [Replay.apply, Traced.outcome_note_bind, hlength, Traced.outcome_bind_of_error hclaim]
  · rintro ⟨hover, result, n, hclaim, hfree, hresult⟩
    refine ⟨hover, ?_⟩
    cases result with
    | error e =>
      -- the claims in front of the one that was refused stay
      have hreadable : Readable { r with
          blocks := (startsAt start ((claimed (stop - start) positions).take n)).reverse ++
            r.blocks } := ⟨h.gate, h.checked⟩
      refine finishes_of_error ?_ hreadable (e := e)
      simp only [Replay.apply, Traced.outcome_note_bind, hlength, Traced.outcome_bind_of_ok hclaim]
      rfl
    | ok _ =>
      rw [List.take_of_length_le hresult] at hclaim hfree
      exact h.frameDepths_of_claims hop hclaim hfree

/-- **What may come of an operation** that was validated: the fault of an address behind the end of
the space, exactly if it overflows, and else an error or a state that goes with it. -/
theorem apply (h : r.Sound) {op : Op} (hop : op.validate = .ok ()) :
    r.Overflows op ∧ (r.apply op).outcome = .error .addressOverflow ∨
      ¬r.Overflows op ∧ r.Finishes op (r.apply op) := by
  cases op with
  | addCode start size words =>
    refine .inr ⟨id, ?_⟩
    -- a bad chain is refused before anything is claimed
    cases hcheck : Chain.check ⟨words⟩ size with
    | error e =>
      have hout : (r.apply (.addCode start size words)).outcome =
          .ok (.error (.malformedChain start e), r) := by
        simp only [Replay.apply, Traced.outcome_note_bind, hcheck]
        rfl
      exact finishes_of_error hout h.toReadable
    | ok _ =>
      have hout : (r.apply (.addCode start size words)).outcome =
          (r.addCode start size ⟨words⟩).outcome := by
        simp only [Replay.apply, Traced.outcome_note_bind, hcheck]
      have hfinish := h.addCode (.addCode start size words) hcheck
        fun _ hfree hafter => .addCode hcheck hfree hafter
      rwa [Finishes, hout]
  | addTrace start size inherited events =>
    refine .inr ⟨id, ?_⟩
    cases htrace : traceChain size inherited events with
    | error e =>
      have hout :
          (r.apply (.addTrace start size inherited events)).outcome = .ok (.error e, r) := by
        simp only [Replay.apply, Traced.outcome_note_bind, htrace]
        rfl
      exact finishes_of_error hout h.toReadable
    | ok chain =>
      cases hcheck : chain.check size with
      | error e =>
        have hout : (r.apply (.addTrace start size inherited events)).outcome =
            .ok (.error (.leavesRegion start e), r) := by
          simp only [Replay.apply, Traced.outcome_note_bind, htrace, hcheck]
          rfl
        exact finishes_of_error hout h.toReadable
      | ok _ =>
        have hout : (r.apply (.addTrace start size inherited events)).outcome =
            (r.addCode start size chain).outcome := by
          simp only [Replay.apply, Traced.outcome_note_bind, htrace, hcheck]
        have hfinish := h.addCode (.addTrace start size inherited events) hcheck
          fun _ hfree hafter => .addTrace htrace hcheck hfree hafter
        rwa [Finishes, hout]
  | removeCode start => exact .inr ⟨id, h.removeCode start⟩
  | addDepth start size depth => exact .inr ⟨id, h.addDepth start size depth⟩
  | frameDepths start stop positions depths => exact h.frameDepths hop
  | clearDepth start size => exact .inr ⟨id, h.clearDepth start size⟩
  | free start stop => exact .inr ⟨id, h.free start stop⟩

end Sound

end Replay

end TraceAtlas
