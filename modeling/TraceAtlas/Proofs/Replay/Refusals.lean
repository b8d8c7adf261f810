import TraceAtlas.Proofs.Lookup
import TraceAtlas.Proofs.Registry.Edits
import TraceAtlas.Proofs.Replay.Agreement
import TraceAtlas.Proofs.Replay.Edits

/-! # Operations that are refused

A replay that refuses an operation is meant to stay as it was, so that whoever goes on behind the
refusal gets the answers he would have got without the operation. But starts are claimed before
anything is registered, and what was claimed before a refusal is never given back. Here it is told
exactly which refusals leave a claim behind, that every one of them shows, and that apart from one
case no sample does.

## Main definitions
* `Op.LeavesClaim` : an operation that is refused for some reason leaves a claim behind.
* `Replay.Refused` : what an operation that was refused has done.
* `Replay.LosesBlocks` : a refusal takes blocks away that were registered before.
* `Replay.Covered` : every region that is live is claimed.
* `Replay.Indistinguishable` : no sample and no later operation tells two replays apart.

## Main statements
* `Replay.refused_of_apply` : what a refusal comes to.
* `Replay.Covered.attemptAll` : claims cover what is live, whatever was refused.
* `Replay.indistinguishable_iff_of_refused` : when it leaves the replay as it was.
-/

namespace TraceAtlas

/-! ## (1) Reasons -/

/-- An operation that is refused for some reason has claimed a start before: it was the registry
that refused, or it was another start than its first that was taken. -/
def Op.LeavesClaim (op : Op) : ReplayError → Prop
  | .outOfMemory _ => True
  | .blockTaken a => op.blockStarts.head? ≠ some a
  | _ => False

namespace Replay

variable {r r' q : Replay} {op : Op} {e : ReplayError} {start stop : Address}
  {positions : List Offset} {depths : List UInt32}

/-- The events of a trace are refused for leaving a frame only. -/
theorem of_buildTrace_eq_error {b : Chain.Builder} {events : List TraceEvent}
    (h : buildTrace b events = .error e) : ∃ offset, e = .noFrameOpen offset := by
  induction events generalizing b with
  | nil => cases h
  | cons event events ih =>
    cases event with
    | enter frame offset => exact ih h
    | leave offset =>
      rw [buildTrace] at h
      split at h
      · exact ⟨offset, (Except.error.inj h).symm⟩
      · exact ih h

/-- The chain of a trace is refused for the same reason only. -/
theorem of_traceChain_eq_error {size : UInt32} {inherited : List FrameId}
    {events : List TraceEvent} (h : traceChain size inherited events = .error e) :
    ∃ offset, e = .noFrameOpen offset := by
  rw [traceChain] at h
  cases hbuild : buildTrace (Chain.Builder.empty.inherit inherited) events with
  | error cause =>
    rw [hbuild] at h
    obtain rfl : cause = e := Except.error.inj h
    exact of_buildTrace_eq_error hbuild
  | ok b =>
    rw [hbuild] at h
    cases h

/-- An operation that registers a region is refused for its chain, by every replay alike, or comes
to adding a region with a chain that every replay makes of it. -/
theorem outcome_apply_region (h : op.regionStart? = some start) :
    (∃ e, ¬op.LeavesClaim e ∧ ∀ r : Replay, (r.apply op).outcome = .ok (.error e, r)) ∨
      ∃ size chain, ∀ r : Replay, (r.apply op).outcome = (r.addCode start size chain).outcome := by
  cases op with
  | addCode a size words =>
    obtain rfl : a = start := Option.some.inj h
    cases hcheck : Chain.check ⟨words⟩ size with
    | error cause =>
      refine .inl ⟨.malformedChain a cause, id, fun r => ?_⟩
      simp only [Replay.apply, Traced.outcome_note_bind, hcheck]
      rfl
    | ok _ =>
      refine .inr ⟨size, ⟨words⟩, fun r => ?_⟩
      simp only [Replay.apply, Traced.outcome_note_bind, hcheck]
  | addTrace a size inherited events =>
    obtain rfl : a = start := Option.some.inj h
    -- neither the trace nor the check looks at the replay
    cases htrace : traceChain size inherited events with
    | error cause =>
      obtain ⟨offset, rfl⟩ := of_traceChain_eq_error htrace
      refine .inl ⟨.noFrameOpen offset, id, fun r => ?_⟩
      simp only [Replay.apply, Traced.outcome_note_bind, htrace]
      rfl
    | ok chain =>
      cases hcheck : chain.check size with
      | error cause =>
        refine .inl ⟨.leavesRegion a cause, id, fun r => ?_⟩
        simp only [Replay.apply, Traced.outcome_note_bind, htrace, hcheck]
        rfl
      | ok _ =>
        refine .inr ⟨size, chain, fun r => ?_⟩
        simp only [Replay.apply, Traced.outcome_note_bind, htrace, hcheck]
  | removeCode | addDepth | frameDepths | clearDepth | free => cases h

/-! ## (2) What a refusal comes to -/

/-- What an operation that was refused has done. -/
inductive Refused (r : Replay) : Op → ReplayError → Replay → Prop
  /-- It was refused before it claimed anything. -/
  | early {op : Op} {e : ReplayError} : ¬op.LeavesClaim e → Refused r op e r
  /-- It claimed the start of a region, and then the registry was out of memory. -/
  | region {op : Op} {start : Address} {cause : OutOfMemory} {registry : Registry} :
      op.regionStart? = some start → start ∉ r.regions → r.registry.Edited [] [] registry →
      Refused r op (.outOfMemory cause) { r with registry, regions := start :: r.regions }
  /-- It claimed the start of a block, and then the registry was out of memory. -/
  | block {start : Address} {size depth : UInt32} {cause : OutOfMemory} {registry : Registry} :
      start ∉ r.blocks → r.registry.Edited [] [] registry →
      Refused r (.addDepth start size depth) (.outOfMemory cause)
        { r with registry, blocks := start :: r.blocks }
  /-- It claimed the starts at some positions, and the next one was taken. -/
  | position {start stop : Address} {positions : List Offset} {depths : List UInt32} {n : Nat}
      {p : Offset} : 0 < n → (claimed (Address.distance start stop) positions)[n]? = some p →
      start + p.toUInt64 ∈ r.blocks →
      (∀ q ∈ (claimed (Address.distance start stop) positions).take n,
        start.toNat + q.toNat < UInt64.size ∧ start + q.toUInt64 ∉ r.blocks) →
      Refused r (.frameDepths start stop positions depths) (.blockTaken (start + p.toUInt64))
        { r with blocks :=
          (startsAt start ((claimed (Address.distance start stop) positions).take n)).reverse ++
            r.blocks }
  /-- It claimed all starts, and then the registry was out of memory for one of the pieces. -/
  | pieces {start stop : Address} {positions : List Offset} {depths : List UInt32} {n : Nat}
      {cause : OutOfMemory} {registry : Registry} :
      (∀ p ∈ claimed (Address.distance start stop) positions,
        start.toNat + p.toNat < UInt64.size ∧ start + p.toUInt64 ∉ r.blocks) →
      n < (Registry.pieces (stop - start) positions depths).length →
      r.registry.Edited [] (((Registry.pieces (stop - start) positions depths).take n).map
        (Registry.addPiece start) ++ [.clear start (stop - start)]) registry →
      Refused r (.frameDepths start stop positions depths) (.outOfMemory cause)
        { r with
          registry
          blocks := (startsAt start (claimed (Address.distance start stop) positions)).reverse ++
            r.blocks }

/-- **What a refusal comes to**: nothing, or what the operation had done until then. -/
theorem refused_of_apply (hop : op.validate = .ok ())
    (h : (r.apply op).outcome = .ok (.error e, r')) : r.Refused op e r' := by
  -- the endings tell the result as a whole, and the errors among them are picked out
  generalize hresult : (.error e : Except ReplayError Unit) = result at h
  cases ending_of_apply h with
  | malformed | leaving | regionTaken | regionUnknown =>
    obtain rfl := Except.error.inj hresult
    exact .early id
  | unbalanced htrace =>
    obtain rfl := Except.error.inj hresult
    obtain ⟨offset, rfl⟩ := of_traceChain_eq_error htrace
    exact .early id
  | @region _ start size chain added registry hstart _ _ hfree hadd =>
    cases added with
    | ok _ => cases hresult
    | error cause =>
      obtain rfl := Except.error.inj hresult
      exact .region hstart hfree (Registry.edited_registerCode hadd)
  | blockTaken =>
    obtain rfl := Except.error.inj hresult
    exact .early fun hother => hother rfl
  | @block start size depth added registry hfree hadd =>
    cases added with
    | ok _ => cases hresult
    | error cause =>
      obtain rfl := Except.error.inj hresult
      exact .block hfree (Registry.edited_addBlock hadd)
  | @positionTaken start stop positions depths _ _ hclaim =>
    obtain rfl := Except.error.inj hresult
    obtain ⟨-, hascending, -, -⟩ := of_validate_frameDepths hop
    obtain ⟨p, n, hp, htaken, hfree, rfl, rfl⟩ :=
      of_claimBlocks_eq_error (pairwise_claimed _ hascending) hclaim
    cases n with
    | zero =>
      -- the first start was taken, so nothing was claimed
      refine .early fun hother => hother ?_
      rw [Op.blockStarts, startsAt, List.head?_map, List.head?_eq_getElem?, hp]
      rfl
    | succ n => exact .position (Nat.succ_pos n) hp htaken hfree
  | @pieces start stop positions depths _ added registry hclaim hadd =>
    cases added with
    | ok _ => cases hresult
    | error cause =>
      obtain rfl := Except.error.inj hresult
      obtain ⟨-, hascending, -, -⟩ := of_validate_frameDepths hop
      obtain ⟨hfree, rfl⟩ := of_claimBlocks_eq_ok (pairwise_claimed _ hascending) hclaim
      obtain ⟨m, hm, hedited⟩ := Registry.edited_registerDepths hadd
      exact .pieces hfree hm hedited
  | removed | cleared | freed => cases hresult

/-! ## (3) Samples -/

/-- A sample shows what is live, and whether the gate is set. -/
theorem sample_congr (hgate : r'.registry.gate.Invalid ↔ r.registry.gate.Invalid)
    (hregions : r'.liveRegions = r.liveRegions) (hblocks : r'.liveBlocks = r.liveBlocks)
    (pc : Address) : r'.sample pc = r.sample pc := by
  have hregion : r'.registry.region? pc = r.registry.region? pc := by
    have hsame := Index.covering?_congr hregions Region.size pc
    rw [Registry.region?_eq, Registry.region?_eq, hsame]
    simp only [hgate]
  have hdepth : r'.registry.depthAt? pc = r.registry.depthAt? pc := by
    have hsame := Index.covering?_congr hblocks Block.size pc
    rw [Registry.depthAt?_eq, Registry.depthAt?_eq, hsame]
    simp only [hgate]
  have hstart (q : Registry) :
      (q.find pc).1.map (·.start) = (q.region? pc).map (·.1) := by
    rw [Registry.region?, Option.map_map]
    rfl
  simp only [sample, hstart, Registry.traceback_eq, hregion, hdepth]

/-- A refusal takes blocks away that were registered before: the registry is out of memory for a
piece of some code, and a block that it did not add starts in that code. -/
def LosesBlocks (r : Replay) : Op → ReplayError → Prop
  | .frameDepths start stop _ _, .outOfMemory _ =>
    ∃ a, r.liveBlocks a ≠ none ∧ Address.InRange start (stop - start) a
  | _, _ => False

/-- A start that is claimed before another one lies in front of the end of its code, as far as that
other one does not lie behind the end of the address space. -/
theorem inRange_of_mem_take (hop : (Op.frameDepths start stop positions depths).validate = .ok ())
    {n : Nat} {p next : Offset}
    (hnext : (claimed (Address.distance start stop) positions)[n]? = some next)
    (hfit : start.toNat + next.toNat < UInt64.size)
    (hp : p ∈ (claimed (Address.distance start stop) positions).take n) :
    Address.InRange start (Address.distance start stop) (start + p.toUInt64) := by
  obtain ⟨-, hascending, hstop, -⟩ := of_validate_frameDepths hop
  have hlt : p < next := by
    have hincreasing := pairwise_claimed (Address.distance start stop) hascending
    obtain ⟨hn, rfl⟩ := List.getElem?_eq_some_iff.1 hnext
    obtain ⟨i, hi, rfl⟩ := List.mem_take_iff_getElem.1 hp
    exact List.pairwise_iff_getElem.1 hincreasing i n (by omega) hn (by omega)
  -- the later start is not behind the end of the code, so this one is in front of it
  have hmem := (claimed_sublist _ positions).subset (List.mem_of_getElem? hnext)
  have hbefore := advance_le_stop hop hmem
  rw [UInt64.le_iff_toNat_le, Address.toNat_advance, UInt32.toNat_toUInt64] at hbefore
  rw [UInt32.lt_iff_toNat_lt] at hlt
  rw [UInt64.le_iff_toNat_le] at hstop
  have hsize : UInt64.size = 2 ^ 64 := rfl
  have hstart : (start + p.toUInt64).toNat = start.toNat + p.toNat :=
    Address.toNat_add_offset (by omega)
  rw [Address.InRange, UInt64.le_iff_toNat_le, hstart, Address.toNat_distance]
  omega

/-- Where the registry was out of memory for a piece of some code, the pieces before it are cleared
again, and so is every other block that starts in the code. -/
theorem liveBlocks_of_pieces (hop : (Op.frameDepths start stop positions depths).validate = .ok ())
    (hfit : ∀ p ∈ claimed (Address.distance start stop) positions,
      start.toNat + p.toNat < UInt64.size) {n : Nat}
    (hn : n < (Registry.pieces (stop - start) positions depths).length) {registry : Registry}
    (hedited : r.registry.Edited [] (((Registry.pieces (stop - start) positions depths).take n).map
      (Registry.addPiece start) ++ [.clear start (stop - start)]) registry) :
    registry.liveBlocks = r.liveBlocks.eraseRange start (stop - start) := by
  obtain ⟨hpairs, -, hstop, -⟩ := of_validate_frameDepths hop
  have hlength : Address.distance start stop = stop - start := if_pos hstop
  have hclaimed := claimed_eq_map_pieces (stop - start) hpairs
  have hnext : (claimed (Address.distance start stop) positions)[n]? =
      some (Registry.pieces (stop - start) positions depths)[n].position := by
    rw [hlength, hclaimed, List.getElem?_map, List.getElem?_eq_getElem hn]
    rfl
  refine hedited.blocks.eq_eraseRange ?_
  intro edit hedit
  obtain ⟨piece, hpiece, rfl⟩ := List.mem_map.1 hedit
  have hmem : piece.position ∈ (claimed (Address.distance start stop) positions).take n := by
    rw [hlength, hclaimed, ← List.map_take]
    exact List.mem_map_of_mem hpiece
  have hin := inRange_of_mem_take hop hnext (hfit _ (List.mem_of_getElem? hnext)) hmem
  rw [hlength] at hin
  exact ⟨_, _, rfl, hin⟩

/-! ## (4) Claims that cover what is live -/

/-- The gate is clear, and every region that is live is claimed. -/
structure Covered (r : Replay) : Prop where
  gate : ¬r.registry.gate.Invalid
  regions : ∀ a, r.liveRegions a ≠ none → a ∈ r.regions

/-- The claims of a sound replay cover its regions. -/
theorem Sound.covered (h : r.Sound) : r.Covered := ⟨h.gate, fun a => (h.regions a).2⟩

/-- A claim on a region stays unless the operation drops that region, and there is one on the region
that it registers. -/
theorem mem_regions_of_apply {result : Except ReplayError Unit} {a : Address}
    (h : (r.apply op).outcome = .ok (result, r'))
    (ha : a ∈ r.regions ∧ (result = .ok () → ¬op.DropsRegion a) ∨
      result = .ok () ∧ op.regionStart? = some a) : a ∈ r'.regions := by
  have hrefused (hne : result ≠ .ok ()) : a ∈ r.regions :=
    ha.elim And.left fun hnew => absurd hnew.1 hne
  have hother (hnone : op.regionStart? = none) :
      a ∈ r.regions ∧ (result = .ok () → ¬op.DropsRegion a) := by
    refine ha.resolve_right fun hnew => ?_
    rw [hnone] at hnew
    cases hnew.2
  cases ending_of_apply h with
  | malformed | unbalanced | leaving | regionTaken | regionUnknown | blockTaken =>
    exact hrefused (by simp)
  | region hstart =>
    -- the start stays claimed even if the registry refused the region
    rw [hstart, Option.some.injEq] at ha
    exact List.mem_cons.2 (ha.symm.imp (fun hnew => hnew.2.symm) And.left)
  | removed =>
    obtain ⟨hmem, hkept⟩ := hother rfl
    exact List.mem_filter.2 ⟨hmem, bne_iff_ne.2 (hkept rfl)⟩
  | block => exact (hother rfl).1
  | positionTaken hclaim | pieces hclaim =>
    obtain ⟨-, hsame⟩ := same_of_claimBlocks hclaim
    exact hsame ▸ (hother rfl).1
  | cleared => exact (hother rfl).1
  | freed =>
    obtain ⟨hmem, hkept⟩ := hother rfl
    exact mem_forgetRange_distance.2 ⟨hmem, hkept rfl⟩

/-- A region that an edit adds is the one that the operation registers. -/
theorem regionStart?_of_mem_regionEdits {serial : Nat} {a : Address} {region : Region}
    (h : .add a region ∈ op.regionEdits serial) : op.regionStart? = some a := by
  cases op with
  | addCode start size words =>
    obtain ⟨rfl, -⟩ := Edit.add.inj (List.mem_singleton.1 h)
    rfl
  | addTrace start size inherited events =>
    rw [Op.regionEdits] at h
    split at h
    · cases h
    · obtain ⟨rfl, -⟩ := Edit.add.inj (List.mem_singleton.1 h)
      rfl
  | removeCode | free => cases List.mem_singleton.1 h
  | addDepth | frameDepths | clearDepth => cases h

/-- And one that the operation drops is ended by an edit. -/
theorem exists_ends_of_dropsRegion {a : Address} (serial : Nat) (h : op.DropsRegion a) :
    ∃ edit ∈ op.regionEdits serial, edit.Ends a := by
  cases op with
  | removeCode start => exact ⟨.remove start, List.mem_cons_self, h⟩
  | free start stop => exact ⟨.clear start _, List.mem_cons_self, h⟩
  | addCode | addTrace | addDepth | frameDepths | clearDepth => exact absurd h id

/-- Operations keep it so, also those that are refused. -/
theorem Covered.apply {result : Except ReplayError Unit} (hr : r.Covered)
    (h : (r.apply op).outcome = .ok (result, r')) : r'.Covered := by
  have hedits := edits_of_apply h
  cases result with
  | error e =>
    obtain ⟨blocks, hedited⟩ := hedits
    refine ⟨mt hedited.gate.1 hr.gate, fun a hlive => ?_⟩
    rw [liveRegions, hedited.regions.eq_of_nil] at hlive
    exact mem_regions_of_apply h (.inl ⟨hr.regions a hlive, fun hok => by cases hok⟩)
  | ok _ =>
    obtain ⟨serial, hedited, -⟩ := hedits
    refine ⟨mt hedited.gate.1 hr.gate, fun a hlive => ?_⟩
    obtain ⟨region, hregion⟩ := Option.ne_none_iff_exists'.1 hlive
    rcases hedited.regions.eq_some_iff.1 hregion with hadded | ⟨hbefore, hkept⟩
    · exact mem_regions_of_apply h (.inr ⟨rfl, regionStart?_of_mem_regionEdits hadded.mem⟩)
    · refine mem_regions_of_apply h (.inl ⟨?_, fun _ hdrop => ?_⟩)
      · exact hr.regions a (Option.ne_none_iff_exists'.2 ⟨region, hbefore⟩)
      · obtain ⟨edit, hmem, hends⟩ := exists_ends_of_dropsRegion serial hdrop
        exact hkept edit hmem hends

/-- Operations one after the other keep the regions covered. -/
theorem Covered.attemptAll {ops : List Op} (hr : r.Covered)
    (h : (r.attemptAll ops).outcome = .ok r') : r'.Covered := by
  induction ops generalizing r with
  | nil =>
    obtain rfl : r = r' := Except.ok.inj h
    exact hr
  | cons op ops ih =>
    obtain ⟨⟨result, r₁⟩, happly, hrest⟩ := Traced.outcome_bind_eq_ok.1 h
    exact ih (hr.apply happly) hrest

/-! ## (5) What tells replays apart -/

/-- What operations come to that are applied one after the other, also behind one that is refused,
up to the first fault. -/
def outcomes (r : Replay) (ops : List Op) : List (Except Fault (Except ReplayError Unit)) :=
  (Traced.run (fun op r => r.apply op) ops r).map (·.outcome)

/-- The outcomes of a single operation are its own. -/
theorem outcomes_single {out : Except ReplayError Unit}
    (h : (r.apply op).outcome = .ok (out, r')) : r.outcomes [op] = [.ok out] := by
  simp only [outcomes, Traced.run, h]
  rfl

/-- No sample tells two replays apart, and no operations that are applied from now on. -/
structure Indistinguishable (r r' : Replay) : Prop where
  sample : ∀ pc, r'.sample pc = r.sample pc
  outcomes : ∀ ops, (∀ op ∈ ops, op.validate = .ok ()) → r'.outcomes ops = r.outcomes ops

/-- An operation that can be applied or refused in some replay is refused in every one in which the
first start it claims is taken. -/
theorem apply_of_first_taken {a : Address} {out : Except ReplayError Unit × Replay}
    (h : (r.apply op).outcome = .ok out) (hfirst : op.blockStarts.head? = some a)
    (htaken : a ∈ q.blocks) : (q.apply op).outcome = .ok (.error (.blockTaken a), q) := by
  cases op with
  | addDepth start size depth =>
    obtain rfl : start = a := Option.some.inj hfirst
    simp only [Replay.apply, Traced.outcome_note_bind, claimBlock, if_pos htaken]
    rfl
  | frameDepths start stop positions depths =>
    rw [Op.blockStarts] at hfirst
    simp only [Replay.apply, Traced.outcome_note_bind] at h ⊢
    obtain ⟨claims, hclaim, -⟩ := Traced.outcome_bind_eq_ok.1 h
    cases hpositions : claimed (Address.distance start stop) positions with
    | nil =>
      rw [hpositions] at hfirst
      cases hfirst
    | cons p rest =>
      rw [hpositions] at hfirst hclaim
      obtain rfl : start + p.toUInt64 = a := Option.some.inj hfirst
      rw [claimBlocks] at hclaim
      split at hclaim
      · cases hclaim
      · rename_i hfit
        -- claims are made from the front, so none is made before the first one is refused
        have hrefused : (q.claimBlocks start (p :: rest)).outcome =
            .ok (.error (.blockTaken (start + p.toUInt64)), q) := by
          rw [claimBlocks, if_neg hfit]
          simp only [claimBlock, if_pos htaken]
          rfl
        rw [Traced.outcome_bind_of_ok hrefused]
        rfl
  | addCode | addTrace | removeCode | clearDepth | free => cases hfirst

/-- Code with pieces has a first start, and it is among the starts of its first pieces. -/
theorem exists_first_start (depths : List UInt32) {n : Nat}
    (hsome : claimed (Address.distance start stop) positions ≠ []) (hn : 0 < n) :
    ∃ a, (Op.frameDepths start stop positions depths).blockStarts.head? = some a ∧
      a ∈ startsAt start ((claimed (Address.distance start stop) positions).take n) := by
  obtain ⟨p, rest, hpositions⟩ := List.exists_cons_of_ne_nil hsome
  obtain ⟨k, rfl⟩ := Nat.exists_eq_succ_of_ne_zero (Nat.ne_of_gt hn)
  refine ⟨start + p.toUInt64, ?_, ?_⟩
  · rw [Op.blockStarts, hpositions]
    rfl
  · rw [hpositions]
    exact List.mem_cons_self

namespace Refused

/-- No refusal touches a region, and none a block unless it loses some. -/
theorem live (h : r.Refused op e r') (hop : op.validate = .ok ()) :
    (r'.registry.gate.Invalid ↔ r.registry.gate.Invalid) ∧ r'.liveRegions = r.liveRegions ∧
      (¬r.LosesBlocks op e → r'.liveBlocks = r.liveBlocks) := by
  cases h with
  | early hearly => exact ⟨Iff.rfl, rfl, fun _ => rfl⟩
  | region _ _ hedited | block _ hedited =>
    exact ⟨hedited.gate, hedited.regions.eq_of_nil, fun _ => hedited.blocks.eq_of_nil⟩
  | position => exact ⟨Iff.rfl, rfl, fun _ => rfl⟩
  | @pieces start stop positions depths n cause registry hfree hn hedited =>
    refine ⟨hedited.gate, hedited.regions.eq_of_nil, ?_⟩
    intro hkept
    -- the pieces that were added are cleared again, so only older blocks can be lost
    have herased := liveBlocks_of_pieces hop (fun p hp => (hfree p hp).1) hn hedited
    show registry.liveBlocks = r.liveBlocks
    rw [herased]
    refine Contents.eraseRange_of_none ?_
    intro a hin
    by_contra hlive
    exact hkept ⟨a, hlive, hin⟩

/-- A refusal that leaves no claim behind leaves nothing behind. -/
theorem eq_of_not_leavesClaim (h : r.Refused op e r') (hop : op.validate = .ok ())
    (hclean : ¬op.LeavesClaim e) : r' = r := by
  cases h with
  | early _ => rfl
  | region | block | pieces => exact absurd trivial hclean
  | @position start stop positions depths n p hn hp _ _ =>
    refine absurd ?_ hclean
    intro hfirst
    -- the positions increase, so a later one is not at the first start
    obtain ⟨-, hascending, -, -⟩ := of_validate_frameDepths hop
    have hincreasing := pairwise_claimed (Address.distance start stop) hascending
    obtain ⟨hlt, rfl⟩ := List.getElem?_eq_some_iff.1 hp
    rw [Op.blockStarts, startsAt, List.head?_map, List.head?_eq_getElem?,
      List.getElem?_eq_getElem (Nat.lt_of_le_of_lt (Nat.zero_le n) hlt)] at hfirst
    have hsame := Address.add_offset_inj (Option.some.inj hfirst)
    have hless := List.pairwise_iff_getElem.1 hincreasing 0 n (by omega) hlt hn
    exact UInt32.ne_of_lt hless hsame

/-- Where a claim was left behind, the operation is refused for it when it is tried again, and no
longer for the old reason. -/
theorem again (h : r.Refused op e r') (hop : op.validate = .ok ())
    (hout : (r.apply op).outcome = .ok (.error e, r')) (hleft : op.LeavesClaim e) :
    ∃ e', e' ≠ e ∧ (r'.apply op).outcome = .ok (.error e', r') := by
  cases h with
  | early hearly => exact absurd hleft hearly
  | @region op start cause registry hstart _ _ =>
    refine ⟨.regionTaken start, by simp, ?_⟩
    rcases outcome_apply_region hstart with ⟨e', hearly, hall⟩ | ⟨size, chain, hall⟩
    · -- a chain that is refused is refused by every replay, so it would have been before
      rw [hall r] at hout
      obtain rfl := Except.error.inj (Prod.mk.inj (Except.ok.inj hout)).1
      exact absurd hleft hearly
    · rw [hall, addCode, if_pos (by simp)]
      rfl
  | @block start size depth cause registry _ _ =>
    exact ⟨.blockTaken start, by simp, apply_of_first_taken hout rfl (by simp)⟩
  | @position start stop positions depths n p hn hp _ _ =>
    -- something was claimed, so there is a first start, and it is taken now
    have hsome : claimed (Address.distance start stop) positions ≠ [] := by
      intro hnil
      rw [hnil] at hp
      cases hp
    obtain ⟨a, hfirst, hmem⟩ := exists_first_start depths hsome hn
    refine ⟨.blockTaken a, ?_, apply_of_first_taken hout hfirst (by simp [hmem])⟩
    intro hsame
    injection hsame with hsame
    exact hleft (hsame ▸ hfirst)
  | @pieces start stop positions depths n cause registry hfree hn hedited =>
    obtain ⟨hpairs, -, hstop, -⟩ := of_validate_frameDepths hop
    have hlength : Address.distance start stop = stop - start := if_pos hstop
    have hcount : n < (claimed (Address.distance start stop) positions).length := by
      rw [hlength, claimed_eq_map_pieces (stop - start) hpairs, List.length_map]
      exact hn
    have hsome := List.ne_nil_of_length_pos (Nat.zero_lt_of_lt hcount)
    obtain ⟨a, hfirst, hmem⟩ :=
      exists_first_start depths hsome (Nat.zero_lt_of_lt hcount)
    rw [List.take_length] at hmem
    exact ⟨.blockTaken a, by simp, apply_of_first_taken hout hfirst (by simp [hmem])⟩

/-- Where the claims cover what is live, a region that the registry refused cannot be removed: that
was an error before, and it is a fault of the registry now. -/
theorem removeCode (h : r.Refused op e r') (hr : r.Covered) (hstart : op.regionStart? = some start)
    (hleft : op.LeavesClaim e) :
    (r.apply (.removeCode start)).outcome = .ok (.error (.regionUnknown start), r) ∧
      (r'.apply (.removeCode start)).outcome = .error (.absentKey start) := by
  cases h with
  | early hearly => exact absurd hleft hearly
  | block | position | pieces => cases hstart
  | @region _ _ _ registry hstart' hfree hedited =>
    obtain rfl := Option.some.inj (hstart.symm.trans hstart')
    have hgate' : ¬registry.gate.Invalid := mt hedited.gate.1 hr.gate
    have hkey : registry.liveRegions start = none := by
      rw [hedited.regions.eq_of_nil]
      exact not_ne_iff.1 (mt (hr.regions start) hfree)
    have hremove : (registry.unregisterCode start).outcome = .error (.absentKey start) :=
      Traced.outcome_bind_of_error (Regions.outcome_remove_of_absent hgate' hkey) _
    constructor
    · simp only [Replay.apply, Traced.outcome_note_bind, if_neg hfree]
      rfl
    · simp only [Replay.apply, Traced.outcome_note_bind, List.mem_cons_self, if_true]
      rw [Traced.outcome_bind_of_error hremove]

end Refused

/-- **When a refusal leaves a replay as it was**: exactly if it leaves no claim behind, and then
nothing at all has changed. Otherwise a later operation tells the difference, first of all the same
operation tried again. Samples are not affected unless the refusal took blocks away that were there
before. Where operations led to the replay from a fresh one, and a region was refused by the
registry, removing it was an error before and is a fault of the registry now. -/
theorem indistinguishable_iff_of_refused (hop : op.validate = .ok ())
    (h : (r.apply op).outcome = .ok (.error e, r')) :
    (r.Indistinguishable r' ↔ ¬op.LeavesClaim e) ∧ (¬op.LeavesClaim e → r' = r) ∧
      (¬r.LosesBlocks op e → ∀ pc, r'.sample pc = r.sample pc) ∧
      ∀ t ops, ((Replay.start t).attemptAll ops).outcome = .ok r →
      ∀ start, op.regionStart? = some start → op.LeavesClaim e →
        (r.apply (.removeCode start)).outcome = .ok (.error (.regionUnknown start), r) ∧
          (r'.apply (.removeCode start)).outcome = .error (.absentKey start) := by
  have hrefused := refused_of_apply hop h
  refine ⟨⟨?_, ?_⟩, hrefused.eq_of_not_leavesClaim hop, ?_, ?_⟩
  · intro hsame hleft
    -- the operation itself, tried again, tells the two apart
    obtain ⟨e', hne, hagain⟩ := hrefused.again hop h hleft
    have hops : ∀ other ∈ [op], other.validate = .ok () := by simpa using hop
    have hequal := hsame.outcomes [op] hops
    rw [outcomes_single h, outcomes_single hagain] at hequal
    simp only [List.cons.injEq, Except.ok.injEq, Except.error.injEq, and_true] at hequal
    exact hne hequal
  · intro hclean
    obtain rfl := hrefused.eq_of_not_leavesClaim hop hclean
    exact ⟨fun _ => rfl, fun _ _ => rfl⟩
  · intro hkept
    obtain ⟨hgate, hregions, hblocks⟩ := hrefused.live hop
    exact sample_congr hgate hregions (hblocks hkept)
  · intro t ops hops start hstart hleft
    exact hrefused.removeCode ((sound_start t).covered.attemptAll hops) hstart hleft

/-- With room for one region, a second one is refused. Its claim stays, so removing it is a fault.
-/
theorem claim_left_by_refusal : ∃ r r' cause,
    ((Replay.start { maxNodes := 1 }).apply (.addCode 0x1000 16 [1, 0, 16, 4])).outcome =
      .ok (.ok (), r) ∧
    (r.apply (.addCode 0x2000 16 [2, 0, 16, 4])).outcome =
      .ok (.error (.outOfMemory cause), r') ∧
    ¬r.Indistinguishable r' ∧
    (r'.apply (.removeCode 0x2000)).outcome = .error (.absentKey 0x2000) := by
  have hfirst : ((Replay.start { maxNodes := 1 }).apply
      (.addCode 0x1000 16 [1, 0, 16, 4])).outcome.map (·.1) = .ok (.ok ()) := by decide +kernel
  have hsecond : ((Replay.start { maxNodes := 1 }).apply (.addCode 0x1000 16 [1, 0, 16, 4]) >>=
      fun p => p.2.apply (.addCode 0x2000 16 [2, 0, 16, 4])).outcome.map (·.1) =
        .ok (.error (.outOfMemory ⟨96⟩)) := by decide +kernel
  obtain ⟨⟨_, r⟩, h, rfl⟩ := Traced.exists_of_map_eq_ok hfirst
  rw [Traced.outcome_bind_of_ok h] at hsecond
  obtain ⟨⟨_, r'⟩, h', rfl⟩ := Traced.exists_of_map_eq_ok hsecond
  have hop : (Op.addCode 0x2000 16 [2, 0, 16, 4]).validate = .ok () := rfl
  obtain ⟨hsame, -, -, hremove⟩ := indistinguishable_iff_of_refused hop h'
  have hreached : ((Replay.start { maxNodes := 1 }).attemptAll
      [.addCode 0x1000 16 [1, 0, 16, 4]]).outcome = .ok r := Traced.outcome_bind_of_ok h _
  have hleft : (Op.addCode 0x2000 16 [2, 0, 16, 4]).LeavesClaim (.outOfMemory ⟨96⟩) := trivial
  exact ⟨r, r', ⟨96⟩, h, h', fun hequal => hsame.1 hequal hleft,
    (hremove _ _ hreached 0x2000 rfl hleft).2⟩

end Replay

end TraceAtlas
