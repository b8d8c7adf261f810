import TraceAtlas.Proofs.Session.Workbench

/-! # When a registration is refused

An entry that is removed while somebody reads keeps its slot, and the slot counts against the limit
of its map. It is recycled by the next edit of the map that is made while nobody reads, and by
nothing else: dropping the last reader recycles nothing, and neither does a registration that is
refused. So a map may refuse every registration although it is empty and nobody reads, until
something is removed from it.

## Main definitions
* `RegistryCall.DropsRegions`, `RegistryCall.DropsBlocks` : the calls that remove entries.
* `Event.Performs` : the mutations of an event.
* `Workbench.Planned` : both maps keep to their plans.

## Main statements
* `Workbench.undergoes_of_happens` : an event is edits of the two indexes.
* `Workbench.registration_refused_iff_full` : when a registration is refused, and for how long.
-/

namespace TraceAtlas

/-! ## (1) Calls that remove -/

namespace Mutation

/-- Clearing blocks is no edit of the region map. -/
theorem regionEdits_clearingBlocks (start size : Address) :
    (clearingBlocks start size).flatMap regionEdits = [] := by
  unfold clearingBlocks
  split <;> rfl

/-- Clearing regions is no edit of the depth map. -/
theorem blockEdits_clearingRegions (start size : Address) :
    (clearingRegions start size).flatMap blockEdits = [] := by
  unfold clearingRegions
  split <;> rfl

/-- Adding pieces of code is no edit of the region map. -/
theorem regionEdits_addingPieces (start : Address) (pieces : List Piece) :
    (pieces.map fun piece => Mutation.blocks (some (Registry.addPiece start piece))).flatMap
      regionEdits = [] := by
  rw [List.flatMap_eq_nil_iff, List.forall_mem_map]
  exact fun _ _ => rfl

end Mutation

namespace RegistryCall

variable {k : RegistryCall} {reply : RegistryReply} {ms : List Mutation}

/-- The call removes regions if there are any. -/
def DropsRegions : RegistryCall → Prop
  | unregisterCode _ => True
  | clearRegions _ size => size ≠ 0
  | freeBlock start stop => Address.distance start stop ≠ 0
  | _ => False

/-- The call removes blocks if there are any; registering depths does where a piece is refused. -/
def DropsBlocks : RegistryCall → Prop
  | clearBlocks _ size => size ≠ 0
  | freeBlock start stop => Address.distance start stop ≠ 0
  | registerDepths _ _ _ _ => True
  | _ => False

/-- The other calls do nothing to the region map but to add. -/
theorem Performs.adds_regions (h : k.Performs reply ms) (hk : ¬k.DropsRegions) :
    ∀ e ∈ ms.flatMap Mutation.regionEdits, e.additions ≠ [] := by
  cases h.mutating with
  | @region _ _ _ _ _ result =>
    cases result <;> simp [accepted, Mutation.regionEdits, Edit.additions]
  | turnedAway | block | look => exact List.forall_mem_nil _
  | removal => exact absurd trivial hk
  | regions =>
    obtain rfl := not_not.1 hk
    exact List.forall_mem_nil _
  | blocks =>
    rw [Mutation.regionEdits_clearingBlocks]
    exact List.forall_mem_nil _
  | pieces =>
    rw [Mutation.regionEdits_addingPieces]
    exact List.forall_mem_nil _
  | rollback =>
    rw [List.flatMap_append, List.flatMap_append, Mutation.regionEdits_addingPieces,
      Mutation.regionEdits_clearingBlocks]
    exact List.forall_mem_nil _
  | code =>
    rw [not_not.1 hk]
    exact List.forall_mem_nil _

/-- The other calls do nothing to the depth map but to add. -/
theorem Performs.adds_blocks (h : k.Performs reply ms) (hk : ¬k.DropsBlocks) :
    ∀ e ∈ ms.flatMap Mutation.blockEdits, e.additions ≠ [] := by
  cases h.mutating with
  | region | turnedAway | removal | look => exact List.forall_mem_nil _
  | regions =>
    rw [Mutation.blockEdits_clearingRegions]
    exact List.forall_mem_nil _
  | blocks =>
    obtain rfl := not_not.1 hk
    exact List.forall_mem_nil _
  | @block _ _ _ result =>
    cases result <;> simp [accepted, Mutation.blockEdits, Edit.additions]
  | pieces | rollback => exact absurd trivial hk
  | code =>
    rw [not_not.1 hk]
    exact List.forall_mem_nil _

end RegistryCall

namespace Event

/-- The mutations of an event: those of its call, if it is one. -/
def Performs (e : Event RegistryCall RegistryReply) (ms : List Mutation) : Prop :=
  match e.step, e.answer with
  | .call k, .reply reply => k.Performs reply ms
  | _, _ => ms = []

/-- The event is a call that removes regions if there are any. -/
def DropsRegions (e : Event RegistryCall RegistryReply) : Prop :=
  ∃ k, e.step = .call k ∧ k.DropsRegions

/-- The event is a call that removes blocks if there are any, or that may do so to undo its work. -/
def DropsBlocks (e : Event RegistryCall RegistryReply) : Prop :=
  ∃ k, e.step = .call k ∧ k.DropsBlocks

variable {e : Event RegistryCall RegistryReply} {ms : List Mutation}

/-- The other events do nothing to the region map but to add. -/
theorem Performs.adds_regions (h : e.Performs ms) (he : ¬e.DropsRegions) :
    ∀ edit ∈ ms.flatMap Mutation.regionEdits, edit.additions ≠ [] := by
  unfold Performs at h
  split at h
  · rename_i k reply hstep hanswer
    exact RegistryCall.Performs.adds_regions h fun hk => he ⟨k, hstep, hk⟩
  · subst h
    exact List.forall_mem_nil _

/-- The other events do nothing to the depth map but to add. -/
theorem Performs.adds_blocks (h : e.Performs ms) (he : ¬e.DropsBlocks) :
    ∀ edit ∈ ms.flatMap Mutation.blockEdits, edit.additions ≠ [] := by
  unfold Performs at h
  split at h
  · rename_i k reply hstep hanswer
    exact RegistryCall.Performs.adds_blocks h fun hk => he ⟨k, hstep, hk⟩
  · subst h
    exact List.forall_mem_nil _

end Event

/-! ## (2) Additions -/

namespace Registry

variable {r : Registry} {t : Tuning} {start : Address}

/-- Where memory can be had, a region is refused exactly by a full map. -/
theorem outcome_addRegion_of_absent (hgate : ¬r.gate.Invalid) (hkey : r.liveRegions start = none)
    (hlist : ¬r.regions.ListFails)
    (hstocked : r.regions.index.Stocked (.ofTuning t Regions.slotBytes)
      r.regions.index.slots.retired.length)
    (hgrow : ¬r.regions.index.slots.GrowthFails r.regions.index.plan)
    (hlists : ¬r.regions.index.slots.ListsFail r.regions.index.plan) (size : UInt32)
    (chain : Chain) :
    ∃ r', (r.addRegion start size chain).outcome =
      .ok (if r.regions.index.Full t.maxNodes.toNat then
        .error ⟨UInt64.ofNat Regions.slotBytes⟩ else .ok (), r') := by
  obtain ⟨index, hinsert, -⟩ := hstocked.outcome_insert_of_absent hkey hgrow hlists
    (⟨size, chain, r.regions.issued⟩ : Region)
  obtain ⟨regions, hplace, -⟩ := Regions.outcome_place_of_insert
    (m := { r.regions with asked := r.regions.asked + 1 }) hgate hinsert
  have hadd := congrArg Traced.outcome (Regions.add_of_not_listFails hlist r.gate start size chain)
  rw [Traced.outcome_note_bind, hplace] at hadd
  exact ⟨_, Traced.outcome_bind_of_ok hadd _⟩

/-- Where memory can be had, a block is refused exactly by a full map. -/
theorem outcome_addBlock_of_absent (hgate : ¬r.gate.Invalid) (hkey : r.liveBlocks start = none)
    (hstocked : r.blocks.index.Stocked (.ofTuning t DepthBlocks.slotBytes)
      r.blocks.index.slots.retired.length)
    (hgrow : ¬r.blocks.index.slots.GrowthFails r.blocks.index.plan)
    (hlists : ¬r.blocks.index.slots.ListsFail r.blocks.index.plan) (size depth : UInt32) :
    ∃ r', (r.addBlock start size depth).outcome =
      .ok (if r.blocks.index.Full t.maxNodes.toNat then
        .error ⟨UInt64.ofNat DepthBlocks.slotBytes⟩ else .ok (), r') := by
  obtain ⟨index, hinsert, -⟩ :=
    hstocked.outcome_insert_of_absent hkey hgrow hlists (⟨size, depth⟩ : Block)
  obtain ⟨blocks, hadd, -⟩ := DepthBlocks.outcome_add_of_insert hgate hinsert
  exact ⟨_, Traced.outcome_bind_of_ok hadd _⟩

end Registry

namespace Workbench

variable {t : Tuning} {w : Workbench} {s s' : Session Workbench}
  {e : Event RegistryCall RegistryReply} {events : List (Event RegistryCall RegistryReply)}

/-- What an addition comes to is what is answered. -/
theorem exists_outcome_add {f : Registry → Traced (Except OutOfMemory Unit × Registry)}
    {result : Except OutOfMemory Unit} (h : ∃ r, (f w.registry).outcome = .ok (result, r)) :
    ∃ w', (w.add f).outcome = .ok (.added result, w') := by
  obtain ⟨r, hf⟩ := h
  exact ⟨_, Traced.outcome_bind_of_ok hf _⟩

/-! ## (3) Sessions -/

/-- An event is edits of the two indexes, each with a collection behind it. -/
theorem undergoes_of_happens (h : Session.Happens answer s e s') : ∃ ms, e.Performs ms ∧
    s.subject.registry.regions.index.Undergoes s.gate (ms.flatMap Mutation.regionEdits)
      s'.subject.registry.regions.index ∧
    s.subject.registry.blocks.index.Undergoes s.gate (ms.flatMap Mutation.blockEdits)
      s'.subject.registry.blocks.index := by
  obtain ⟨step, a, notices⟩ := e
  rcases cases_of_happens h with ⟨k, reply, ms, rfl, rfl, -, hms, hworks, -⟩ |
    ⟨k, reply, rfl, rfl, hk, -, hlooked, -⟩ | ⟨hstep, -, g, hg⟩
  · exact ⟨ms, hms, hworks.undergoes.indexes⟩
  · obtain ⟨readers, hsame⟩ := hlooked.exists_readers
    rw [hsame]
    exact ⟨[], hk.performs reply, .nil _, .nil _⟩
  · rw [hg]
    refine ⟨[], ?_, .nil _, .nil _⟩
    cases step with
    | call k => exact absurd rfl (hstep k)
    | _ => rfl

/-- Both maps keep to the plans that the settings make for them. -/
structure Planned (t : Tuning) (s : Session Workbench) : Prop where
  regions : s.subject.registry.regions.index.Stocked (.ofTuning t Regions.slotBytes)
    s.subject.registry.regions.index.slots.retired.length
  blocks : s.subject.registry.blocks.index.Stocked (.ofTuning t DepthBlocks.slotBytes)
    s.subject.registry.blocks.index.slots.retired.length

/-- Nothing is registered at first, and no slot was handed out. -/
theorem planned_start (t : Tuning) : Planned t (.start (start t)) :=
  ⟨Index.stocked_empty t _, Index.stocked_empty t _⟩

/-- Every event keeps to the plans. -/
theorem Planned.happens (h : Planned t s) (he : Session.Happens answer s e s') : Planned t s' := by
  obtain ⟨ms, -, hregions, hblocks⟩ := undergoes_of_happens he
  exact ⟨(hregions.balances h.regions).1, (hblocks.balances h.blocks).1⟩

/-- So do all events in a row. -/
theorem planned_of_passes (h : Session.Passes answer s events s') (hs : Planned t s) :
    Planned t s' :=
  h.invariant hs fun _ hplanned he => hplanned.happens he

/-- Nothing but a removal changes a full region map. -/
theorem Planned.regions_eq (h : Planned t s) (he : Session.Happens answer s e s')
    (hfull : s.subject.registry.regions.index.Full t.maxNodes.toNat) (hkept : ¬e.DropsRegions) :
    s'.subject.registry.regions.index = s.subject.registry.regions.index := by
  obtain ⟨ms, hms, hregions, -⟩ := undergoes_of_happens he
  exact hregions.eq_of_full h.regions hfull (hms.adds_regions hkept)

/-- Nothing but a removal changes a full depth map. -/
theorem Planned.blocks_eq (h : Planned t s) (he : Session.Happens answer s e s')
    (hfull : s.subject.registry.blocks.index.Full t.maxNodes.toNat) (hkept : ¬e.DropsBlocks) :
    s'.subject.registry.blocks.index = s.subject.registry.blocks.index := by
  obtain ⟨ms, hms, -, hblocks⟩ := undergoes_of_happens he
  exact hblocks.eq_of_full h.blocks hfull (hms.adds_blocks hkept)

/-- An index that no event changes as long as it is full stays as it is. -/
theorem index_of_full {α : Type} (index : Session Workbench → Index α)
    {Drops : Event RegistryCall RegistryReply → Prop}
    (hstep : ∀ {s e s'}, Planned t s → Session.Happens answer s e s' →
      (index s).Full t.maxNodes.toNat → ¬Drops e → index s' = index s)
    (h : Session.Passes answer s events s') (hs : Planned t s)
    (hfull : (index s).Full t.maxNodes.toNat) (hkept : ∀ e ∈ events, ¬Drops e) :
    index s' = index s := by
  refine (h.invariant (I := fun s' => Planned t s' ∧ index s' = index s) ⟨hs, rfl⟩ ?_).2
  rintro s₁ e s₂ hmem ⟨hplanned, hsame⟩ he
  refine ⟨hplanned.happens he, ?_⟩
  rw [hstep hplanned he (hsame ▸ hfull) (hkept e hmem), hsame]

/-- **When a registration is refused.** At every moment of every session on a fresh registry, the
gate has no reader exactly if no reader and no handle is held. If the gate is clear, and unless
memory for another chunk or room in a list cannot be had, a registration at an address where nothing
starts is refused exactly if its map is full: if the live entries and the slots that wait are as
many as there may be.
The refusal names the size of a slot of the map. What becomes of the slots that wait is said for
every next event by the edits of its call: only an edit of the map that is made while nobody reads
recycles them. So a full map stays just as it is, and refuses all registrations, until entries are
removed from it, also when nothing is live in it and nobody reads any more. -/
theorem registration_refused_iff_full (t : Tuning)
    (h : Session.Passes answer (.start (start t)) events s) :
    let r := s.subject.registry
    (s.gate.Quiescent ↔ Unread s) ∧
    (¬s.gate.Invalid →
      (∀ start size chain, r.liveRegions start = none → ¬r.regions.ListFails →
        ¬r.regions.index.slots.GrowthFails r.regions.index.plan →
        ¬r.regions.index.slots.ListsFail r.regions.index.plan →
        ∀ k ∈ [RegistryCall.registerCode start size chain, .addRegion start size chain], ∃ w,
          (answer k s.subject).outcome = .ok (.added (if r.regions.index.Full t.maxNodes.toNat then
            .error ⟨UInt64.ofNat Regions.slotBytes⟩ else .ok ()), w)) ∧
      ∀ start size depth, r.liveBlocks start = none →
        ¬r.blocks.index.slots.GrowthFails r.blocks.index.plan →
        ¬r.blocks.index.slots.ListsFail r.blocks.index.plan → ∃ w,
          (answer (.addBlock start size depth) s.subject).outcome =
            .ok (.added (if r.blocks.index.Full t.maxNodes.toNat then
              .error ⟨UInt64.ofNat DepthBlocks.slotBytes⟩ else .ok ()), w)) ∧
    (∀ e s', Session.Happens answer s e s' → ∃ ms, e.Performs ms ∧
      r.regions.index.Balances s.gate (ms.flatMap Mutation.regionEdits)
        s'.subject.registry.regions.index ∧
      r.blocks.index.Balances s.gate (ms.flatMap Mutation.blockEdits)
        s'.subject.registry.blocks.index) ∧
    ∀ later s', Session.Passes answer s later s' →
      (r.regions.index.Full t.maxNodes.toNat → (∀ e ∈ later, ¬e.DropsRegions) →
        s'.subject.registry.regions.index = r.regions.index) ∧
      (r.blocks.index.Full t.maxNodes.toNat → (∀ e ∈ later, ¬e.DropsBlocks) →
        s'.subject.registry.blocks.index = r.blocks.index) := by
  intro r
  have hcounted : Counted s := counted_of_passes h (counted_start t)
  have hplanned : Planned t s := planned_of_passes h (planned_start t)
  refine ⟨hcounted.quiescent_iff, fun hgate => ⟨?_, ?_⟩, ?_, ?_⟩
  · intro start size chain hkey hlist hgrow hlists k hk
    have hadd := Registry.outcome_addRegion_of_absent hgate hkey hlist hplanned.regions hgrow hlists
      size ⟨chain⟩
    rcases List.mem_pair.1 hk with rfl | rfl
    · -- what registering code says about a refusal changes no answer
      rw [← Registry.outcome_registerCode] at hadd
      exact exists_outcome_add hadd
    · exact exists_outcome_add hadd
  · intro start size depth hkey hgrow hlists
    exact exists_outcome_add
      (Registry.outcome_addBlock_of_absent hgate hkey hplanned.blocks hgrow hlists size depth)
  · -- what an event makes of a map is told by the mutations that it consists of
    intro e s' he
    obtain ⟨ms, hms, hregions, hblocks⟩ := undergoes_of_happens he
    exact ⟨ms, hms, (hregions.balances hplanned.regions).2, (hblocks.balances hplanned.blocks).2⟩
  · intro later s' hlater
    exact ⟨index_of_full (·.subject.registry.regions.index) Planned.regions_eq hlater hplanned,
      index_of_full (·.subject.registry.blocks.index) Planned.blocks_eq hlater hplanned⟩

/-- There may be one block. It is cleared while somebody reads, who then drops the reader, and a
first attempt to add another one is refused. Nobody reads, no block is live and the gate is clear,
and yet the next attempt is refused as well. -/
theorem block_refused_by_empty_map :
    ∃ (events : List (Event RegistryCall RegistryReply)) (s : Session Workbench),
      Session.Passes answer (.start (start { maxNodes := 1 })) events s ∧ Unread s ∧
      ¬s.gate.Invalid ∧ s.subject.registry.liveBlocks.count = 0 ∧
      ∃ w, (answer (.addBlock 0x2000 16 1) s.subject).outcome = .ok (.added (.error ⟨80⟩), w) := by
  obtain ⟨events, s, h, -, hvalues⟩ := Session.exists_passes_of_trail answer
    (.start (start { maxNodes := 1 }))
    [.call (.addBlock 0x1000 16 1), .read "g", .call (.clearBlocks 0x1000 16), .release "g",
      .call (.addBlock 0x1000 16 1)]
    (by simp [Step.Plain])
    (fun p =>
      let ix := p.2.subject.registry.blocks.index
      decide (p.2.gate.Quiescent ∧ ¬p.2.gate.Invalid ∧ ix.contents 0x2000 = none ∧ ix.size = 0 ∧
        ix.slots.retired.length = 1 ∧ ix.slots.handedOut = ix.plan.limit))
    true (by decide +kernel)
  obtain ⟨hquiet, hgate, hkey, hsize, hwaiting, hhanded⟩ := of_decide_eq_true hvalues
  obtain ⟨hunread, hadd, -, -⟩ := registration_refused_iff_full { maxNodes := 1 } h
  have hcount : s.subject.registry.liveBlocks.count = 0 := by
    rw [← hsize]
    exact (Index.size_eq_count _).symm
  have hfull : s.subject.registry.blocks.index.Full 1 := by
    rw [Index.Full, hwaiting, ← Index.size_eq_count, hsize]
  -- no slot is left to hand out, so no memory is asked for
  have hgrow : ¬s.subject.registry.blocks.index.slots.GrowthFails
      s.subject.registry.blocks.index.plan := by
    rintro ⟨-, hlt, -⟩
    exact Nat.ne_of_lt hlt hhanded
  have hlists : ¬s.subject.registry.blocks.index.slots.ListsFail
      s.subject.registry.blocks.index.plan := by
    rintro ⟨-, hlt, -⟩
    exact Nat.ne_of_lt hlt hhanded
  obtain ⟨w, hrefused⟩ : ∃ w, (answer (.addBlock 0x2000 16 1) s.subject).outcome =
      .ok (.added (if s.subject.registry.blocks.index.Full 1 then .error ⟨80⟩ else .ok ()), w) :=
    (hadd hgate).2 0x2000 16 1 hkey hgrow hlists
  rw [if_pos hfull] at hrefused
  exact ⟨events, s, h, hunread.1 hquiet, hgate, hcount, w, hrefused⟩

end Workbench

end TraceAtlas
