import TraceAtlas.Proofs.Lookup
import TraceAtlas.Proofs.Registry.Edits
import TraceAtlas.Proofs.Session.Conformance
import TraceAtlas.Session.Registry

/-! # What a session finds in a registry

A session calls a registry, sets and clears its gate by hand, and holds readers and handles all the
while. Its calls and their replies say which edits were made, and these say what is live. While the
gate is clear, lookups find exactly what is live; while it is set they find nothing.

## Main definitions
* `RegistryCall.Makes` : the edits that a call makes when it gives some reply.
* `RegistryCall.law` : the edits so far, as something that calls may extend.

## Main statements
* `Workbench.lookups_of_performAll` : lookups after any session.
-/

namespace TraceAtlas

/-! ## (1) The edits of a call -/

/-- The edits that were made of the maps of a registry, the first ones first. -/
structure Edits where
  regions : List (Edit Region)
  blocks : List (Edit Block)

namespace RegistryCall

/-- A call only looks at the maps. -/
def Looks : RegistryCall → Prop
  | find _ _ | depthAt _ | traceback _ | tracebackInto _ _ | sizes | gate | handle _ _ => True
  | _ => False

/-- The edits of the regions and of the blocks that a call makes when it gives some reply. No call
on one of the maps edits the other one, and one that is refused edits none, apart from the depths of
some code: those that were added before the refusal are cleared again. -/
def Makes : RegistryCall → RegistryReply → List (Edit Region) → List (Edit Block) → Prop
  | .registerCode start size chain, .added (.ok ()), regions, blocks
  | .addRegion start size chain, .added (.ok ()), regions, blocks =>
    (∃ serial, regions = [.add start ⟨size, ⟨chain⟩, serial⟩]) ∧ blocks = []
  | .registerCode _ _ _, .added (.error _), regions, blocks
  | .addRegion _ _ _, .added (.error _), regions, blocks => regions = [] ∧ blocks = []
  | .unregisterCode start, .done, regions, blocks => regions = [.remove start] ∧ blocks = []
  | .clearRegions start size, .done, regions, blocks => regions = [.clear start size] ∧ blocks = []
  | .clearBlocks start size, .done, regions, blocks => regions = [] ∧ blocks = [.clear start size]
  | .addBlock start size depth, .added (.ok ()), regions, blocks =>
    regions = [] ∧ blocks = [.add start ⟨size, depth⟩]
  | .addBlock _ _ _, .added (.error _), regions, blocks => regions = [] ∧ blocks = []
  | .registerDepths start stop positions depths, .added (.ok ()), regions, blocks =>
    regions = [] ∧ blocks =
      (Registry.pieces (stop - start) positions depths).map (Registry.addPiece start)
  | .registerDepths start stop positions depths, .added (.error _), regions, blocks =>
    regions = [] ∧ ∃ n < (Registry.pieces (stop - start) positions depths).length, blocks =
      ((Registry.pieces (stop - start) positions depths).take n).map (Registry.addPiece start) ++
        [.clear start (stop - start)]
  | .freeBlock start stop, .done, regions, blocks =>
    regions = [.clear start (Address.distance start stop)] ∧
      blocks = [.clear start (Address.distance start stop)]
  | call, _, regions, blocks => call.Looks ∧ regions = [] ∧ blocks = []

/-- The edits so far, as something to be called. Nothing is said of when a call is a fault. -/
def law : CallLaw RegistryCall RegistryReply Edits where
  reply edits call reply edits' := ∃ regions blocks, call.Makes reply regions blocks ∧
    edits' = ⟨edits.regions ++ regions, edits.blocks ++ blocks⟩
  fault _ _ _ := True

end RegistryCall

/-! ## (2) Handles -/

namespace Handles

variable {hs hs' : Handles} {gate gate' : Gate} {a : Address} {name : String}

/-- Dropping a handle neither sets nor clears the gate. -/
theorem invalid_drop_iff : (hs.drop gate name).2.Invalid ↔ gate.Invalid := by
  unfold drop
  split <;> rfl

/-- Holding or dropping what was found changes neither the gate's state nor a map. -/
theorem invalid_receive_iff {keepAs : Option String} {found : Option RegionHandle}
    {view : Option RegionView} (h : hs.receive gate a keepAs found = .ok (view, hs', gate')) :
    gate'.Invalid ↔ gate.Invalid := by
  cases found with
  | none =>
    obtain ⟨-, -, rfl⟩ := Prod.ext_iff.1 (Except.ok.inj h)
    rfl
  | some handle =>
    rw [receive] at h
    cases hview : handle.view gate a with
    | error e =>
      rw [hview] at h
      cases h
    | ok shown =>
      rw [hview] at h
      cases keepAs with
      | none =>
        obtain rfl : gate.release = gate' := congrArg (·.2.2) (Except.ok.inj h)
        rfl
      | some name =>
        obtain rfl : (hs.drop gate name).2 = gate' := congrArg (·.2.2) (Except.ok.inj h)
        exact invalid_drop_iff

/-- Calling a handle changes the gate's state no more than dropping it does. -/
theorem invalid_answer_iff {call : HandleCall} {reply : HandleReply}
    (h : hs.answer gate name call = .ok (reply, hs', gate')) : gate'.Invalid ↔ gate.Invalid := by
  -- every call but the one that drops the handle hands the gate back
  have hsame {α : Type} {x : Except Fault α} {f : α → HandleReply}
      (hx : (x >>= fun v => pure (f v, hs, gate)) = .ok (reply, hs', gate')) : gate = gate' := by
    cases x with
    | error e => cases hx
    | ok v => exact congrArg (·.2.2) (Except.ok.inj hx)
  unfold answer at h
  split at h
  · obtain rfl : gate = gate' := congrArg (·.2.2) (Except.ok.inj h)
    rfl
  · cases call with
    | view a | nextFrame a cursor | pull a calls => rw [hsame h]
    | isConsistent =>
      obtain rfl : gate = gate' := congrArg (·.2.2) (Except.ok.inj h)
      rfl
    | release =>
      obtain rfl : (hs.drop gate name).2 = gate' := congrArg (·.2.2) (Except.ok.inj h)
      exact invalid_drop_iff

end Handles

/-! ## (3) Sessions -/

namespace Registry

/-- Nor does a lookup. -/
theorem invalid_find_iff (r : Registry) (a : Address) :
    (r.find a).2.gate.Invalid ↔ r.gate.Invalid := by
  simp only [find, Regions.find]
  split
  · rfl
  · split
    · rfl
    · split <;> rfl

end Registry

namespace Workbench

variable {w w' : Workbench} {reply : RegistryReply}

/-- An addition that ends well is answered with its result. -/
theorem of_outcome_add {f : Registry → Traced (Except OutOfMemory Unit × Registry)}
    (h : (w.add f).outcome = .ok (reply, w')) : ∃ result,
      (f w.registry).outcome = .ok (result, w'.registry) ∧ reply = .added result := by
  obtain ⟨⟨result, registry⟩, hf, hlast⟩ := Traced.outcome_bind_eq_ok.1 h
  obtain ⟨rfl, rfl⟩ := Prod.mk.inj (Except.ok.inj hlast)
  exact ⟨result, hf, rfl⟩

/-- Another write that ends well is answered with nothing but that. -/
theorem of_outcome_write {f : Registry → Traced Registry}
    (h : (w.write f).outcome = .ok (reply, w')) :
    (f w.registry).outcome = .ok w'.registry ∧ reply = .done := by
  obtain ⟨registry, hf, hlast⟩ := Traced.outcome_bind_eq_ok.1 h
  obtain ⟨rfl, rfl⟩ := Prod.mk.inj (Except.ok.inj hlast)
  exact ⟨hf, rfl⟩

/-- A question leaves everything as it was. -/
theorem of_outcome_ask {x : Except Fault RegistryReply}
    (h : (w.ask x).outcome = .ok (reply, w')) : w' = w := by
  obtain ⟨asked, -, hlast⟩ := Traced.outcome_bind_eq_ok.1 h
  exact (congrArg Prod.snd (Except.ok.inj hlast)).symm

/-- Every call that ends well makes the edits that go with its reply. -/
theorem edited_of_outcome_answer {k : RegistryCall}
    (h : (answer k w).outcome = .ok (reply, w')) : ∃ regions blocks,
      k.Makes reply regions blocks ∧ w.registry.Edited regions blocks w'.registry := by
  cases k with
  | registerCode start size chain =>
    obtain ⟨result, hout, rfl⟩ := of_outcome_add h
    have hedited := Registry.edited_registerCode hout
    cases result with
    | ok _ =>
      obtain ⟨serial, hedited⟩ := hedited
      exact ⟨_, _, ⟨⟨serial, rfl⟩, rfl⟩, hedited⟩
    | error e => exact ⟨_, _, ⟨rfl, rfl⟩, hedited⟩
  | addRegion start size chain =>
    obtain ⟨result, hout, rfl⟩ := of_outcome_add h
    rw [← Registry.outcome_registerCode] at hout
    have hedited := Registry.edited_registerCode hout
    cases result with
    | ok _ =>
      obtain ⟨serial, hedited⟩ := hedited
      exact ⟨_, _, ⟨⟨serial, rfl⟩, rfl⟩, hedited⟩
    | error e => exact ⟨_, _, ⟨rfl, rfl⟩, hedited⟩
  | unregisterCode start =>
    obtain ⟨hout, rfl⟩ := of_outcome_write h
    exact ⟨_, _, ⟨rfl, rfl⟩, Registry.edited_unregisterCode hout⟩
  | clearRegions start size =>
    obtain ⟨hout, rfl⟩ := of_outcome_write h
    exact ⟨_, _, ⟨rfl, rfl⟩, Registry.edited_clearRegions hout⟩
  | clearBlocks start size =>
    obtain ⟨hout, rfl⟩ := of_outcome_write h
    exact ⟨_, _, ⟨rfl, rfl⟩, Registry.edited_clearBlocks hout⟩
  | addBlock start size depth =>
    obtain ⟨result, hout, rfl⟩ := of_outcome_add h
    have hedited := Registry.edited_addBlock hout
    cases result with
    | ok _ => exact ⟨_, _, ⟨rfl, rfl⟩, hedited⟩
    | error e => exact ⟨_, _, ⟨rfl, rfl⟩, hedited⟩
  | registerDepths start stop positions depths =>
    obtain ⟨result, hout, rfl⟩ := of_outcome_add h
    have hedited := Registry.edited_registerDepths hout
    cases result with
    | ok _ => exact ⟨_, _, ⟨rfl, rfl⟩, hedited⟩
    | error e =>
      obtain ⟨n, hn, hedited⟩ := hedited
      exact ⟨_, _, ⟨rfl, n, hn, rfl⟩, hedited⟩
  | freeBlock start stop =>
    obtain ⟨hout, rfl⟩ := of_outcome_write h
    exact ⟨_, _, ⟨rfl, rfl⟩, Registry.edited_freeBlock hout⟩
  | find a keepAs =>
    obtain ⟨⟨view, handles, gate⟩, hreceive, hlast⟩ := Traced.outcome_bind_eq_ok.1 h
    obtain ⟨rfl, rfl⟩ := Prod.mk.inj (Except.ok.inj hlast)
    have hgate := (Handles.invalid_receive_iff hreceive).trans (w.registry.invalid_find_iff a)
    exact ⟨_, _, ⟨trivial, rfl, rfl⟩, hgate, .nil _, .nil _⟩
  | handle name call =>
    obtain ⟨⟨replied, handles, gate⟩, hanswer, hlast⟩ := Traced.outcome_bind_eq_ok.1 h
    obtain ⟨rfl, rfl⟩ := Prod.mk.inj (Except.ok.inj hlast)
    have hgate := Handles.invalid_answer_iff hanswer
    exact ⟨_, _, ⟨trivial, rfl, rfl⟩, hgate, .nil _, .nil _⟩
  | depthAt a | traceback a | tracebackInto a buffer | sizes | gate =>
    rw [of_outcome_ask h]
    exact ⟨_, _, ⟨trivial, rfl, rfl⟩, .refl _⟩

/-- The maps of a registry are what some edits make of empty ones. -/
def MadeBy (w : Workbench) (edits : Edits) : Prop :=
  Contents.empty.Edited edits.regions w.registry.liveRegions ∧
    Contents.empty.Edited edits.blocks w.registry.liveBlocks

/-- Every call keeps to the edits that go with its reply. -/
theorem abstracts_answer : RegistryCall.law.Abstracts answer MadeBy where
  gate_withGate _ _ := rfl
  withGate _ h := h
  reply := by
    intro w w' edits k reply hmade hk
    obtain ⟨regions, blocks, hmakes, hedited⟩ := edited_of_outcome_answer hk
    refine ⟨hedited.gate, _, ⟨regions, blocks, hmakes, rfl⟩, ?_⟩
    exact ⟨hmade.1.trans hedited.regions, hmade.2.trans hedited.blocks⟩
  fault _ _ := trivial

/-- **What lookups find after any session** that ends without a fault. The calls and their replies
tell which edits were made. A region is live exactly if one of the edits added it and none after it
ended it, and so is a block. While the gate is clear, a lookup finds the live region with the
greatest start that is not above the address, if it contains the address, and none otherwise; the
depth comes from the live blocks in the same way. While the gate is set nothing is found. -/
theorem lookups_of_performAll (t : Tuning) {steps : List (Step RegistryCall)}
    {answers : List (Answer RegistryReply)} {s : Session Workbench}
    (h : (Session.performAll answer steps (.start (start t))).outcome = .ok (answers, s)) :
    ∃ edits : Edits, RegistryCall.law.PerformsAll ⟨[], []⟩ false steps answers edits s.isSet ∧
      (∀ k region, s.subject.registry.liveRegions k = some region ↔
        Edit.Live edits.regions k region) ∧
      (∀ k block, s.subject.registry.liveBlocks k = some block ↔
        Edit.Live edits.blocks k block) ∧
      (s.isSet = false → ∀ a,
        s.subject.registry.liveRegions.Finds Region.size a (s.subject.registry.region? a) ∧
        ∃ found, s.subject.registry.liveBlocks.Finds Block.size a found ∧
          s.subject.registry.depthAt? a = found.map (·.2.depth)) ∧
      (s.isSet = true → ∀ a,
        s.subject.registry.region? a = none ∧ s.subject.registry.depthAt? a = none) := by
  -- a session starts with empty maps, and then every call keeps to the edits of its reply
  have hempty : (start t).MadeBy ⟨[], []⟩ := by
    have hholds := Registry.holds_empty t
    refine ⟨?_, ?_⟩
    · show Contents.empty.Edited [] (Registry.empty t).liveRegions
      rw [hholds.liveRegions]
      exact .nil _
    · show Contents.empty.Edited [] (Registry.empty t).liveBlocks
      rw [hholds.liveBlocks]
      exact .nil _
  have hmeets := abstracts_answer.performAll steps (s := .start (start t)) hempty
  rw [h] at hmeets
  obtain ⟨edits, hperforms, hregions, hblocks⟩ := hmeets
  refine ⟨edits, hperforms, fun k region => hregions.eq_some_iff_live,
    fun k block => hblocks.eq_some_iff_live, fun hclear a => ?_, fun hset a => ?_⟩
  · have hgate : ¬s.subject.registry.gate.Invalid := of_decide_eq_false hclear
    exact ⟨Registry.finds_region? hgate a, Registry.finds_depthAt? hgate a⟩
  · have hgate : s.subject.registry.gate.Invalid := of_decide_eq_true hset
    rw [Registry.region?_eq, Registry.depthAt?_eq, if_pos hgate, if_pos hgate]
    exact ⟨rfl, rfl⟩

/-- Code is registered with its depth: both are found within it and not behind it. Once the gate is
set by hand nothing is found there. -/
theorem found_until_gate_set :
    let steps : List (Step RegistryCall) :=
      [.call (.registerCode 0x1000 16 [1, 0, 16, 4]), .call (.addBlock 0x1000 16 2)]
    (∃ answers s, (Session.performAll answer steps (.start (start .standard))).outcome =
        .ok (answers, s) ∧
      (∃ region, s.subject.registry.region? 0x1008 = some (0x1000, region) ∧
        s.subject.registry.liveRegions 0x1000 = some region) ∧
      (∃ k block, s.subject.registry.depthAt? 0x1008 = some block.depth ∧
        s.subject.registry.liveBlocks k = some block ∧
        Address.InRange k block.size.toUInt64 0x1008) ∧
      ∀ k region, s.subject.registry.liveRegions.IsFloor 0x1010 (some (k, region)) →
        ¬Address.InRange k region.size.toUInt64 0x1010) ∧
    ∃ answers s, (Session.performAll answer (steps ++ [.setInvalid])
        (.start (start .standard))).outcome = .ok (answers, s) ∧
      s.subject.registry.region? 0x1008 = none ∧ s.subject.registry.depthAt? 0x1008 = none := by
  intro steps
  constructor
  · have hclear : ((Session.performAll answer steps (.start (start .standard))).outcome.map
        fun p => (p.2.isSet, p.2.subject.registry.region? 0x1008,
          p.2.subject.registry.region? 0x1010, p.2.subject.registry.depthAt? 0x1008)) =
        .ok (false, some (0x1000, ⟨16, ⟨[1, 0, 16, 4]⟩, 0⟩), none, some 2) := by decide +kernel
    obtain ⟨⟨answers, s⟩, hout, hs⟩ := Traced.exists_of_map_eq_ok hclear
    simp only [Prod.mk.injEq] at hs
    obtain ⟨hgate, hregion, hbehind, hdepth⟩ := hs
    -- what the lookups yield was computed, and the theorem tells what it is
    obtain ⟨-, -, -, -, hfinds, -⟩ := lookups_of_performAll .standard hout
    obtain ⟨hfound, found, hblock, hshown⟩ := hfinds hgate 0x1008
    have hnone := (hfinds hgate 0x1010).1
    rw [hregion] at hfound
    rw [hbehind] at hnone
    refine ⟨answers, s, hout, ⟨_, hregion, hfound.1.1⟩, ?_, hnone⟩
    cases found with
    | none =>
      rw [hdepth] at hshown
      cases hshown
    | some entry => exact ⟨entry.1, entry.2, hshown, hblock.1.1, hblock.2⟩
  · have hset : ((Session.performAll answer (steps ++ [.setInvalid])
        (.start (start .standard))).outcome.map fun p => p.2.isSet) = .ok true := by decide +kernel
    obtain ⟨⟨answers, s⟩, hout, hs⟩ := Traced.exists_of_map_eq_ok hset
    obtain ⟨-, -, -, -, -, hnothing⟩ := lookups_of_performAll .standard hout
    exact ⟨answers, s, hout, hnothing hs 0x1008⟩

end Workbench

end TraceAtlas
