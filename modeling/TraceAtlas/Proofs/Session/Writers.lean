import TraceAtlas.Proofs.Chain.Walk
import TraceAtlas.Proofs.Session.Coupling
import TraceAtlas.Proofs.Session.Workbench

/-! # Readers do not influence the writer

A reader that is held defers the recycling of slots and the freeing of chains, so that from then on
a registry differs from one that nobody reads: in its slots, in what it keeps for the readers, and
in when it grows. As long as there is room for every addition none of this reaches an answer. A
session is compared here with the same one without its readers, that is without lookups, readers,
handles and every step on them, nested ones included: what is left are the same answers.

Whether memory can be had shows with the first addition, since no chunk is too large unless the
first one is. An index that is refused memory stays empty in both sessions. The lists of slots are
another matter: a session with readers asks for room in them more often, so it is taken for granted
that they have some.

## Main definitions
* `Index.Barren` : an index that never gets memory, so that nothing is ever added to it.
* `Index.Roomy` : an index has room for a number of further additions, whoever reads meanwhile.
* `Registry.Coupling.roomy` : the coupling of two registries with room.

## Main statements
* `Workbench.skipsOnly_of_reads` : what a step of a reader may stop at.
* `Workbench.outcomes_without_readers` : the answers to the other steps.
-/

namespace TraceAtlas

/-! ## (1) Where no memory can be had -/

/-- Nothing was ever added to an index, and memory for its first slot cannot be had. -/
structure Index.Barren {α : Type} (ix : Index α) : Prop where
  slots : ix.slots = .empty
  fails : Slots.empty.GrowthFails ix.plan

namespace Index.Barren

variable {α : Type} {ix jx : Index α}

/-- There is no entry. -/
theorem size_eq_zero (h : ix.Barren) : ix.size = 0 := by
  have hsum := ix.size_add_retired_add_free
  rw [h.slots] at hsum
  exact Nat.eq_zero_of_add_eq_zero_right (Nat.eq_zero_of_add_eq_zero_right hsum)

/-- Every addition is refused what the first one was refused. -/
theorem outcome_insert (h : ix.Barren) {e : OutOfMemory}
    (hrefused : (Slots.empty.take ix.plan).outcome = .ok (.error (.early e))) {key : Address}
    (hkey : ix.contents key = none) (value : α) :
    (ix.insert key value).outcome = .ok (.error e, ix) := by
  rw [← h.slots] at hrefused
  rw [outcome_insert_eq value (Option.map_eq_none_iff.1 hkey), hrefused]
  rfl

/-- Nothing comes of an edit: additions are refused, and there is nothing to remove. -/
theorem eq_of_edited (h : ix.Barren) {e : Edit α} {removed : List (Address × α)}
    (hedit : ix.EditedBy e removed jx) : jx = ix := by
  cases hedit with
  | add hinsert =>
    obtain ⟨e, hrefused⟩ := Slots.outcome_take_of_growthFails h.fails
    rw [h.outcome_insert hrefused (absent_of_outcome_insert hinsert)] at hinsert
    cases hinsert
  | remove hremove =>
    obtain ⟨slot, hfind, -⟩ := of_outcome_remove hremove
    exact absurd h.size_eq_zero (Nat.ne_of_gt (ix.size_pos hfind))
  | clear start length => rw [removeRange_of_empty h.size_eq_zero]

/-- It stays so over collections. -/
theorem collected (h : ix.Barren) (g : Gate) : (ix.collected g).Barren := by
  unfold Index.collected
  split
  · exact ⟨congrArg Slots.recycle h.slots, h.fails⟩
  · exact h

end Index.Barren

/-! ## (2) Room for additions -/

/-- An index has room for some further additions even if nothing is ever recycled. Either memory for
them can be had, or none of them will ever succeed. -/
structure Index.Roomy {α : Type} (t : Tuning) (slotBytes n : Nat) (ix : Index α) : Prop where
  stocked : ix.Stocked (.ofTuning t slotBytes) ix.slots.retired.length
  room : ix.contents.count + ix.slots.retired.length + n ≤ t.maxNodes.toNat
  supplied : (SlotPlan.ofTuning t slotBytes).Affordable ∨ ix.Barren

namespace Index.Roomy

variable {α : Type} {t : Tuning} {slotBytes n : Nat} {ix ix' jx : Index α}

/-- Room for one addition more is room for the others. -/
theorem weaken (h : ix.Roomy t slotBytes (n + 1)) : ix.Roomy t slotBytes n :=
  ⟨h.stocked, Nat.le_of_succ_le h.room, h.supplied⟩

/-- Two indexes with room for it accept an addition, or both are refused the same memory and stay as
they are. -/
theorem outcome_insert (h : ix.Roomy t slotBytes (n + 1)) (h' : ix'.Roomy t slotBytes (n + 1))
    (hlists : t.Ample) {key : Address} (hkey : ix.contents key = none)
    (hkey' : ix'.contents key = none) (value : α) :
    ∃ result jx jx', (ix.insert key value).outcome = .ok (result, jx) ∧
      (ix'.insert key value).outcome = .ok (result, jx') ∧
      (result ≠ .ok () → jx = ix ∧ jx' = ix') := by
  rcases h.supplied with hafford | hbarren
  · have hroom := h.room
    have hroom' := h'.room
    obtain ⟨jx, hinsert, -⟩ := h.stocked.outcome_insert_of_affordable hafford hlists hkey value
    obtain ⟨jx', hinsert', -⟩ :=
      h'.stocked.outcome_insert_of_affordable hafford hlists hkey' value
    rw [if_neg (by omega)] at hinsert hinsert'
    exact ⟨_, jx, jx', hinsert, hinsert', fun hrefused => absurd rfl hrefused⟩
  · have hbarren' : ix'.Barren := h'.supplied.resolve_left fun hafford =>
      Slots.not_growthFails_of_affordable hafford _ (h.stocked.plan_eq ▸ hbarren.fails)
    obtain ⟨e, hrefused⟩ := Slots.outcome_take_of_growthFails hbarren.fails
    have hinsert := hbarren.outcome_insert hrefused hkey value
    rw [h.stocked.plan_eq, ← h'.stocked.plan_eq] at hrefused
    exact ⟨_, ix, ix', hinsert, hbarren'.outcome_insert hrefused hkey' value, fun _ => ⟨rfl, rfl⟩⟩

/-- An edit takes room for what it adds. What it removes waits, and makes no room. -/
theorem edited {e : Edit α} {removed : List (Address × α)}
    (h : ix.Roomy t slotBytes (n + e.additions.length)) (hedit : ix.EditedBy e removed jx) :
    jx.Roomy t slotBytes n where
  stocked := (hedit.stocked h.stocked).retired ▸ hedit.stocked h.stocked
  room := by
    have hcount := hedit.count_eq
    have hroom := h.room
    rw [(hedit.stocked h.stocked).retired]
    omega
  supplied := h.supplied.imp_right fun hbarren => by
    rwa [hbarren.eq_of_edited hedit]

/-- A collection takes no room. -/
theorem collected (h : ix.Roomy t slotBytes n) (g : Gate) :
    (ix.collected g).Roomy t slotBytes n where
  stocked := (h.stocked.collected g).retired ▸ h.stocked.collected g
  room := by
    have hroom := h.room
    rw [contents_collected, (h.stocked.collected g).retired]
    split <;> omega
  supplied := h.supplied.imp_right fun hbarren => hbarren.collected g

end Index.Roomy

/-- An index without entries has room for as many as there may be. -/
theorem Index.roomy_empty (α : Type) {t : Tuning} {slotBytes n : Nat} (hlow : 64 ≤ slotBytes)
    (hhigh : slotBytes ≤ 112) (hn : n ≤ t.maxNodes.toNat) :
    (empty t slotBytes : Index α).Roomy t slotBytes n where
  stocked := stocked_empty t slotBytes
  room := by
    rw [← size_eq_count]
    show 0 + 0 + n ≤ _
    omega
  supplied := by
    by_cases hafford : (SlotPlan.ofTuning t slotBytes).Affordable
    · exact .inl hafford
    · exact .inr ⟨rfl, Slots.growthFails_empty_of_not_affordable hlow hhigh hafford⟩

/-- Indexes with the same entries and with room, behind gates that differ in their readers. -/
def Index.Coupling.roomy (α : Type) {t : Tuning} (hlists : t.Ample) (slotBytes : Nat) :
    Index.Coupling .sequences α where
  Rel n ix ix' := ix'.contents = ix.contents ∧ ix.Roomy t slotBytes n ∧ ix'.Roomy t slotBytes n
  contents h := h.1
  weaken h := ⟨h.1, h.2.1.weaken, h.2.2.weaken⟩
  admits := by
    rintro n ix ix' key value ⟨hsame, hix, hix'⟩ hkey
    exact hix.outcome_insert hix' hlists hkey (hsame ▸ hkey) value
  edited := by
    rintro n ix ix' jx jx' e removed ⟨hsame, hix, hix'⟩ hedit hedit'
    refine ⟨?_, hix.edited hedit, hix'.edited hedit'⟩
    rw [hedit'.contents_eq, hsame, hedit.contents_eq]
  collected := by
    rintro n ix ix' g g' - ⟨hsame, hix, hix'⟩
    refine ⟨?_, hix.collected g, hix'.collected g'⟩
    rw [contents_collected, contents_collected, hsame]

/-- The coupling of two registries with room, whoever reads behind their gates. -/
def Registry.Coupling.roomy {t : Tuning} (hlists : t.Ample) : Registry.Coupling where
  gates := .sequences
  regions := .roomy Region hlists Regions.slotBytes
  blocks := .roomy Block hlists DepthBlocks.slotBytes

/-- A fresh registry has room for as many additions as there may be entries. -/
theorem Registry.coupled_roomy {t : Tuning} (hlists : t.Ample) {n : Nat}
    (hn : n ≤ t.maxNodes.toNat) : (empty t).Coupled (.roomy hlists) n (empty t) := by
  have hregions : (Index.empty t Regions.slotBytes : Index Region).Roomy t Regions.slotBytes n :=
    Index.roomy_empty Region (by decide) (by decide) hn
  have hblocks : (Index.empty t DepthBlocks.slotBytes : Index Block).Roomy t
      DepthBlocks.slotBytes n := Index.roomy_empty Block (by decide) (by decide) hn
  exact ⟨rfl, ⟨rfl, rfl, rfl, rfl, hregions, hregions⟩, rfl, hblocks, hblocks⟩

/-! ## (3) Readers -/

open Chain (SkipsOnly)

namespace Handles

/-- Showing a region stops at nothing but a bad skip pointer of its chain. -/
theorem skipsOnly_view (h : RegionHandle) (gate : Gate) (a : Address) :
    SkipsOnly (h.view gate a) :=
  (h.region.chain.skipsOnly_frames _).map _

/-- So does doing with a region what a lookup asks for. -/
theorem skipsOnly_receive (hs : Handles) (gate : Gate) (a : Address) (keepAs : Option String)
    (found : Option RegionHandle) : SkipsOnly (hs.receive gate a keepAs found) := by
  cases found with
  | none => exact .ok _
  | some h =>
    refine (skipsOnly_view h gate a).bind fun view => ?_
    cases keepAs <;> exact .ok _

/-- So does every call of a handle. -/
theorem skipsOnly_answer (hs : Handles) (gate : Gate) (name : String) (call : HandleCall) :
    SkipsOnly (hs.answer gate name call) := by
  unfold answer
  split
  · exact .ok _
  · rename_i h _
    cases call with
    | view a => exact (skipsOnly_view h gate a).bind fun view => .ok _
    | nextFrame a cursor =>
      exact (h.region.chain.skipsOnly_nextFrame _ cursor).bind fun found => .ok _
    | pull a calls => exact (h.region.chain.skipsOnly_pull _ 0 calls).bind fun pulled => .ok _
    | isConsistent | release => exact .ok _

end Handles

namespace Registry

/-- Listing the frames at an address stops at nothing else. -/
theorem skipsOnly_traceback (r : Registry) (a : Address) : SkipsOnly (r.traceback a) := by
  unfold traceback
  split
  · exact .ok _
  · exact (Chain.skipsOnly_frames _ _).map _

/-- Nor does filling a buffer with them. -/
theorem skipsOnly_tracebackInto (r : Registry) (a : Address) (buffer : List FrameId) :
    SkipsOnly (r.tracebackInto a buffer) := by
  unfold tracebackInto
  split
  · exact .ok _
  · exact (Chain.skipsOnly_fill _ _ 0 buffer).map _

end Registry

namespace Workbench

variable {t : Tuning} {w : Workbench} {k : RegistryCall} {s : Session Workbench}
  {step : Step RegistryCall}

/-- The calls of readers look. -/
theorem looks_of_reads (hk : k.Reads = true) : k.Looks := by
  cases k with
  | find | depthAt | traceback | tracebackInto | handle => trivial
  | _ => cases hk

/-- What leaves no notice, and is followed by something that ends well, stops where it stops. -/
theorem skipsOnly_lift {α β : Type} {x : Except Fault α} (h : SkipsOnly x) (f : α → β) :
    SkipsOnly (Traced.lift x >>= fun a => pure (f a)).outcome := by
  cases x with
  | error e => exact .error (h e rfl)
  | ok a => exact .ok _

/-- The call of a reader stops at nothing but a bad skip pointer of a chain. -/
theorem skipsOnly_of_reads (hk : k.Reads = true) (w : Workbench) :
    SkipsOnly (answer k w).outcome := by
  cases k with
  | find a keepAs => exact skipsOnly_lift (w.handles.skipsOnly_receive _ a keepAs _) _
  | depthAt a => exact .ok _
  | traceback a => exact skipsOnly_lift ((w.registry.skipsOnly_traceback a).map _) _
  | tracebackInto a buffer =>
    exact skipsOnly_lift ((w.registry.skipsOnly_tracebackInto a buffer).map _) _
  | handle name call => exact skipsOnly_lift (w.handles.skipsOnly_answer _ name call) _
  | _ => cases hk

/-- The registry of a session apart from the count of readers on its gate. -/
def Unmoved (s s₁ : Session Workbench) : Prop :=
  ∃ readers, s₁.subject.registry =
    { s.subject.registry with gate := ⟨s.subject.registry.gate.sequence, readers⟩ }

/-- Dropping a reader moves nothing else. -/
theorem unmoved_drop (s : Session Workbench) (name : String) : Unmoved s (s.drop name) := by
  unfold Session.drop
  split
  · exact ⟨_, rfl⟩
  · exact ⟨_, rfl⟩

/-- The step of a reader moves nothing but readers, and stops at nothing but a bad skip pointer. -/
theorem unmoved_of_reads (hstep : step.Reads = true) (s : Session Workbench) :
    Traced.Coupled (· = .backwardSkip) (fun p (_ : Unit) => Unmoved s p.2)
      (Session.perform answer step s) (pure ()) := by
  cases step with
  | read name =>
    rw [Session.perform]
    exact Traced.coupled_pure (unmoved_drop (s.withGate s.gate.read.2) name)
  | validate name =>
    rw [Session.perform]
    split
    · exact Traced.coupled_pure ⟨_, rfl⟩
    · exact Traced.coupled_pure ⟨_, rfl⟩
  | release name =>
    rw [Session.perform]
    split
    · exact Traced.coupled_pure ⟨_, rfl⟩
    · exact Traced.coupled_pure (unmoved_drop s name)
  | call k =>
    rw [Session.perform]
    -- a lookup may run into a bad skip, and that is the one fault that it can end in
    cases hout : (answer k s.subject).outcome with
    | error e =>
      have he := skipsOnly_of_reads hstep s.subject e hout
      exact .of_lost (Traced.outcome_bind_of_error hout _) he
    | ok p =>
      have hcall : answer k s.subject = ⟨(answer k s.subject).notices, .ok p⟩ := by rw [← hout]
      obtain ⟨-, hlooked⟩ := looked_of_answer (looks_of_reads hstep) hcall
      exact .of_ok (Traced.outcome_bind_of_ok hout _) rfl hlooked.exists_readers
  | setInvalid | clearInvalid | isInvalid | mutate | write => cases hstep

/-! ## (4) Sessions -/

/-- Sessions on coupled registries with room for some further additions, whoever reads in them. -/
def Accompanied (hlists : t.Ample) (n : Nat) (s s' : Session Workbench) : Prop :=
  s.subject.registry.Coupled (.roomy hlists) n s'.subject.registry

/-- A session without readers keeps up with one that has some. -/
theorem accompanies_without_readers (hlists : t.Ample) :
    Session.Accompanies answer Step.Reads Step.additions (· = .backwardSkip)
      (Accompanied hlists) where
  opens := rfl
  closes := rfl
  plain := Step.plain_of_reads
  dropped step n s s' hstep hs := by
    refine (unmoved_of_reads hstep s).mono fun p _ ⟨readers, hregistry⟩ => ?_
    -- what the reader did shows in nothing but the count of readers
    rw [Accompanied, hregistry]
    exact ⟨hs.gate, hs.weaken.regions, hs.weaken.blocks⟩
  kept step n s s' hplain hstep hs := by
    refine (coupled_perform hplain hstep hs).mono fun p q ⟨heq, hregistry, _⟩ => ?_
    exact ⟨heq, hregistry⟩

/-- **Readers do not influence the writer.** Compare a session with the same one without lookups,
readers and handles and the steps on them, nested steps included. If there may be as many entries as
there are attempts to add one in the steps that are performed, then the outcomes of the second
session begin with those of the remaining steps of the first one. They are the same unless the first
session ends with a lookup that follows a bad skip pointer. The lists of slots always have room; it
does not matter whether other memory can be had: if the first chunk of a map is refused in one
session, so it is in the other, and a region is turned away in both or in neither. -/
theorem outcomes_without_readers (t : Tuning) (hlists : t.Ample)
    (steps : List (Step RegistryCall)) :
    let outs := (run t steps).map (·.outcome)
    ((Step.plainAll (steps.take outs.length)).map Step.additions).sum ≤ t.maxNodes.toNat →
    ∃ rest, (run t (Step.withoutAll Step.Reads steps)).map (·.outcome) =
        Step.keptOutcomes Step.Reads (· = .backwardSkip) steps outs ++ rest ∧
      (.error .backwardSkip ∉ outs → rest = []) := by
  intro outs hroom
  rw [← Nat.zero_add (List.sum _)] at hroom
  have hstart : Accompanied hlists _ (.start (start t)) (.start (start t)) :=
    Registry.coupled_roomy hlists hroom
  obtain ⟨rest, hrest, hend⟩ := (accompanies_without_readers hlists).outcomes_eq steps hstart
  refine ⟨rest, hrest, fun hskip => hend fun e he hlost => hskip ?_⟩
  exact hlost ▸ he

/-- A region is found and its handle kept, a reader is held, and the code is freed and registered
anew, so that its first chain and the first slots of both maps are not reused. The writer gets the
answers that it gets without the handle, the reader and the lookups. -/
theorem code_replaced_under_readers :
    let t : Tuning := { maxNodes := 5 }
    let steps : List (Step RegistryCall) :=
      [.call (.registerCode 0x1000 64 []), .call (.find 0x1010 (some "h")), .read "g",
        .call (.addBlock 0x1000 16 1), .call (.freeBlock 0x1000 0x1040),
        .call (.registerCode 0x1000 32 []), .call (.handle "h" (.view 0x1010)),
        .mutate [.read "m", .isInvalid, .call (.depthAt 0x1000)],
        .call (.registerDepths 0x1000 0x1020 [0, 16] [1, 2]), .call .sizes, .release "g"]
    (run t (Step.withoutAll Step.Reads steps)).map (·.outcome) =
      Step.keptOutcomes Step.Reads (· = .backwardSkip) steps ((run t steps).map (·.outcome)) ∧
    (run t (Step.withoutAll Step.Reads steps)).length = 7 := by
  intro t steps
  have hall : ((run t steps).map (·.outcome)).all (·.isOk) = true := by decide +kernel
  obtain ⟨rest, hrest, hend⟩ :=
    outcomes_without_readers t (fun _ _ => rfl) steps (by decide +kernel)
  have hnone : rest = [] := hend fun hskip => by
    have := List.all_eq_true.1 hall _ hskip
    cases this
  rw [hnone, List.append_nil] at hrest
  exact ⟨hrest, by decide +kernel⟩

end Workbench

end TraceAtlas
