import TraceAtlas.Proofs.Session.Coupling

/-! # Settings that nobody notices

The height bound, the seed and the length of the first chunk of a registry decide where its entries
lie and when its maps grow, so that registries under different settings look alike at no moment. But
an addition is refused as soon as the entries and the removed ones that wait are as many as there
may be, and where they lie has no part in that. So the answers of a session depend on the number of
entries that there may be, and on nothing else, as long as memory can be had. The list of removed
regions does not depend on the settings: it is only taken to have room under both or under neither.

## Main definitions
* `Tuning.Supplies` : settings and surroundings under which memory for slots can be had.
* `Index.Coupling.ofTunings`, `Registry.Coupling.ofTunings` : the coupling of two settings.
* `Workbench.Alike` : sessions that differ in nothing that is answered.

## Main statements
* `Workbench.outcomes_eq_of_maxNodes_eq` : sessions under two settings come to the same.
-/

namespace TraceAtlas

/-! ## (1) The coupling of two settings -/

section Coupling

variable {t t' : Tuning}

/-- Under these settings, and in these surroundings, memory for every slot of both maps can be had,
and room for it in the lists of slots. -/
structure Tuning.Supplies (t : Tuning) : Prop where
  slots : t.Affords
  lists : t.Ample

/-- Under two settings that allow for as many entries, indexes have the same entries, and of their
slots as many wait. -/
def Index.Coupling.ofTunings (α : Type) {slotBytes : Nat} (hmax : t'.maxNodes = t.maxNodes)
    (h : (SlotPlan.ofTuning t slotBytes).Affordable)
    (h' : (SlotPlan.ofTuning t' slotBytes).Affordable) (hlists : t.Ample) (hlists' : t'.Ample) :
    Index.Coupling .same α where
  Rel _ ix ix' := ix'.contents = ix.contents ∧ ∃ waiting,
    ix.Stocked (.ofTuning t slotBytes) waiting ∧ ix'.Stocked (.ofTuning t' slotBytes) waiting
  contents hrel := hrel.1
  weaken hrel := hrel
  admits := by
    rintro n ix ix' key value ⟨hsame, waiting, hix, hix'⟩ hkey
    obtain ⟨jx, hinsert, hfull⟩ := hix.outcome_insert_of_affordable h hlists hkey value
    obtain ⟨jx', hinsert', hfull'⟩ :=
      hix'.outcome_insert_of_affordable h' hlists' (hsame ▸ hkey) value
    rw [hsame, hmax] at hinsert' hfull'
    refine ⟨_, jx, jx', hinsert, hinsert', fun hrefused => ?_⟩
    -- only a map that is full refuses
    have hreached : ix.contents.count + waiting = t.maxNodes.toNat := by
      by_contra hroom
      exact hrefused (if_neg hroom)
    exact ⟨hfull hreached, hfull' hreached⟩
  edited := by
    rintro n ix ix' jx jx' e removed ⟨hsame, waiting, hix, hix'⟩ hedit hedit'
    refine ⟨?_, waiting + removed.length, hedit.stocked hix, hedit'.stocked hix'⟩
    rw [hedit'.contents_eq, hsame, hedit.contents_eq]
  collected := by
    rintro n ix ix' g g' rfl ⟨hsame, waiting, hix, hix'⟩
    refine ⟨?_, _, hix.collected g', hix'.collected g'⟩
    rw [contents_collected, contents_collected, hsame]

/-- The coupling of registries under two settings. -/
def Registry.Coupling.ofTunings (hmax : t'.maxNodes = t.maxNodes) (h : t.Supplies)
    (h' : t'.Supplies) : Registry.Coupling where
  gates := .same
  regions := .ofTunings Region hmax h.slots.regions h'.slots.regions h.lists h'.lists
  blocks := .ofTunings Block hmax h.slots.blocks h'.slots.blocks h.lists h'.lists

/-- Nothing is registered under either of two settings at first. -/
theorem Registry.coupled_ofTunings (hmax : t'.maxNodes = t.maxNodes) (h : t.Supplies)
    (h' : t'.Supplies) (hlist : t'.regionList = t.regionList) (n : Nat) :
    (empty t).Coupled (.ofTunings hmax h h') n (empty t') where
  gate := rfl
  regions := ⟨rfl, hlist, rfl, rfl, 0, Index.stocked_empty t _, Index.stocked_empty t' _⟩
  blocks := ⟨rfl, 0, Index.stocked_empty t _, Index.stocked_empty t' _⟩

end Coupling

/-! ## (2) Readers -/

namespace Workbench

section Alike

variable {t t' : Tuning} (hmax : t'.maxNodes = t.maxNodes) (ht : t.Supplies) (ht' : t'.Supplies)

/-- Sessions under two settings that differ in nothing that is answered: their registries are
coupled, their gates are the same, and so are the readers and the handles that are held. -/
structure Alike (s s' : Session Workbench) : Prop where
  registry : s.subject.registry.Coupled (.ofTunings hmax ht ht') 0 s'.subject.registry
  readers : SameReaders s s'

namespace Alike

variable {hmax ht ht'} {lost : Fault → Prop} {s s' : Session Workbench} {name : String}
  {step : Step RegistryCall}

/-- Alike sessions have the same gate. -/
theorem gate (h : Alike hmax ht ht' s s') : s'.gate = s.gate := h.registry.gate

/-- They stay alike when a gate is put in place in both. -/
theorem withGate (h : Alike hmax ht ht' s s') (g : Gate) :
    Alike hmax ht ht' (s.withGate g) (s'.withGate g) where
  registry := ⟨rfl, h.registry.regions, h.registry.blocks⟩
  readers := ⟨h.readers.handles, h.readers.guards⟩

/-- They stay alike when a reader is dropped in both. -/
theorem drop (h : Alike hmax ht ht' s s') (name : String) :
    Alike hmax ht ht' (s.drop name) (s'.drop name) := by
  unfold Session.drop Session.held?
  rw [h.readers.guards, h.gate]
  split
  · exact h
  · exact ⟨(h.withGate _).registry, h.readers.handles, rfl⟩

/-- Taking a reader gives the same one in both, and they stay alike. -/
theorem read (h : Alike hmax ht ht' s s') (name : String) :
    (s'.read name).1 = (s.read name).1 ∧ Alike hmax ht ht' (s.read name).2 (s'.read name).2 := by
  have hguard : (s'.read name).1 = (s.read name).1 := by
    show s'.gate.read.1 = s.gate.read.1
    rw [h.gate]
  have hdrop : Alike hmax ht ht' ((s.withGate s.gate.read.2).drop name)
      ((s'.withGate s'.gate.read.2).drop name) := by
    rw [h.gate]
    exact (h.withGate _).drop name
  refine ⟨hguard, hdrop.registry, hdrop.readers.handles, ?_⟩
  exact congrArg₂ (fun guard guards => (name, guard) :: guards) hguard hdrop.readers.guards

/-- The calls of readers come to the same. -/
theorem call (h : Alike hmax ht ht' s s') {k : RegistryCall} (hk : k.Reads = true) :
    Traced.Coupled lost (fun p q => p.1 = q.1 ∧
      Alike hmax ht ht' { s with subject := p.2 } { s' with subject := q.2 })
      (answer k s.subject) (answer k s'.subject) := by
  obtain ⟨⟨⟨_, m, b⟩, _⟩, _⟩ := s
  obtain ⟨⟨⟨g, m', b'⟩, hs⟩, guards⟩ := s'
  obtain ⟨⟨rfl, hregions, hblocks⟩, rfl, rfl⟩ := h
  -- the gates and what is held may move, as long as they move together
  have hmoved (g : Gate) (hs : Handles) :
      Alike hmax ht ht' ⟨⟨⟨g, m, b⟩, hs⟩, guards⟩ ⟨⟨⟨g, m', b'⟩, hs⟩, guards⟩ :=
    ⟨⟨rfl, hregions, hblocks⟩, rfl, rfl⟩
  have hfind := Regions.find_eq hregions.index.1
  have hdepth := DepthBlocks.depthAt?_eq hblocks.1
  have hask {reply reply' : Except Fault RegistryReply} (hreply : reply = reply') :
      Traced.Coupled lost (fun p q => p.1 = q.1 ∧
        Alike hmax ht ht' ⟨p.2, guards⟩ ⟨q.2, guards⟩) (ask ⟨⟨g, m, b⟩, hs⟩ reply)
        (ask ⟨⟨g, m', b'⟩, hs⟩ reply') := by
    rw [hreply]
    refine (Traced.coupled_lift reply').bind ?_
    rintro a _ rfl
    exact Traced.coupled_pure ⟨rfl, hmoved _ _⟩
  cases k with
  | find a keepAs =>
    simp only [answer, Registry.find, hfind]
    refine (Traced.coupled_lift _).bind ?_
    rintro ⟨view, hs, g⟩ _ rfl
    exact Traced.coupled_pure ⟨rfl, hmoved g hs⟩
  | handle name call =>
    refine (Traced.coupled_lift _).bind ?_
    rintro ⟨reply, hs, g⟩ _ rfl
    exact Traced.coupled_pure ⟨rfl, hmoved g hs⟩
  | depthAt a =>
    exact hask (congrArg (Except.ok ∘ RegistryReply.depth) (hdepth g a).symm)
  | traceback a =>
    refine hask (congrArg (Except.map RegistryReply.frames) ?_)
    simp only [Registry.traceback, Registry.find, hfind]
    cases (m.find g a).1 <;> rfl
  | tracebackInto a buffer =>
    refine hask (congrArg (Except.map _) ?_)
    simp only [Registry.tracebackInto, Registry.find, hfind]
    cases (m.find g a).1 <;> rfl
  | registerCode | addRegion | unregisterCode | clearRegions | clearBlocks | addBlock
  | registerDepths | freeBlock | sizes | gate => cases hk

/-- The steps of readers come to the same. -/
theorem perform (h : Alike hmax ht ht' s s') (hstep : step.Reads = true) :
    Traced.Coupled lost (fun p q => p.1 = q.1 ∧ Alike hmax ht ht' p.2 q.2)
      (Session.perform answer step s) (Session.perform answer step s') := by
  cases step with
  | read name =>
    obtain ⟨hguard, hread⟩ := h.read name
    rw [Session.perform, Session.perform]
    refine Traced.coupled_pure ⟨congrArg Answer.reader (decide_eq_decide.2 ?_), hread⟩
    show (s.read name).1.Valid (s.read name).2.gate ↔ (s'.read name).1.Valid (s'.read name).2.gate
    -- the two gates count the same steps, so a reader is valid in both or in neither
    rw [hguard, hread.gate]
  | validate name =>
    rw [Session.perform, Session.perform, Session.held?, Session.held?, h.readers.guards]
    split
    · exact Traced.coupled_pure ⟨rfl, h⟩
    · rw [h.gate]
      exact Traced.coupled_pure ⟨rfl, h⟩
  | release name =>
    rw [Session.perform, Session.perform, Session.held?, Session.held?, h.readers.guards]
    split
    · exact Traced.coupled_pure ⟨rfl, h⟩
    · exact Traced.coupled_pure ⟨rfl, h.drop name⟩
  | call k =>
    rw [Session.perform, Session.perform]
    refine (h.call hstep).bind ?_
    rintro ⟨reply, w⟩ ⟨_, w'⟩ ⟨rfl, hw⟩
    exact Traced.coupled_pure ⟨rfl, hw⟩
  | setInvalid | clearInvalid | isInvalid | mutate | write => cases hstep

/-- Registries under two settings admit any number of additions. -/
theorem coupled (h : Alike hmax ht ht' s s') (n : Nat) :
    s.subject.registry.Coupled (.ofTunings hmax ht ht') n s'.subject.registry :=
  ⟨h.registry.gate, ⟨h.registry.regions.issued, h.registry.regions.list, h.registry.regions.asked,
    h.registry.regions.index⟩, h.registry.blocks⟩

end Alike

/-- Every step keeps sessions under two settings alike. -/
theorem accompanies : Session.Accompanies answer (fun _ => false) (fun _ => 0) (fun _ => False)
    fun _ => Alike hmax ht ht' where
  opens := rfl
  closes := rfl
  plain := nofun
  dropped := nofun
  kept step n s s' hplain _ h := by
    by_cases hstep : step.Reads = true
    · exact h.perform hstep
    · rw [Bool.not_eq_true] at hstep
      refine (coupled_perform hplain hstep (h.coupled (0 + step.additions))).mono ?_
      rintro p q ⟨heq, hregistry, hsame, hsame'⟩
      refine ⟨heq, hregistry, ?_, ?_⟩
      · rw [hsame'.handles, hsame.handles, h.readers.handles]
      · rw [hsame'.guards, hsame.guards, h.readers.guards]

end Alike

variable {t t' : Tuning}

/-! ## (3) Sessions -/

/-- **Settings that nobody notices.** Two settings allow for as many entries, and under neither of
them is memory for slots or for the lists of slots ever refused; room in the list of removed regions
may be refused, but under both alike. Then every list of steps comes to the same under both: the
same answers in the same order, refused additions and the bytes that they name among them, up to the
same fault. -/
theorem outcomes_eq_of_maxNodes_eq (hmax : t.maxNodes = t'.maxNodes) (ht : t.Affords)
    (ht' : t'.Affords) (hlists : t.Ample) (hlists' : t'.Ample)
    (hregions : t.regionList = t'.regionList) (steps : List (Step RegistryCall)) :
    (run t steps).map (·.outcome) = (run t' steps).map (·.outcome) := by
  have hstart : Alike hmax.symm ⟨ht, hlists⟩ ⟨ht', hlists'⟩ (.start (start t))
      (.start (start t')) :=
    ⟨Registry.coupled_ofTunings hmax.symm ⟨ht, hlists⟩ ⟨ht', hlists'⟩ hregions.symm 0, rfl, rfl⟩
  exact ((accompanies hmax.symm ⟨ht, hlists⟩ ⟨ht', hlists'⟩).outcomes_eq_of_none steps hstart).symm

/-- There may be two blocks. One is cleared while somebody reads, and a third one is refused until
the reader is gone and something else is cleared, whether the first chunk holds one slot or 64 and
however high the search structure may be. -/
theorem third_block_refused_under_both :
    let t : Tuning := { maxNodes := 2 }
    let t' : Tuning := { maxNodes := 2, maxHeight := ⟨1, by decide⟩, chunkOrder := 0, seed := 7 }
    let steps : List (Step RegistryCall) :=
      [.call (.addBlock 0x1000 16 1), .read "g", .call (.clearBlocks 0x1000 16),
        .call (.addBlock 0x2000 16 2), .call (.addBlock 0x3000 16 3), .release "g",
        .call (.addBlock 0x3000 16 3), .call (.clearBlocks 0x2000 16),
        .call (.addBlock 0x3000 16 3)]
    t.Affords ∧ t'.Affords ∧ t.Ample ∧ t'.Ample ∧
    (run t steps).map (·.outcome) = (run t' steps).map (·.outcome) ∧
    ((run t steps).map fun out => match out.outcome with
      | .ok (.reply (.added (.error e))) => some e.bytes
      | _ => none) = [none, none, none, none, some 80, none, some 80, none, none] := by
  intro t t' steps
  have hmax : t.maxNodes = t'.maxNodes := rfl
  have ht : t.Affords := t.affords_iff.2 (.inr (by decide))
  have ht' : t'.Affords := t'.affords_iff.2 (.inr (by decide))
  have hlists : t.Ample := fun _ _ => rfl
  have hlists' : t'.Ample := fun _ _ => rfl
  exact ⟨ht, ht', hlists, hlists',
    outcomes_eq_of_maxNodes_eq hmax ht ht' hlists hlists' rfl steps, by decide +kernel⟩

end Workbench

end TraceAtlas
