import TraceAtlas.Proofs.Registry.Coupling
import TraceAtlas.Proofs.Session.Alongside
import TraceAtlas.Session.Registry

/-! # Workbenches side by side

The steps of a session on a registry are those of its writer and those of its readers. On coupled
registries the writer's steps are coupled, and they touch neither the handles nor the readers that
are held.

## Main definitions
* `Tuning.Affords` : settings under which memory for all slots of a registry can be had.
* `RegistryCall.Reads`, `Step.Reads` : the calls and the steps of readers.
* `RegistryCall.additions`, `Step.additions` : the attempts to add something in a call or a step.

## Main statements
* `Workbench.coupled_answer`, `Workbench.coupled_perform` : the calls and the steps of a writer.
-/

namespace TraceAtlas

/-! ## (1) Memory -/

/-- Under these settings memory for every slot of both maps can be had. -/
structure Tuning.Affords (t : Tuning) : Prop where
  regions : (SlotPlan.ofTuning t Regions.slotBytes).Affordable
  blocks : (SlotPlan.ofTuning t DepthBlocks.slotBytes).Affordable

/-- Memory can be had unless the first chunk alone is too large. -/
theorem Tuning.affords_iff (t : Tuning) : t.Affords ↔ t.maxNodes = 0 ∨ t.chunkOrder.val ≤ 56 := by
  have hregions := SlotPlan.affordable_ofTuning_iff t (show 64 ≤ Regions.slotBytes by decide)
    (by decide)
  have hblocks := SlotPlan.affordable_ofTuning_iff t (show 64 ≤ DepthBlocks.slotBytes by decide)
    (by decide)
  exact ⟨fun h => hregions.1 h.regions, fun h => ⟨hregions.2 h, hblocks.2 h⟩⟩

/-! ## (2) Readers and writers -/

namespace RegistryCall

/-- The call is one of a reader: it looks an address up, or it asks or drops a handle. -/
def Reads : RegistryCall → Bool
  | find _ _ | depthAt _ | traceback _ | tracebackInto _ _ | handle _ _ => true
  | _ => false

/-- The attempts to add an entry. Registering depths is one for each piece of code. -/
def additions : RegistryCall → Nat
  | registerCode _ _ _ | addRegion _ _ _ | addBlock _ _ _ => 1
  | registerDepths start stop positions depths =>
    (Registry.pieces (stop - start) positions depths).length
  | _ => 0

end RegistryCall

namespace Step

/-- The step is one of a reader. -/
def Reads : Step RegistryCall → Bool
  | read _ | validate _ | release _ => true
  | call k => k.Reads
  | _ => false

/-- The attempts to add an entry in a step that is not nested. -/
def additions : Step RegistryCall → Nat
  | call k => k.additions
  | _ => 0

/-- The steps of readers have no steps nested in them. -/
theorem plain_of_reads {step : Step RegistryCall} (h : step.Reads = true) : step.Plain := by
  cases step with
  | mutate body => cases h
  | write bodies => cases h
  | _ => trivial

end Step

/-! ## (3) Calls -/

namespace Workbench

variable {C : Registry.Coupling} {lost : Fault → Prop} {n : Nat} {w w' : Workbench}
  {k : RegistryCall} {s s' : Session Workbench}

/-- Replies that are the same, from registries that are coupled afterwards, among the handles that
there were. -/
structure Answered (C : Registry.Coupling) (n : Nat) (w w' : Workbench)
    (p q : RegistryReply × Workbench) : Prop where
  reply : p.1 = q.1
  registry : p.2.registry.Coupled C n q.2.registry
  handles : p.2.handles = w.handles
  handles' : q.2.handles = w'.handles

/-- An addition on coupled registries is answered alike. -/
theorem coupled_add {f : Registry → Traced (Except OutOfMemory Unit × Registry)}
    (h : Traced.Coupled lost (fun p q => p.1 = q.1 ∧ p.2.Coupled C n q.2) (f w.registry)
      (f w'.registry)) :
    Traced.Coupled lost (Answered C n w w') (w.add f) (w'.add f) := by
  refine h.bind ?_
  rintro ⟨result, r⟩ ⟨_, r'⟩ ⟨rfl, hr⟩
  exact Traced.coupled_pure ⟨rfl, hr, rfl, rfl⟩

/-- So is another write. -/
theorem coupled_write {f : Registry → Traced Registry}
    (h : Traced.Coupled lost (Registry.Coupled C n) (f w.registry) (f w'.registry)) :
    Traced.Coupled lost (Answered C n w w') (w.write f) (w'.write f) := by
  refine h.bind fun r r' hr => ?_
  exact Traced.coupled_pure ⟨rfl, hr, rfl, rfl⟩

/-- So is a question. -/
theorem coupled_ask {reply reply' : RegistryReply} (h : w.registry.Coupled C n w'.registry)
    (hreply : reply = reply') :
    Traced.Coupled lost (Answered C n w w') (w.ask (.ok reply)) (w'.ask (.ok reply')) := by
  subst hreply
  exact Traced.coupled_pure ⟨rfl, h, rfl, rfl⟩

/-- The calls of a writer are coupled, and leave the handles alone. -/
theorem coupled_answer (hk : k.Reads = false)
    (h : w.registry.Coupled C (n + k.additions) w'.registry) :
    Traced.Coupled lost (Answered C n w w') (answer k w) (answer k w') := by
  cases k with
  | registerCode start size chain => exact coupled_add (h.registerCode start size ⟨chain⟩)
  | addRegion start size chain => exact coupled_add (h.addRegion start size ⟨chain⟩)
  | unregisterCode start => exact coupled_write (h.unregisterCode start)
  | clearRegions start size => exact coupled_write (h.clearRegions start size)
  | clearBlocks start size => exact coupled_write (h.clearBlocks start size)
  | addBlock start size depth => exact coupled_add (h.addBlock start size depth)
  | registerDepths start stop positions depths => exact coupled_add h.registerDepths
  | freeBlock start stop => exact coupled_write (h.freeBlock start stop)
  | sizes =>
    refine coupled_ask h (congrArg₂ RegistryReply.sizes ?_ ?_)
    · exact (Index.size_eq (C.regions.contents h.regions.index)).symm
    · exact (Index.size_eq (C.blocks.contents h.blocks)).symm
  | gate =>
    refine coupled_ask h (congrArg RegistryReply.gate (decide_eq_decide.2 ?_))
    exact (Gate.Coupling.invalid_iff h.gate).symm
  | find | depthAt | traceback | tracebackInto | handle => cases hk

/-! ## (4) Steps -/

/-- No reader and no handle was taken or dropped in between. -/
structure SameReaders (s s₁ : Session Workbench) : Prop where
  handles : s₁.subject.handles = s.subject.handles
  guards : s₁.guards = s.guards

/-- The steps of a writer are coupled, and leave readers and handles alone. -/
theorem coupled_perform {step : Step RegistryCall} (hplain : step.Plain)
    (hstep : step.Reads = false)
    (h : s.subject.registry.Coupled C (n + step.additions) s'.subject.registry) :
    Traced.Coupled lost (fun p q => p.1 = q.1 ∧
      p.2.subject.registry.Coupled C n q.2.subject.registry ∧ SameReaders s p.2 ∧
      SameReaders s' q.2) (Session.perform answer step s) (Session.perform answer step s') := by
  -- the gate is coupled on its own, next to the two maps
  have hgate {g g' : Gate} (hg : C.gates.Rel g g') :
      (s.withGate g).subject.registry.Coupled C (n + step.additions)
        (s'.withGate g').subject.registry := ⟨hg, h.regions, h.blocks⟩
  cases step with
  | setInvalid =>
    rw [Session.perform, Session.perform]
    refine (Gate.Coupling.setInvalid h.gate).bind fun g g' hg => ?_
    exact Traced.coupled_pure ⟨rfl, hgate hg, ⟨rfl, rfl⟩, ⟨rfl, rfl⟩⟩
  | clearInvalid =>
    rw [Session.perform, Session.perform]
    refine (Gate.Coupling.clearInvalid h.gate).bind fun g g' hg => ?_
    exact Traced.coupled_pure ⟨rfl, hgate hg, ⟨rfl, rfl⟩, ⟨rfl, rfl⟩⟩
  | isInvalid =>
    rw [Session.perform, Session.perform]
    have hinvalid : decide s.gate.Invalid = decide s'.gate.Invalid :=
      decide_eq_decide.2 (Gate.Coupling.invalid_iff h.gate).symm
    exact Traced.coupled_pure ⟨congrArg Answer.flag hinvalid, h, ⟨rfl, rfl⟩, ⟨rfl, rfl⟩⟩
  | call k =>
    rw [Session.perform, Session.perform]
    refine (coupled_answer hstep h).bind ?_
    rintro ⟨reply, w⟩ ⟨_, w'⟩ ⟨rfl, hw, hhandles, hhandles'⟩
    exact Traced.coupled_pure ⟨rfl, hw, ⟨hhandles, rfl⟩, ⟨hhandles', rfl⟩⟩
  | read | validate | release => cases hstep
  | mutate | write => exact hplain.elim

end Workbench

end TraceAtlas
