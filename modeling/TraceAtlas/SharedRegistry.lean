import TraceAtlas.Registry

/-! # The process-wide registry

A process has one registry that compiler and profiler share without handing it to each other.
Writers bring it into being with the standard settings, unless it was set up with others before;
readers never do, and find nothing as long as there is none.

## Main definitions
* `SharedRegistry` : the registry, if it exists.
* `SharedRegistry.setUp` : creates it with given settings.
* `SharedRegistry.writing` : what a writer works on.
-/

namespace TraceAtlas

/-- The registry of a process, if it exists. -/
structure SharedRegistry where
  registry? : Option Registry

/-- The refusal to set up a registry that exists. -/
inductive AlreadySetUp where
  | alreadySetUp
  deriving DecidableEq, Repr

namespace AlreadySetUp

/-- The refusal in words. -/
def message : AlreadySetUp → String
  | alreadySetUp => "the global code registry has already been initialized"

end AlreadySetUp

namespace SharedRegistry

variable {α : Type}

/-- No registry yet. -/
def absent : SharedRegistry := ⟨none⟩

/-- Creates the registry with given settings, unless it exists. -/
def setUp (s : SharedRegistry) (t : Tuning) :
    Traced (Except AlreadySetUp Unit × SharedRegistry) := do
  match s.registry? with
  | some _ => return (.error .alreadySetUp, s)
  | none =>
    Traced.note (.settingUp t)
    return (.ok (), ⟨some (.empty t)⟩)

/-- The registry that a writer works on: the one there is, else one with the standard settings. -/
def writing (s : SharedRegistry) (given : Surroundings) : Registry :=
  s.registry?.getD (.empty (.standard given))

/-- Lets a writer work on the registry. -/
def write (s : SharedRegistry) (given : Surroundings) (f : Registry → Traced (α × Registry)) :
    Traced (α × SharedRegistry) := do
  let (a, r) ← f (s.writing given)
  return (a, ⟨some r⟩)

/-- Finds the region that contains an address, if there is a registry. -/
def find (s : SharedRegistry) (a : Address) : Option RegionHandle × SharedRegistry :=
  match s.registry? with
  | none => (none, s)
  | some r =>
    let (handle, r) := r.find a
    (handle, ⟨some r⟩)

/-- The stack depth at an address, if there is a registry. -/
def depthAt? (s : SharedRegistry) (a : Address) : Option UInt32 :=
  s.registry?.bind (·.depthAt? a)

/-- Whether a mutation is under way; not if there is no registry. -/
def Invalid (s : SharedRegistry) : Prop :=
  ∃ r, s.registry? = some r ∧ r.gate.Invalid

instance (s : SharedRegistry) : Decidable s.Invalid :=
  match h : s.registry? with
  | none => isFalse fun ⟨_, hr, _⟩ => by simp [h] at hr
  | some r =>
    if hi : r.gate.Invalid then isTrue ⟨r, h, hi⟩
    else isFalse fun ⟨r', hr, hi'⟩ => hi (by simp only [h, Option.some.injEq] at hr; exact hr ▸ hi')

end SharedRegistry

end TraceAtlas
