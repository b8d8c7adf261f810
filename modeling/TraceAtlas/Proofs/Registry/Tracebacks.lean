import TraceAtlas.Proofs.Chain.Checked
import TraceAtlas.Proofs.Chain.Skips
import TraceAtlas.Proofs.Lookup

/-! # Ways to read a traceback

Whoever wants the frames at an address may find the region and step through its chain himself, may
have all frames collected, or may have a buffer filled that holds only so many. All three ask the
chain for one frame after the other, and they stop for different reasons: at a miss, or when the
buffer is full. Here they are compared with the frames that steps yield, whatever the buffer is.

## Main definitions
* `Yields` : what a step yields if it is repeated until it misses.

## Main statements
* `Chain.framesFrom_eq_ok_iff` : a walk collects what its steps yield.
* `Chain.fill_of_yields` : a buffer is filled with as much of it as it holds.
* `Registry.tracebacks_agree` : the three ways, at every address.
-/

namespace TraceAtlas

/-! ## (1) Repeated steps -/

/-- A step that is repeated, each time from the cursor that it gave last, yields some frames before
it misses for the first time. -/
inductive Yields (step : Nat → Except Fault Found) : Nat → List FrameId → Prop
  | miss {cursor after : Nat} : step cursor = .ok (none, after) → Yields step cursor []
  | hit {cursor after : Nat} {f : FrameId} {fs : List FrameId} :
    step cursor = .ok (some f, after) → Yields step after fs → Yields step cursor (f :: fs)

namespace Chain

variable {c : Chain} {offset cursor : Nat} {fs : List FrameId}

/-- A walk yields the frames that its steps hit. -/
theorem yields_of_walk {steps : List Found} (h : c.walk offset cursor = .ok steps) :
    Yields (c.nextFrame offset) cursor (steps.filterMap (·.1)) := by
  fun_induction walk c offset cursor generalizing steps with
  | case1 => cases h
  | case2 cursor after hmiss =>
    obtain rfl := Except.ok.inj h
    exact .miss hmiss
  | case3 cursor f after hhit ih =>
    cases hrest : c.walk offset after with
    | error e =>
      rw [hrest] at h
      cases h
    | ok rest =>
      rw [hrest] at h
      obtain rfl := Except.ok.inj h
      exact .hit hhit (ih hrest)

/-- A walk collects exactly what its steps yield. -/
theorem framesFrom_eq_ok_iff :
    c.framesFrom offset cursor = .ok fs ↔ Yields (c.nextFrame offset) cursor fs := by
  constructor
  · intro h
    rw [framesFrom] at h
    cases hwalk : c.walk offset cursor with
    | error e =>
      rw [hwalk] at h
      cases h
    | ok steps =>
      rw [hwalk] at h
      obtain rfl := Except.ok.inj h
      exact yields_of_walk hwalk
  · intro h
    induction h with
    | miss hmiss => exact framesFrom_of_miss hmiss
    | hit hhit _ ih =>
      rw [framesFrom_of_hit hhit, ih]
      rfl

/-- A buffer is filled from the front with what steps yield, as far as it goes, and keeps what it
held behind that. -/
theorem fill_of_yields (h : Yields (c.nextFrame offset) cursor fs) (buffer : List FrameId) :
    c.fill offset cursor buffer = .ok (min buffer.length fs.length,
      fs.take (min buffer.length fs.length) ++ buffer.drop (min buffer.length fs.length)) := by
  induction h generalizing buffer with
  | miss hmiss =>
    cases buffer with
    | nil => rfl
    | cons old room =>
      rw [fill, hmiss]
      rfl
  | @hit cursor after f fs hhit _ ih =>
    cases buffer with
    | nil =>
      -- the buffer is full, and the chain is not asked for what it still has
      rw [List.length_nil, Nat.zero_min]
      rfl
    | cons old room =>
      rw [fill, hhit, List.length_cons, List.length_cons, Nat.succ_min_succ]
      simp only [ih room]
      rfl

end Chain

/-! ## (2) Asking a handle -/

namespace RegionHandle

/-- A handle gives the frames that it yields to somebody who steps through its chain. -/
theorem frames_eq_ok_iff {handle : RegionHandle} {a : Address} {fs : List FrameId} :
    handle.frames a = .ok fs ↔ Yields (handle.nextFrame a) 0 fs := Chain.framesFrom_eq_ok_iff

/-- The chain of a handle that passed the check shows its frames at every address. -/
theorem exists_frames_of_check (handle : RegionHandle) {regionSize : UInt32}
    (hcheck : handle.region.chain.check regionSize = .ok ()) (a : Address) :
    ∃ frames, handle.frames a = .ok frames := by
  obtain ⟨steps, hwalk⟩ := Chain.exists_walk_of_check hcheck (handle.offsetOf a) 0
  rw [Nat.mul_zero] at hwalk
  exact ⟨_, by rw [frames, Chain.frames, hwalk]; rfl⟩

end RegionHandle

/-! ## (3) Asking the registry -/

namespace Registry

variable {r : Registry} {a : Address}

/-- While nothing is written, a handle that was found stays consistent. -/
theorem consistent_of_find {handle : RegionHandle} {r' : Registry}
    (h : r.find a = (some handle, r')) : handle.Consistent r'.gate := by
  simp only [find, Regions.find] at h
  split at h
  · cases h
  · split at h
    · cases h
    · split at h
      · -- the guard was looked at when the region was handed out, and the gate is the same
        rename_i hvalid
        obtain ⟨hhandle, rfl⟩ := Prod.mk.inj h
        obtain rfl := Option.some.inj hhandle
        exact hvalid
      · cases h

/-- Without a region there are no frames, and a buffer stays as it is. -/
theorem tracebacks_of_find_none (h : (r.find a).1 = none) : r.traceback a = .ok [] ∧
    ∀ buffer, r.tracebackInto a buffer = .ok (none, buffer) := by
  have hfind : r.find a = (none, (r.find a).2) := Prod.ext h rfl
  constructor
  · rw [traceback, hfind]
  · intro buffer
    rw [tracebackInto, hfind]

/-- With a region the registry gives what its handle gives. -/
theorem traceback_of_find {handle : RegionHandle} (h : (r.find a).1 = some handle) :
    r.traceback a = handle.frames a := by
  have hfind : r.find a = (some handle, (r.find a).2) := Prod.ext h rfl
  rw [traceback, hfind]
  simp only [if_pos (consistent_of_find hfind)]
  cases handle.frames a <;> rfl

/-- A buffer is filled from the chain of the region. -/
theorem tracebackInto_of_find {handle : RegionHandle} (h : (r.find a).1 = some handle)
    (buffer : List FrameId) : r.tracebackInto a buffer =
      (handle.region.chain.fill (handle.offsetOf a) 0 buffer).map fun p => (some p.1, p.2) := by
  have hfind : r.find a = (some handle, (r.find a).2) := Prod.ext h rfl
  rw [tracebackInto, hfind]
  simp only [if_pos (consistent_of_find hfind)]

/-- **The ways to read a traceback agree**, behind a clear gate and behind a set one, at every
address at which no region is found or one with a chain that passes the check. Where none is found,
there are no frames and a buffer stays as it is. Where one is found, its chain comes to an end, and
what its handle gives, be it asked for all frames or step by step, is what the registry gives; a
buffer takes as much of it from the front as it holds and keeps its other words. -/
theorem tracebacks_agree (r : Registry) (a : Address)
    (hcheck : ∀ handle, (r.find a).1 = some handle →
      ∃ regionSize, handle.region.chain.check regionSize = .ok ()) :
    ((r.find a).1 = none → r.traceback a = .ok [] ∧
      ∀ buffer, r.tracebackInto a buffer = .ok (none, buffer)) ∧
    ∀ handle, (r.find a).1 = some handle → ∃ frames, handle.frames a = .ok frames ∧
      (∀ fs, Yields (handle.nextFrame a) 0 fs ↔ fs = frames) ∧ r.traceback a = .ok frames ∧
      ∀ buffer, ∃ n, n = min buffer.length frames.length ∧
        r.tracebackInto a buffer = .ok (some n, frames.take n ++ buffer.drop n) := by
  refine ⟨tracebacks_of_find_none, fun handle hfind => ?_⟩
  obtain ⟨regionSize, hpasses⟩ := hcheck handle hfind
  obtain ⟨frames, hframes⟩ := handle.exists_frames_of_check hpasses a
  refine ⟨frames, hframes, fun fs => ?_, (traceback_of_find hfind).trans hframes, fun buffer =>
    ⟨_, rfl, ?_⟩⟩
  · rw [← RegionHandle.frames_eq_ok_iff, hframes, Except.ok.injEq, eq_comm]
  · rw [tracebackInto_of_find hfind,
      Chain.fill_of_yields (RegionHandle.frames_eq_ok_iff.1 hframes)]
    rfl

/-- Two frames, the second one nested in the first, read at once, into a buffer that holds one frame
and into one that holds more than there are. -/
theorem nested_frames_read : ∃ r handle,
    ((empty .standard).registerCode 0x1000 600 ⟨[4, 0, 600, 8, 2, 100, 300, 8]⟩).outcome =
      .ok (.ok (), r) ∧
    (r.find 0x10c8).1 = some handle ∧ handle.region.chain.check handle.region.size = .ok () ∧
    handle.frames 0x10c8 = .ok [4, 2] ∧ r.traceback 0x10c8 = .ok [4, 2] ∧
    r.tracebackInto 0x10c8 [7] = .ok (some 1, [4]) ∧
    r.tracebackInto 0x10c8 [7, 8, 9] = .ok (some 2, [4, 2, 9]) := by
  let c : Chain := ⟨[4, 0, 600, 8, 2, 100, 300, 8]⟩
  let handle : RegionHandle := ⟨0x1000, ⟨600, c, 0⟩, ⟨2⟩⟩
  have hregister : ((empty .standard).registerCode 0x1000 600 c).outcome.map
      (fun p => (p.1, (p.2.find 0x10c8).1)) = .ok (.ok (), some handle) := by decide +kernel
  obtain ⟨⟨_, r⟩, hout, heq⟩ := Traced.exists_of_map_eq_ok hregister
  obtain ⟨rfl, hfind⟩ := Prod.mk.inj heq
  have hcheck : c.check 600 = .ok () := by cbv
  have hoffset : handle.offsetOf 0x10c8 = 200 := by decide
  -- the outer frame comes first, then the inner one, and the walk ends behind the last record
  have hyields : Yields (handle.nextFrame 0x10c8) 0 [4, 2] := by
    have houter : c.nextFrame 200 0 = .ok (some 4, 4) := by rw [Chain.nextFrame, Chain.seek_eq]; rfl
    have hinner : c.nextFrame 200 4 = .ok (some 2, 8) := by rw [Chain.nextFrame, Chain.seek_eq]; rfl
    have hend : c.nextFrame 200 8 = .ok (none, 8) := by rw [Chain.nextFrame, Chain.seek_eq]; rfl
    have hsame : handle.nextFrame 0x10c8 = c.nextFrame 200 := by
      funext cursor
      rw [RegionHandle.nextFrame, hoffset]
    rw [hsame]
    exact .hit houter (.hit hinner (.miss hend))
  obtain ⟨-, hagree⟩ := tracebacks_agree r 0x10c8 fun found hfound => by
    obtain rfl : handle = found := Option.some.inj (hfind.symm.trans hfound)
    exact ⟨600, hcheck⟩
  obtain ⟨frames, hframes, hsteps, htraceback, hfill⟩ := hagree handle hfind
  obtain rfl := (hsteps _).1 hyields
  refine ⟨r, handle, hout, hfind, hcheck, hframes, htraceback, ?_, ?_⟩
  · obtain ⟨n, rfl, hone⟩ := hfill [7]
    exact hone
  · obtain ⟨n, rfl, hboth⟩ := hfill [7, 8, 9]
    exact hboth

end Registry

end TraceAtlas
