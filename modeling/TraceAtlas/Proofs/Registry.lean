import TraceAtlas.Proofs.Gate
import TraceAtlas.Proofs.Index.Contents
import TraceAtlas.Registry

/-! # What the writer does to the maps

Every operation of a registry, said in terms of the regions and the blocks that are live. None of
the statements mentions slots, retired chains or readers, and none of the two maps shows in what is
said of the other. The gate is clear before and after each of them.

## Main definitions
* `Regions.ListFails` : there is no room for another removed region.
* `Registry.Holds` : a registry with a clear gate holds some regions and some blocks.
* `Contents.withPieces` : the blocks with those of some pieces of code.

## Main statements
* `Registry.Holds.registerCode`, `Registry.Holds.unregisterCode`, `Registry.Holds.addBlock`,
  `Registry.Holds.registerDepths`, `Registry.Holds.clearBlocks`, `Registry.Holds.freeBlock` : the
  operations.
-/

namespace TraceAtlas

/-! ## (1) The region map -/

namespace Regions

/-- Collecting changes no region and is never a fault. -/
theorem outcome_collect (m : Regions) (gate : Gate) :
    ∃ m', (m.collect gate).outcome = .ok m' ∧ m'.index.contents = m.index.contents := by
  obtain ⟨index, hindex, hsame⟩ := Index.outcome_collect m.index gate
  rw [collect, Traced.outcome_bind_of_ok hindex]
  split
  · exact ⟨_, rfl, hsame⟩
  · split
    · exact ⟨_, rfl, hsame⟩
    · exact ⟨_, rfl, hsame⟩

/-- The list of removed regions has no room for one more. -/
def ListFails (m : Regions) : Prop := m.list m.asked = false

instance (m : Regions) : Decidable m.ListFails := inferInstanceAs (Decidable (_ = _))

/-- Without room in the list, adding a region is refused in front of the gate. -/
theorem add_of_listFails {m : Regions} (h : m.ListFails) (gate : Gate) (start : Address)
    (size : UInt32) (chain : Chain) : m.add gate start size chain =
      ⟨[.addingRegion start size (chain.length / Record.width)],
        .ok (.error .ofReservation, { m with asked := m.asked + 1 }, gate)⟩ := by
  simp only [add, if_neg (Bool.eq_false_iff.1 h)]
  rfl

/-- With room in the list, adding a region is announced and then placed. -/
theorem add_of_not_listFails {m : Regions} (h : ¬m.ListFails) (gate : Gate) (start : Address)
    (size : UInt32) (chain : Chain) : m.add gate start size chain = (do
      Traced.note (.addingRegion start size (chain.length / Record.width))
      { m with asked := m.asked + 1 }.place gate start size chain) := by
  simp only [add, if_pos (Bool.not_eq_false _ ▸ h : m.list m.asked = true)]

/-- Adding a region where there is room for it comes to what inserting its entry comes to. -/
theorem outcome_place_of_insert {m : Regions} {gate : Gate} {start : Address} {size : UInt32}
    {chain : Chain} {result : Except OutOfMemory Unit} {index : Index Region}
    (hgate : ¬gate.Invalid)
    (hinsert : (m.index.insert start ⟨size, chain, m.issued⟩).outcome = .ok (result, index)) :
    ∃ m', (m.place gate start size chain).outcome = .ok (result, m', gate.step.step) ∧
      m'.index.contents = index.contents := by
  have hmutate : (gate.mutate (m.index.insert start ⟨size, chain, m.issued⟩)).outcome
      = .ok ((result, index), gate.step.step) := by
    rw [Gate.outcome_mutate hgate, hinsert]
    rfl
  rw [place, Traced.outcome_bind_of_ok hmutate]
  cases result with
  | error e => exact ⟨_, rfl, rfl⟩
  | ok _ =>
    obtain ⟨m', hcollect, hsame⟩ :=
      outcome_collect { m with index, issued := m.issued + 1 } gate.step.step
    refine ⟨m', ?_, hsame⟩
    simp only [Traced.outcome_bind_of_ok hcollect]
    rfl

/-- Adding a region where none starts ends well: the region is added, or it is refused and nothing
changes. -/
theorem outcome_add {m : Regions} {gate : Gate} {start : Address} (hgate : ¬gate.Invalid)
    (hkey : m.index.contents start = none) (size : UInt32) (chain : Chain) :
    ∃ result m' gate', (m.add gate start size chain).outcome = .ok (result, m', gate') ∧
      ¬gate'.Invalid ∧
      match result with
      | .ok () => m'.index.contents =
          Function.update m.index.contents start (some ⟨size, chain, m.issued⟩)
      | .error _ => m'.index.contents = m.index.contents := by
  by_cases hlist : m.ListFails
  · rw [add_of_listFails hlist]
    exact ⟨_, _, gate, rfl, hgate, rfl⟩
  · rw [add_of_not_listFails hlist, Traced.outcome_note_bind]
    obtain ⟨result, index, hinsert, hresult⟩ :=
      Index.outcome_insert_of_absent hkey (⟨size, chain, m.issued⟩ : Region)
    obtain ⟨m', hadd, hsame⟩ :=
      outcome_place_of_insert (m := { m with asked := m.asked + 1 }) hgate hinsert
    refine ⟨result, m', gate.step.step, hadd, Gate.not_invalid_step_step hgate, ?_⟩
    cases result with
    | error e =>
      obtain ⟨refused, rfl⟩ := hresult
      exact hsame
    | ok _ => exact hsame.trans hresult

/-- Removing a region that is there ends well. -/
theorem outcome_remove {m : Regions} {gate : Gate} {start : Address} {region : Region}
    (hgate : ¬gate.Invalid) (hkey : m.index.contents start = some region) :
    ∃ m', (m.remove gate start).outcome = .ok (m', gate.step.step) ∧
      m'.index.contents = Function.update m.index.contents start none := by
  have hremove := Index.outcome_remove m.index start
  rw [hkey] at hremove
  obtain ⟨index, hindex, hrest⟩ := hremove
  have hmutate : (gate.mutate (m.index.remove start)).outcome
      = .ok ((region, index), gate.step.step) := by
    rw [Gate.outcome_mutate hgate, hindex]
    rfl
  obtain ⟨m', hcollect, hsame⟩ :=
    outcome_collect { m with index, retired := region :: m.retired } gate.step.step
  refine ⟨m', ?_, hsame.trans hrest⟩
  rw [remove, Traced.outcome_note_bind, Traced.outcome_bind_of_ok hmutate]
  simp only [Traced.outcome_bind_of_ok hcollect]
  rfl

/-- Clearing regions ends well behind a clear gate. -/
theorem outcome_clearRange {gate : Gate} (hgate : ¬gate.Invalid) (m : Regions)
    (start size : Address) :
    ∃ m' gate', (m.clearRange gate start size).outcome = .ok (m', gate') ∧ ¬gate'.Invalid ∧
      m'.index.contents = m.index.contents.eraseRange start size := by
  unfold clearRange
  split
  · rename_i hsize
    exact ⟨m, gate, rfl, hgate, by rw [hsize, Contents.eraseRange_zero]⟩
  · obtain ⟨-, hrest⟩ := m.index.removeRange_spec start size
    have hmutate : (gate.mutate (pure (m.index.removeRange start size))).outcome
        = .ok (m.index.removeRange start size, gate.step.step) := by
      rw [Gate.outcome_mutate hgate]
      rfl
    obtain ⟨m', hcollect, hsame⟩ := outcome_collect
      { m with
        index := (m.index.removeRange start size).2
        retired := ((m.index.removeRange start size).1.map (·.2)).reverse ++ m.retired }
      gate.step.step
    refine ⟨m', gate.step.step, ?_, Gate.not_invalid_step_step hgate, hsame.trans hrest⟩
    rw [Traced.outcome_note_bind, Traced.outcome_bind_of_ok hmutate]
    simp only [Traced.outcome_bind_of_ok hcollect]
    rfl

end Regions

/-! ## (2) The depth map -/

namespace DepthBlocks

/-- Adding a block comes to what inserting its entry comes to. -/
theorem outcome_add_of_insert {m : DepthBlocks} {gate : Gate} {start : Address}
    {size depth : UInt32} {result : Except OutOfMemory Unit} {index : Index Block}
    (hgate : ¬gate.Invalid)
    (hinsert : (m.index.insert start ⟨size, depth⟩).outcome = .ok (result, index)) :
    ∃ m', (m.add gate start size depth).outcome = .ok (result, m', gate.step.step) ∧
      m'.index.contents = index.contents := by
  have hmutate : (gate.mutate (m.index.insert start ⟨size, depth⟩)).outcome
      = .ok ((result, index), gate.step.step) := by
    rw [Gate.outcome_mutate hgate, hinsert]
    rfl
  rw [add, Traced.outcome_note_bind, Traced.outcome_bind_of_ok hmutate]
  cases result with
  | error e => exact ⟨_, rfl, rfl⟩
  | ok _ =>
    obtain ⟨index', hcollect, hsame⟩ := Index.outcome_collect index gate.step.step
    refine ⟨⟨index'⟩, ?_, hsame⟩
    simp only [Traced.outcome_bind_of_ok hcollect]
    rfl

/-- Adding a block where none starts ends well: the block is added, or it is refused and nothing
changes. -/
theorem outcome_add {m : DepthBlocks} {gate : Gate} {start : Address} (hgate : ¬gate.Invalid)
    (hkey : m.index.contents start = none) (size depth : UInt32) :
    ∃ result m', (m.add gate start size depth).outcome = .ok (result, m', gate.step.step) ∧
      match result with
      | .ok () => m'.index.contents =
          Function.update m.index.contents start (some ⟨size, depth⟩)
      | .error _ => m'.index.contents = m.index.contents := by
  obtain ⟨result, index, hinsert, hresult⟩ :=
    Index.outcome_insert_of_absent hkey (⟨size, depth⟩ : Block)
  obtain ⟨m', hadd, hsame⟩ := outcome_add_of_insert hgate hinsert
  cases result with
  | error e =>
    obtain ⟨refused, rfl⟩ := hresult
    exact ⟨_, m', hadd, hsame⟩
  | ok _ => exact ⟨_, m', hadd, hsame.trans hresult⟩

/-- Clearing blocks ends well behind a clear gate. -/
theorem outcome_clearRange {gate : Gate} (hgate : ¬gate.Invalid) (m : DepthBlocks)
    (start size : Address) :
    ∃ m' gate', (m.clearRange gate start size).outcome = .ok (m', gate') ∧ ¬gate'.Invalid ∧
      m'.index.contents = m.index.contents.eraseRange start size := by
  unfold clearRange
  split
  · rename_i hsize
    exact ⟨m, gate, rfl, hgate, by rw [hsize, Contents.eraseRange_zero]⟩
  · obtain ⟨-, hrest⟩ := m.index.removeRange_spec start size
    have hmutate : (gate.mutate (pure (m.index.removeRange start size))).outcome
        = .ok (m.index.removeRange start size, gate.step.step) := by
      rw [Gate.outcome_mutate hgate]
      rfl
    obtain ⟨index, hcollect, hsame⟩ :=
      Index.outcome_collect (m.index.removeRange start size).2 gate.step.step
    refine ⟨⟨index⟩, gate.step.step, ?_, Gate.not_invalid_step_step hgate, hsame.trans hrest⟩
    rw [Traced.outcome_note_bind, Traced.outcome_bind_of_ok hmutate]
    simp only [Traced.outcome_bind_of_ok hcollect]
    rfl

end DepthBlocks

/-! ## (3) Both maps behind one gate -/

namespace Contents

/-- The blocks with those of some pieces of the code from `start` on. -/
def withPieces (m : Contents Block) (start : Address) : List Piece → Contents Block
  | [] => m
  | piece :: rest =>
    withPieces (Function.update m (start + piece.position.toUInt64)
      (some ⟨piece.size, piece.depth⟩)) start rest

/-- A block is there exactly if it was there or is the one of a piece. -/
theorem withPieces_ne_none_iff {m : Contents Block} {start : Address} {ps : List Piece}
    {a : Address} : m.withPieces start ps a ≠ none ↔
      m a ≠ none ∨ ∃ piece ∈ ps, a = start + piece.position.toUInt64 := by
  induction ps generalizing m with
  | nil => simp [withPieces]
  | cons piece rest ih =>
    rw [withPieces, ih, List.exists_mem_cons_iff, ← or_assoc]
    refine or_congr_left ?_
    by_cases ha : a = start + piece.position.toUInt64
    · simp [ha]
    · rw [Function.update_of_ne ha]
      simp [ha]

end Contents

namespace Registry

/-- The regions that are live, by their starts. -/
def liveRegions (r : Registry) : Contents Region := r.regions.index.contents

/-- The blocks that are live, by their starts. -/
def liveBlocks (r : Registry) : Contents Block := r.blocks.index.contents

/-- The gate is clear, and some regions and blocks are live. -/
structure Holds (r : Registry) (regions : Contents Region) (blocks : Contents Block) : Prop where
  gate : ¬r.gate.Invalid
  liveRegions : r.liveRegions = regions
  liveBlocks : r.liveBlocks = blocks

/-- A fresh registry holds nothing. -/
theorem holds_empty (t : Tuning) : (empty t).Holds Contents.empty Contents.empty where
  gate := (by decide : ¬Gate.new.Invalid)
  liveRegions := Index.contents_empty t Regions.slotBytes
  liveBlocks := Index.contents_empty t DepthBlocks.slotBytes

namespace Holds

variable {r : Registry} {R : Contents Region} {D : Contents Block} {start : Address}

/-- Registering code where no region starts makes its region live, unless it is refused. -/
theorem registerCode (h : r.Holds R D) (hkey : R start = none) (size : UInt32) (chain : Chain) :
    ∃ result r', (r.registerCode start size chain).outcome = .ok (result, r') ∧
      match result with
      | .ok () => r'.Holds (Function.update R start (some ⟨size, chain, r.regions.issued⟩)) D
      | .error _ => r'.Holds R D := by
  obtain ⟨hgate, rfl, rfl⟩ := h
  obtain ⟨result, m', gate', hadd, hgate', hresult⟩ := Regions.outcome_add hgate hkey size chain
  have hregion : (r.addRegion start size chain).outcome
      = .ok (result, { r with regions := m', gate := gate' }) := by
    rw [addRegion, Traced.outcome_bind_of_ok hadd]
    rfl
  rw [Registry.registerCode, Traced.outcome_bind_of_ok hregion]
  refine ⟨result, { r with regions := m', gate := gate' }, ?_, ?_⟩
  · cases result <;> rfl
  · cases result with
    | ok _ => exact ⟨hgate', hresult, rfl⟩
    | error _ => exact ⟨hgate', hresult, rfl⟩

/-- Unregistering a region that is live leaves the others. -/
theorem unregisterCode (h : r.Holds R D) (hkey : R start ≠ none) :
    ∃ r', (r.unregisterCode start).outcome = .ok r' ∧
      r'.Holds (Function.update R start none) D := by
  obtain ⟨hgate, rfl, rfl⟩ := h
  obtain ⟨region, hregion⟩ := Option.ne_none_iff_exists'.1 hkey
  obtain ⟨m', hremove, hrest⟩ := Regions.outcome_remove hgate hregion
  rw [Registry.unregisterCode, Traced.outcome_bind_of_ok hremove]
  exact ⟨_, rfl, Gate.not_invalid_step_step hgate, hrest, rfl⟩

/-- Clearing regions leaves those that start outside of the range. -/
theorem clearRegions (h : r.Holds R D) (start size : Address) :
    ∃ r', (r.clearRegions start size).outcome = .ok r' ∧
      r'.Holds (R.eraseRange start size) D := by
  obtain ⟨hgate, rfl, rfl⟩ := h
  obtain ⟨m', gate', hclear, hgate', hrest⟩ := Regions.outcome_clearRange hgate r.regions start size
  rw [Registry.clearRegions, Traced.outcome_bind_of_ok hclear]
  exact ⟨_, rfl, hgate', hrest, rfl⟩

/-- Adding a block where none starts makes it live, unless it is refused. -/
theorem addBlock (h : r.Holds R D) (hkey : D start = none) (size depth : UInt32) :
    ∃ result r', (r.addBlock start size depth).outcome = .ok (result, r') ∧
      match result with
      | .ok () => r'.Holds R (Function.update D start (some ⟨size, depth⟩))
      | .error _ => r'.Holds R D := by
  obtain ⟨hgate, rfl, rfl⟩ := h
  obtain ⟨result, m', hadd, hresult⟩ := DepthBlocks.outcome_add hgate hkey size depth
  rw [Registry.addBlock, Traced.outcome_bind_of_ok hadd]
  refine ⟨result, _, rfl, ?_⟩
  cases result with
  | ok _ => exact ⟨Gate.not_invalid_step_step hgate, rfl, hresult⟩
  | error _ => exact ⟨Gate.not_invalid_step_step hgate, rfl, hresult⟩

/-- Clearing blocks leaves those that start outside of the range. -/
theorem clearBlocks (h : r.Holds R D) (start size : Address) :
    ∃ r', (r.clearBlocks start size).outcome = .ok r' ∧
      r'.Holds R (D.eraseRange start size) := by
  obtain ⟨hgate, rfl, rfl⟩ := h
  obtain ⟨m', gate', hclear, hgate', hrest⟩ :=
    DepthBlocks.outcome_clearRange hgate r.blocks start size
  rw [Registry.clearBlocks, Traced.outcome_bind_of_ok hclear]
  exact ⟨_, rfl, hgate', rfl, hrest⟩

/-- Freeing code leaves the regions and blocks that start outside of it. -/
theorem freeBlock (h : r.Holds R D) (start stop : Address) :
    ∃ r', (r.freeBlock start stop).outcome = .ok r' ∧
      r'.Holds (R.eraseRange start (Address.distance start stop))
        (D.eraseRange start (Address.distance start stop)) := by
  obtain ⟨r₁, hblocks, h₁⟩ := h.clearBlocks start (Address.distance start stop)
  obtain ⟨r₂, hregions, h₂⟩ := h₁.clearRegions start (Address.distance start stop)
  refine ⟨r₂, ?_, h₂⟩
  rw [Registry.freeBlock, Traced.outcome_note_bind]
  simp only [Traced.outcome_bind_of_ok hblocks, hregions]

/-! ## (4) Pieces of code -/

/-- Adding pieces where no block starts makes all of their blocks live; if one of them is refused,
those before it are. -/
theorem addPieces {ps : List Piece} (h : r.Holds R D)
    (hfit : ∀ piece ∈ ps, start.toNat + piece.position.toNat < UInt64.size)
    (hfree : ∀ piece ∈ ps, D (start + piece.position.toUInt64) = none)
    (hapart : ps.Pairwise fun p q =>
      start + p.position.toUInt64 ≠ start + q.position.toUInt64) :
    ∃ result r', (r.addPieces start ps).outcome = .ok (result, r') ∧
      match result with
      | .ok () => r'.Holds R (D.withPieces start ps)
      | .error _ => ∃ n, r'.Holds R (D.withPieces start (ps.take n)) := by
  induction ps generalizing r D with
  | nil => exact ⟨.ok (), r, rfl, h⟩
  | cons piece rest ih =>
    obtain ⟨hpiece, hrest⟩ := List.pairwise_cons.1 hapart
    obtain ⟨result, r₁, hadd, hresult⟩ :=
      h.addBlock (hfree piece (by simp)) piece.size piece.depth
    have hlt := hfit piece (by simp)
    rw [Registry.addPieces, if_neg (Nat.not_le.2 hlt)]
    simp only [Traced.outcome_bind_of_ok hadd]
    cases result with
    | error e => exact ⟨.error e, r₁, rfl, 0, hresult⟩
    | ok _ =>
      -- no start still to come is the one that was just taken
      have hfree' : ∀ q ∈ rest, Function.update D (start + piece.position.toUInt64)
          (some ⟨piece.size, piece.depth⟩) (start + q.position.toUInt64) = none := by
        intro q hq
        rw [Function.update_of_ne (hpiece q hq).symm]
        exact hfree q (by simp [hq])
      obtain ⟨result, r₂, hpieces, hresult₂⟩ :=
        ih hresult (fun q hq => hfit q (by simp [hq])) hfree' hrest
      refine ⟨result, r₂, hpieces, ?_⟩
      cases result with
      | ok _ => exact hresult₂
      | error _ =>
        obtain ⟨n, hn⟩ := hresult₂
        exact ⟨n + 1, hn⟩

/-- Registering depths where no block starts makes the blocks of all pieces live; if one of them is
refused, no block that starts in the code is left. -/
theorem registerDepths {stop : Address} {positions : List Offset} {depths : List UInt32}
    (h : r.Holds R D) (hpairs : positions.length = depths.length)
    (hfit : ∀ piece ∈ pieces (stop - start) positions depths,
      start.toNat + piece.position.toNat < UInt64.size)
    (hfree : ∀ piece ∈ pieces (stop - start) positions depths,
      D (start + piece.position.toUInt64) = none)
    (hapart : (pieces (stop - start) positions depths).Pairwise fun p q =>
      start + p.position.toUInt64 ≠ start + q.position.toUInt64) :
    ∃ result r', (r.registerDepths start stop positions depths).outcome = .ok (result, r') ∧
      match result with
      | .ok () => r'.Holds R (D.withPieces start (pieces (stop - start) positions depths))
      | .error _ => ∃ n, r'.Holds R ((D.withPieces start
          ((pieces (stop - start) positions depths).take n)).eraseRange start (stop - start)) := by
  obtain ⟨result, r₁, hpieces, hresult⟩ := h.addPieces hfit hfree hapart
  rw [Registry.registerDepths, if_neg (by simp [hpairs])]
  simp only [Traced.outcome_note_bind, Traced.outcome_bind_of_ok hpieces]
  cases result with
  | ok _ => exact ⟨.ok (), r₁, rfl, hresult⟩
  | error e =>
    obtain ⟨n, hn⟩ := hresult
    obtain ⟨r₂, hclear, h₂⟩ := hn.clearBlocks start (stop - start)
    refine ⟨.error e, r₂, ?_, n, h₂⟩
    simp only [Traced.outcome_note_bind, Traced.outcome_bind_of_ok hclear]
    rfl

end Holds

end Registry

end TraceAtlas
