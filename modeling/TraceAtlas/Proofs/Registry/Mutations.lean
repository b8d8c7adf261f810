import TraceAtlas.Proofs.Registry.Turnover
import TraceAtlas.Session.Registry

/-! # The mutations of a registry

Every change of a registry is made behind a set gate, and ends with a collection of the map that was
changed. Here it is said once what one such mutation makes of a registry: of its maps, of the chains
that wait to be freed, and of its gate. A call that writes is some mutations in a row, and the
notices that it leaves tell how many there were and how many chains they freed. Only a region that
the list of removed ones has no room for is turned away in front of the gate; it is counted among
the mutations, since it leaves the same notice.

## Main definitions
* `Mutation` : an edit of one of the maps, or a refused addition.
* `Mutation.setsGate` : all of them set the gate but an addition that is turned away.
* `Registry.Mutates`, `Registry.Undergoes` : what one mutation, and some in a row, make of a
  registry.
* `Notice.sectionsIn`, `Notice.freedIn` : what notices tell of mutations.
* `Registry.Works` : a registry undergoes mutations, and notices tell of just these.

## Main statements
* `Registry.Undergoes.gate`, `Registry.Undergoes.indexes` : what mutations make of the gate and of
  the two indexes.
* `Registry.works_registerDepths`, `Registry.works_freeBlock` and others : every call that writes is
  mutations in a row.
-/

namespace TraceAtlas

/-! ## (1) What notices tell -/

namespace Notice

/-- A mutation is about to begin, unless it is turned away. -/
def Opens : Notice → Bool
  | addingRegion .. | removingRegion .. | clearingRegions .. | addingBlock ..
  | clearingBlocks .. => true
  | _ => false

/-- The number of chains that were just freed. -/
def freed : Notice → Nat
  | chainsFreed count => count
  | _ => 0

/-- The number of mutations that notices tell of. -/
def sectionsIn (notices : List Notice) : Nat := notices.countP Opens

/-- The number of freed chains that notices tell of. -/
def freedIn (notices : List Notice) : Nat := (notices.map freed).sum

/-- Sections of notices in a row add up. -/
@[simp] theorem sectionsIn_append (ns ms : List Notice) :
    sectionsIn (ns ++ ms) = sectionsIn ns + sectionsIn ms := List.countP_append

/-- So do freed chains. -/
@[simp] theorem freedIn_append (ns ms : List Notice) :
    freedIn (ns ++ ms) = freedIn ns + freedIn ms := by simp [freedIn]

/-- Without a notice there is no section. -/
@[simp] theorem sectionsIn_nil : sectionsIn [] = 0 := rfl

/-- Nor is a chain freed. -/
@[simp] theorem freedIn_nil : freedIn [] = 0 := rfl

/-- The sections that a first notice and others tell of. -/
theorem sectionsIn_cons (n : Notice) (ns : List Notice) :
    sectionsIn (n :: ns) = sectionsIn ns + if n.Opens then 1 else 0 := List.countP_cons

/-- The freed chains that a first notice and others tell of. -/
theorem freedIn_cons (n : Notice) (ns : List Notice) :
    freedIn (n :: ns) = n.freed + freedIn ns := by
  simp [freedIn]

/-- Notices that tell of no mutation and of no freed chain. -/
def Idle (notices : List Notice) : Prop := sectionsIn notices = 0 ∧ freedIn notices = 0

/-- No notice tells of nothing. -/
theorem idle_nil : Idle [] := ⟨rfl, rfl⟩

/-- Computations in a row that tell of nothing tell of nothing. -/
theorem Idle.bind {α β : Type} {x : Traced α} {f : α → Traced β} (hx : Idle x.notices)
    (hf : ∀ a, Idle (f a).notices) : Idle (x >>= f).notices := by
  rw [Traced.bind_def, Traced.andThen]
  split
  · exact hx
  · rename_i a _
    exact ⟨by rw [sectionsIn_append, hx.1, (hf a).1], by rw [freedIn_append, hx.2, (hf a).2]⟩

end Notice

open Notice

/-- Handing out a slot tells of no mutation: a chunk that is taken is something else. -/
theorem Slots.idle_take (plan : SlotPlan) (s : Slots) : Idle (s.take plan).notices := by
  have hreserve (slot : Nat) : Idle (s.reserve plan slot).notices := by
    simp only [reserve]
    split
    · exact idle_nil
    · split
      · exact idle_nil
      · split <;> exact ⟨rfl, rfl⟩
  unfold take
  split
  · exact idle_nil
  · split
    · exact idle_nil
    · refine (hreserve _).bind fun result => ?_
      cases result <;> exact idle_nil

namespace Index

variable {α : Type}

/-- An insertion tells of no mutation. -/
theorem idle_insert (ix : Index α) (key : Address) (value : α) :
    Idle (ix.insert key value).notices := by
  unfold insert
  split
  · exact idle_nil
  · refine (Slots.idle_take _ _).bind fun result => ?_
    cases result <;> exact idle_nil

/-- Nor does a removal. -/
theorem idle_remove (ix : Index α) (key : Address) : Idle (ix.remove key).notices := by
  unfold remove
  split <;> exact idle_nil

/-- Nor does a collection of the index. -/
theorem idle_collect (ix : Index α) (gate : Gate) : Idle (ix.collect gate).notices := by
  unfold collect
  split
  · exact idle_nil
  · split <;> exact ⟨rfl, rfl⟩

end Index

/-! ## (2) Mutations of one map -/

/-- The edit that an addition makes: none if it is refused. -/
def accepted {α : Type} (e : Edit α) : Except OutOfMemory Unit → Option (Edit α)
  | .ok () => some e
  | .error _ => none

namespace Regions

variable {m m' : Regions} {gate gate' : Gate} {start : Address} {notices : List Notice}

/-- The map with an edited index: what was removed is retired, and what was added is counted, as is
the room it asked for. -/
def edited (m : Regions) (e : Edit Region) (removed : List (Address × Region))
    (index : Index Region) : Regions where
  index
  retired := (removed.map (·.2)).reverse ++ m.retired
  issued := m.issued + e.additions.length
  list := m.list
  asked := m.asked + e.additions.length

/-- The map after a refused addition. -/
def refuse (m : Regions) (refused : m.index.slots.Refused) : Regions :=
  { m with index := m.index.refuse refused, asked := m.asked + 1 }

/-- The map after a collection: without anything retired if nobody reads. -/
def collected (m : Regions) (gate : Gate) : Regions :=
  { m with
    index := m.index.collected gate
    retired := if gate.Quiescent then [] else m.retired }

/-- The number of chains that a collection frees. -/
def due (m : Regions) (gate : Gate) : Nat := if gate.Quiescent then m.retired.length else 0

/-- A collection makes of the map what is collected, and tells of the chains that it frees. -/
theorem collect_eq_mk_ok (h : m.collect gate = ⟨notices, .ok m'⟩) :
    m' = m.collected gate ∧ sectionsIn notices = 0 ∧ freedIn notices = m.due gate := by
  obtain ⟨before, index, after, hindex, hrest, rfl⟩ := Traced.bind_eq_mk_ok.1 h
  have hidle := m.index.idle_collect gate
  have hcollected := m.index.outcome_collect_eq gate
  rw [hindex] at hidle hcollected
  obtain rfl := Except.ok.inj hcollected
  rw [sectionsIn_append, freedIn_append, hidle.1, hidle.2, Nat.zero_add, Nat.zero_add, collected,
    due]
  split at hrest
  · rename_i hnone
    cases hrest
    simp [hnone]
  · split at hrest
    · rw [if_pos ‹_›, if_pos ‹_›]
      cases hrest
      exact ⟨rfl, rfl, rfl⟩
    · rw [if_neg ‹_›, if_neg ‹_›]
      cases hrest
      exact ⟨rfl, rfl, rfl⟩

/-- What a mutation makes of the map, and how many chains it frees, if it makes some edit or is a
refused addition. -/
inductive MutatedBy (m : Regions) (gate : Gate) : Option (Edit Region) → Nat → Regions → Prop
  | edit {e : Edit Region} {removed : List (Address × Region)} {index : Index Region} :
      m.index.EditedBy e removed index → (∀ p ∈ e.additions, p.2.serial = m.issued) →
      MutatedBy m gate (some e) ((m.edited e removed index).due gate)
        ((m.edited e removed index).collected gate)
  | refused {refused : m.index.slots.Refused} :
      (m.index.slots.take m.index.plan).outcome = .ok (.error refused) →
      MutatedBy m gate none 0 (m.refuse refused)

/-- The index undergoes the edit that is made. -/
theorem MutatedBy.index {e : Option (Edit Region)} {freed : Nat} (h : m.MutatedBy gate e freed m') :
    m.index.Undergoes gate e.toList m'.index := by
  cases h with
  | edit hedit _ => exact .cons hedit (.nil _)
  | refused htake => exact .refused htake (.nil _)

/-- An edit with its notice before it and a collection behind it is a mutation. -/
theorem mutatedBy_of_collect {e : Edit Region} {removed : List (Address × Region)}
    {index : Index Region} {n : Notice} {before after : List Notice} (hopens : n.Opens)
    (hfreed : n.freed = 0) (hbefore : Idle before) (hedit : m.index.EditedBy e removed index)
    (hserial : ∀ p ∈ e.additions, p.2.serial = m.issued)
    (hcollect : (m.edited e removed index).collect gate.step.step = ⟨after, .ok m'⟩) :
    m.MutatedBy gate (some e) (freedIn (n :: (before ++ after))) m' ∧
      sectionsIn (n :: (before ++ after)) = 1 := by
  obtain ⟨rfl, hsections, hdue⟩ := collect_eq_mk_ok hcollect
  constructor
  · rw [freedIn_cons, freedIn_append, hfreed, hbefore.2, hdue, Nat.zero_add, Nat.zero_add]
    exact .edit hedit hserial
  · rw [sectionsIn_cons, sectionsIn_append, hbefore.1, hsections, if_pos hopens]

/-- An addition that is not turned away is a mutation, be it refused or not. -/
theorem mutatedBy_of_add {size : UInt32} {chain : Chain} {result : Except OutOfMemory Unit}
    (hlist : ¬m.ListFails) (h : m.add gate start size chain = ⟨notices, .ok (result, m', gate')⟩) :
    gate' = gate.step.step ∧ sectionsIn notices = 1 ∧
      m.MutatedBy gate (accepted (.add start ⟨size, chain, m.issued⟩) result) (freedIn notices)
        m' := by
  rw [add_of_not_listFails hlist] at h
  obtain ⟨_, hnoted, rfl⟩ := Traced.note_bind_eq_mk_ok.1 h
  obtain ⟨before, ⟨⟨added, index⟩, g⟩, _, hmutate, hrest, rfl⟩ := Traced.bind_eq_mk_ok.1 hnoted
  obtain ⟨-, hinsert, rfl⟩ := Gate.mutate_eq_mk_ok.1 hmutate
  have hidle := m.index.idle_insert start (⟨size, chain, m.issued⟩ : Region)
  have houtcome := congrArg Traced.outcome hinsert
  rw [hinsert] at hidle
  cases added with
  | error e =>
    cases hrest
    obtain ⟨refused, htake, -, rfl⟩ := Index.of_outcome_insert houtcome
    refine ⟨rfl, ?_, ?_⟩
    · rw [sectionsIn_cons, List.append_nil, hidle.1]
      rfl
    · rw [freedIn_cons, List.append_nil, hidle.2]
      exact .refused htake
  | ok _ =>
    obtain ⟨_, m₁, _, hcollect, hlast, rfl⟩ := Traced.bind_eq_mk_ok.1 hrest
    cases hlast
    rw [List.append_nil]
    have hmutated := mutatedBy_of_collect (m := m)
      (n := .addingRegion start size (chain.length / Record.width)) rfl rfl hidle (.add houtcome)
      (by simp [Edit.additions]) hcollect
    exact ⟨rfl, hmutated.2, hmutated.1⟩

/-- A removal is a mutation. -/
theorem mutatedBy_of_remove (h : m.remove gate start = ⟨notices, .ok (m', gate')⟩) :
    gate' = gate.step.step ∧ sectionsIn notices = 1 ∧
      m.MutatedBy gate (some (.remove start)) (freedIn notices) m' := by
  obtain ⟨_, hnoted, rfl⟩ := Traced.note_bind_eq_mk_ok.1 h
  obtain ⟨before, ⟨⟨region, index⟩, g⟩, _, hmutate, hrest, rfl⟩ := Traced.bind_eq_mk_ok.1 hnoted
  obtain ⟨-, hremove, rfl⟩ := Gate.mutate_eq_mk_ok.1 hmutate
  have hidle := m.index.idle_remove start
  have houtcome := congrArg Traced.outcome hremove
  rw [hremove] at hidle
  obtain ⟨_, m₁, _, hcollect, hlast, rfl⟩ := Traced.bind_eq_mk_ok.1 hrest
  cases hlast
  rw [List.append_nil]
  have hmutated := mutatedBy_of_collect (m := m) (n := .removingRegion start) rfl rfl hidle
    (.remove houtcome) (by simp [Edit.additions]) hcollect
  exact ⟨rfl, hmutated.2, hmutated.1⟩

/-- A clear is a mutation, unless its range is empty. -/
theorem mutatedBy_of_clearRange {size : Address} (hsize : size ≠ 0)
    (h : m.clearRange gate start size = ⟨notices, .ok (m', gate')⟩) :
    gate' = gate.step.step ∧ sectionsIn notices = 1 ∧
      m.MutatedBy gate (some (.clear start size)) (freedIn notices) m' := by
  rw [clearRange, if_neg hsize] at h
  obtain ⟨_, hnoted, rfl⟩ := Traced.note_bind_eq_mk_ok.1 h
  obtain ⟨before, ⟨⟨removed, index⟩, g⟩, _, hmutate, hrest, rfl⟩ := Traced.bind_eq_mk_ok.1 hnoted
  obtain ⟨-, hremove, rfl⟩ := Gate.mutate_eq_mk_ok.1 hmutate
  obtain ⟨rfl, houtcome⟩ := Traced.mk.inj hremove
  obtain ⟨rfl, rfl⟩ := Prod.ext_iff.1 (Except.ok.inj houtcome)
  obtain ⟨_, m₁, _, hcollect, hlast, rfl⟩ := Traced.bind_eq_mk_ok.1 hrest
  cases hlast
  rw [List.append_nil]
  have hmutated := mutatedBy_of_collect (m := m) (n := .clearingRegions start size) rfl rfl idle_nil
    (.clear start size) (by simp [Edit.additions]) hcollect
  exact ⟨rfl, hmutated.2, hmutated.1⟩

end Regions

namespace DepthBlocks

variable {m m' : DepthBlocks} {gate gate' : Gate} {start : Address} {notices : List Notice}

/-- What a mutation makes of the map, if it makes some edit or is a refused addition. -/
inductive MutatedBy (m : DepthBlocks) (gate : Gate) : Option (Edit Block) → DepthBlocks → Prop
  | edit {e : Edit Block} {removed : List (Address × Block)} {index : Index Block} :
      m.index.EditedBy e removed index → MutatedBy m gate (some e) ⟨index.collected gate⟩
  | refused {refused : m.index.slots.Refused} :
      (m.index.slots.take m.index.plan).outcome = .ok (.error refused) →
      MutatedBy m gate none ⟨m.index.refuse refused⟩

/-- The index undergoes the edit that is made. -/
theorem MutatedBy.index {e : Option (Edit Block)} (h : m.MutatedBy gate e m') :
    m.index.Undergoes gate e.toList m'.index := by
  cases h with
  | edit hedit => exact .cons hedit (.nil _)
  | refused htake => exact .refused htake (.nil _)

/-- An edit with its notice before it and a collection behind it is a mutation. -/
theorem mutatedBy_of_collect {e : Edit Block} {removed : List (Address × Block)}
    {index index' : Index Block} {n : Notice} {before after : List Notice} (hopens : n.Opens)
    (hfreed : n.freed = 0) (hbefore : Idle before) (hedit : m.index.EditedBy e removed index)
    (hcollect : index.collect gate.step.step = ⟨after, .ok index'⟩) :
    m.MutatedBy gate (some e) ⟨index'⟩ ∧ sectionsIn (n :: (before ++ after)) = 1 ∧
      freedIn (n :: (before ++ after)) = 0 := by
  have hidle := index.idle_collect gate.step.step
  have hcollected := index.outcome_collect_eq gate.step.step
  rw [hcollect] at hidle hcollected
  obtain rfl := Except.ok.inj hcollected
  refine ⟨.edit hedit, ?_, ?_⟩
  · rw [sectionsIn_cons, sectionsIn_append, hbefore.1, hidle.1, if_pos hopens]
  · rw [freedIn_cons, freedIn_append, hfreed, hbefore.2, hidle.2]

/-- An addition is a mutation, be it refused or not. -/
theorem mutatedBy_of_add {size depth : UInt32} {result : Except OutOfMemory Unit}
    (h : m.add gate start size depth = ⟨notices, .ok (result, m', gate')⟩) :
    gate' = gate.step.step ∧ m.MutatedBy gate (accepted (.add start ⟨size, depth⟩) result) m' ∧
      sectionsIn notices = 1 ∧ freedIn notices = 0 := by
  obtain ⟨_, hnoted, rfl⟩ := Traced.note_bind_eq_mk_ok.1 h
  obtain ⟨before, ⟨⟨added, index⟩, g⟩, _, hmutate, hrest, rfl⟩ := Traced.bind_eq_mk_ok.1 hnoted
  obtain ⟨-, hinsert, rfl⟩ := Gate.mutate_eq_mk_ok.1 hmutate
  have hidle := m.index.idle_insert start (⟨size, depth⟩ : Block)
  have houtcome := congrArg Traced.outcome hinsert
  rw [hinsert] at hidle
  cases added with
  | error e =>
    cases hrest
    obtain ⟨refused, htake, -, rfl⟩ := Index.of_outcome_insert houtcome
    refine ⟨rfl, .refused htake, ?_, ?_⟩
    · rw [sectionsIn_cons, List.append_nil, hidle.1]
      rfl
    · rw [freedIn_cons, List.append_nil, hidle.2]
      rfl
  | ok _ =>
    obtain ⟨_, index', _, hcollect, hlast, rfl⟩ := Traced.bind_eq_mk_ok.1 hrest
    cases hlast
    rw [List.append_nil]
    exact ⟨rfl, mutatedBy_of_collect (n := .addingBlock start size depth) rfl rfl hidle
      (.add houtcome) hcollect⟩

/-- A clear is a mutation, unless its range is empty. -/
theorem mutatedBy_of_clearRange {size : Address} (hsize : size ≠ 0)
    (h : m.clearRange gate start size = ⟨notices, .ok (m', gate')⟩) :
    gate' = gate.step.step ∧ m.MutatedBy gate (some (.clear start size)) m' ∧
      sectionsIn notices = 1 ∧ freedIn notices = 0 := by
  rw [clearRange, if_neg hsize] at h
  obtain ⟨_, hnoted, rfl⟩ := Traced.note_bind_eq_mk_ok.1 h
  obtain ⟨before, ⟨⟨removed, index⟩, g⟩, _, hmutate, hrest, rfl⟩ := Traced.bind_eq_mk_ok.1 hnoted
  obtain ⟨-, hremove, rfl⟩ := Gate.mutate_eq_mk_ok.1 hmutate
  obtain ⟨rfl, houtcome⟩ := Traced.mk.inj hremove
  obtain ⟨rfl, rfl⟩ := Prod.ext_iff.1 (Except.ok.inj houtcome)
  obtain ⟨_, index', _, hcollect, hlast, rfl⟩ := Traced.bind_eq_mk_ok.1 hrest
  cases hlast
  rw [List.append_nil]
  exact ⟨rfl, mutatedBy_of_collect (n := .clearingBlocks start size) rfl rfl idle_nil
    (.clear start size) hcollect⟩

end DepthBlocks

/-! ## (3) Mutations of a registry -/

/-- What a mutation does to a map: an edit, or nothing if it is a refused addition. -/
inductive Mutation where
  | regions (edit : Option (Edit Region))
  | blocks (edit : Option (Edit Block))
  /-- There is no room for a region in the list of removed ones, so the gate is not even set. -/
  | turnedAway

namespace Mutation

/-- The mutation sets the gate. -/
def setsGate : Mutation → Bool
  | regions _ | blocks _ => true
  | turnedAway => false

/-- Clearing the regions that start in a range is a mutation unless the range is empty. -/
def clearingRegions (start size : Address) : List Mutation :=
  if size = 0 then [] else [.regions (some (.clear start size))]

/-- Clearing the blocks that start in a range is a mutation unless the range is empty. -/
def clearingBlocks (start size : Address) : List Mutation :=
  if size = 0 then [] else [.blocks (some (.clear start size))]

/-- The edits of the region map among mutations. -/
def regionEdits : Mutation → List (Edit Region)
  | regions e => e.toList
  | blocks _ | turnedAway => []

/-- The edits of the depth map among mutations. -/
def blockEdits : Mutation → List (Edit Block)
  | regions _ | turnedAway => []
  | blocks e => e.toList

/-- Some mutations add the pieces of the code from `start` on: each piece is one, up to the first
that is refused. -/
def AddPieces (start : Address) (pieces : List Piece) :
    Except OutOfMemory Unit → List Mutation → Prop
  | .ok (), ms => ms = pieces.map fun piece => .blocks (some (Registry.addPiece start piece))
  | .error _, ms => ∃ n < pieces.length,
      ms = (pieces.take n).map (fun piece => .blocks (some (Registry.addPiece start piece))) ++
        [.blocks none]

end Mutation

namespace Registry

variable {r r' r'' : Registry} {ms ms' : List Mutation} {notices notices' : List Notice}
  {start size : Address} {result : Except OutOfMemory Unit}

/-- What a mutation makes of a registry, and how many chains it frees. -/
inductive Mutates (r : Registry) : Mutation → Nat → Registry → Prop
  | regions {e : Option (Edit Region)} {freed : Nat} {regions : Regions} :
      r.regions.MutatedBy r.gate e freed regions →
      Mutates r (.regions e) freed { r with gate := r.gate.step.step, regions }
  | blocks {e : Option (Edit Block)} {blocks : DepthBlocks} :
      r.blocks.MutatedBy r.gate e blocks →
      Mutates r (.blocks e) 0 { r with gate := r.gate.step.step, blocks }
  | turnedAway : r.regions.ListFails →
      Mutates r .turnedAway 0 { r with regions := { r.regions with asked := r.regions.asked + 1 } }

/-- What mutations in a row make of a registry, and how many chains they free. -/
inductive Undergoes : Registry → List Mutation → Nat → Registry → Prop
  | nil (r : Registry) : Undergoes r [] 0 r
  | cons {r r₁ r₂ : Registry} {m : Mutation} {ms : List Mutation} {freed freed' : Nat} :
      r.Mutates m freed r₁ → Undergoes r₁ ms freed' r₂ →
      Undergoes r (m :: ms) (freed + freed') r₂

/-- Mutations in a row, and then more of them, are mutations in a row. -/
theorem Undergoes.append {freed freed' : Nat} (h : r.Undergoes ms freed r')
    (h' : r'.Undergoes ms' freed' r'') : r.Undergoes (ms ++ ms') (freed + freed') r'' := by
  induction h with
  | nil r => rwa [Nat.zero_add]
  | cons hm _ ih =>
    rw [Nat.add_assoc]
    exact .cons hm (ih h')

/-- Only where there is no room for a region is one turned away. -/
theorem Undergoes.listFails {freed : Nat} (h : r.Undergoes (.turnedAway :: ms) freed r') :
    r.regions.ListFails := by
  cases h with
  | cons hfirst _ =>
    cases hfirst with
    | turnedAway hlist => exact hlist

/-- Mutations leave the readers alone, and each of those that set the gate takes it two steps
further. -/
theorem Undergoes.gate {freed : Nat} (h : r.Undergoes ms freed r') :
    r'.gate = ⟨r.gate.sequence + UInt64.ofNat (2 * ms.countP Mutation.setsGate),
      r.gate.readers⟩ := by
  induction h with
  | nil r => simp
  | @cons r r₁ r₂ m ms _ _ hm _ ih =>
    have hreaders : r₁.gate.readers = r.gate.readers := by cases hm <;> rfl
    have hsequence : r₁.gate.sequence =
        r.gate.sequence + UInt64.ofNat (2 * if m.setsGate then 1 else 0) := by
      cases hm with
      | regions _ | blocks _ => exact UInt64.add_assoc r.gate.sequence 1 1
      | turnedAway _ => exact (UInt64.add_zero _).symm
    rw [ih, hsequence, hreaders, UInt64.add_assoc, ← UInt64.ofNat_add, List.countP_cons,
      Nat.mul_add, Nat.add_comm]

/-- What the list of removed regions has room for is not up to mutations. -/
theorem Undergoes.list_eq {freed : Nat} (h : r.Undergoes ms freed r') :
    r'.regions.list = r.regions.list := by
  induction h with
  | nil r => rfl
  | cons hm _ ih =>
    refine ih.trans ?_
    cases hm with
    | regions hmutated => cases hmutated <;> rfl
    | blocks _ | turnedAway _ => rfl

/-- Each index undergoes the edits of its map. -/
theorem Undergoes.indexes {freed : Nat} (h : r.Undergoes ms freed r') :
    r.regions.index.Undergoes r.gate (ms.flatMap Mutation.regionEdits) r'.regions.index ∧
      r.blocks.index.Undergoes r.gate (ms.flatMap Mutation.blockEdits) r'.blocks.index := by
  induction h with
  | nil r => exact ⟨.nil _, .nil _⟩
  | @cons r r₁ r₂ m ms _ _ hm _ ih =>
    -- the gate has moved in the mutation, but whoever reads reads all the while
    have hreaders : r.gate.readers = r₁.gate.readers := by cases hm <;> rfl
    have hregions := ih.1.of_readers hreaders
    have hblocks := ih.2.of_readers hreaders
    cases hm with
    | regions hmutated => exact ⟨hmutated.index.append hregions, hblocks⟩
    | blocks hmutated => exact ⟨hregions, hmutated.index.append hblocks⟩
    | turnedAway _ => exact ⟨hregions, hblocks⟩

/-- A registry undergoes some mutations, and notices tell of just these. -/
structure Works (r : Registry) (notices : List Notice) (ms : List Mutation) (r' : Registry) :
    Prop where
  undergoes : r.Undergoes ms (freedIn notices) r'
  sections : sectionsIn notices = ms.length

/-- Nothing happens without a mutation. -/
theorem Works.refl (r : Registry) : r.Works [] [] r := ⟨.nil r, rfl⟩

/-- Works in a row are a work. -/
theorem Works.trans (h : r.Works notices ms r') (h' : r'.Works notices' ms' r'') :
    r.Works (notices ++ notices') (ms ++ ms') r'' where
  undergoes := freedIn_append notices notices' ▸ h.undergoes.append h'.undergoes
  sections := by rw [sectionsIn_append, h.sections, h'.sections, List.length_append]

/-- One mutation with its notices is a work. -/
theorem Mutates.works {m : Mutation} (h : r.Mutates m (freedIn notices) r')
    (hsections : sectionsIn notices = 1) : r.Works notices [m] r' :=
  ⟨.cons h (.nil r'), hsections⟩

/-- A notice that is not about a mutation. -/
theorem works_note {n : Notice} (hopens : n.Opens = false) (hfreed : n.freed = 0) (r : Registry) :
    r.Works [n] [] r where
  undergoes := by
    rw [freedIn_cons, hfreed]
    exact .nil r
  sections := by
    rw [sectionsIn_cons, hopens]
    rfl

/-! ## (4) Calls -/

/-- Adding a region is one mutation. It is turned away exactly if there is no room for the region in
the list of removed ones. -/
theorem works_addRegion {size : UInt32} {chain : Chain}
    (h : r.addRegion start size chain = ⟨notices, .ok (result, r')⟩) :
    if r.regions.ListFails then
      result = .error .ofReservation ∧ r.Works notices [.turnedAway] r'
    else r.Works notices [.regions (accepted (.add start ⟨size, chain, r.regions.issued⟩) result)]
      r' := by
  obtain ⟨_, ⟨added, regions, gate⟩, _, hadd, hlast, rfl⟩ := Traced.bind_eq_mk_ok.1 h
  cases hlast
  rw [List.append_nil]
  split
  · rename_i hlist
    rw [Regions.add_of_listFails hlist] at hadd
    cases hadd
    exact ⟨rfl, Mutates.works (.turnedAway hlist) rfl⟩
  · rename_i hlist
    obtain ⟨rfl, hsections, hmutated⟩ := Regions.mutatedBy_of_add hlist hadd
    exact (Mutates.regions hmutated).works hsections

/-- Registering code is adding its region; a notice of a refusal comes on top. -/
theorem works_registerCode {size : UInt32} {chain : Chain}
    (h : r.registerCode start size chain = ⟨notices, .ok (result, r')⟩) :
    if r.regions.ListFails then
      result = .error .ofReservation ∧ r.Works notices [.turnedAway] r'
    else r.Works notices [.regions (accepted (.add start ⟨size, chain, r.regions.issued⟩) result)]
      r' := by
  obtain ⟨_, ⟨added, r₁⟩, _, hadd, hlast, rfl⟩ := Traced.bind_eq_mk_ok.1 h
  have hworks := works_addRegion hadd
  cases added with
  | ok _ =>
    cases hlast
    rwa [List.append_nil]
  | error e =>
    cases hlast
    have hnote : r'.Works [.regionRefused start e] [] r' := works_note rfl rfl _
    by_cases hlist : r.regions.ListFails
    · rw [if_pos hlist] at hworks ⊢
      exact ⟨hworks.1, hworks.2.trans hnote⟩
    · rw [if_neg hlist] at hworks ⊢
      exact hworks.trans hnote

/-- Unregistering code is a mutation. -/
theorem works_unregisterCode (h : r.unregisterCode start = ⟨notices, .ok r'⟩) :
    r.Works notices [.regions (some (.remove start))] r' := by
  obtain ⟨_, ⟨regions, gate⟩, _, hremove, hlast, rfl⟩ := Traced.bind_eq_mk_ok.1 h
  cases hlast
  obtain ⟨rfl, hsections, hmutated⟩ := Regions.mutatedBy_of_remove hremove
  rw [List.append_nil]
  exact (Mutates.regions hmutated).works hsections

/-- Clearing regions is a mutation, unless the range is empty. -/
theorem works_clearRegions (h : r.clearRegions start size = ⟨notices, .ok r'⟩) :
    r.Works notices (Mutation.clearingRegions start size) r' := by
  obtain ⟨_, ⟨regions, gate⟩, _, hclear, hlast, rfl⟩ := Traced.bind_eq_mk_ok.1 h
  cases hlast
  rw [List.append_nil, Mutation.clearingRegions]
  split
  · rw [Regions.clearRange, if_pos ‹_›] at hclear
    cases hclear
    exact .refl r
  · obtain ⟨rfl, hsections, hmutated⟩ := Regions.mutatedBy_of_clearRange ‹_› hclear
    exact (Mutates.regions hmutated).works hsections

/-- Adding a block is a mutation. -/
theorem works_addBlock {size depth : UInt32}
    (h : r.addBlock start size depth = ⟨notices, .ok (result, r')⟩) :
    r.Works notices [.blocks (accepted (.add start ⟨size, depth⟩) result)] r' := by
  obtain ⟨_, ⟨added, blocks, gate⟩, _, hadd, hlast, rfl⟩ := Traced.bind_eq_mk_ok.1 h
  cases hlast
  obtain ⟨rfl, hmutated, hsections, hfreed⟩ := DepthBlocks.mutatedBy_of_add hadd
  rw [List.append_nil]
  exact Mutates.works (hfreed ▸ .blocks hmutated) hsections

/-- Clearing blocks is a mutation, unless the range is empty. -/
theorem works_clearBlocks (h : r.clearBlocks start size = ⟨notices, .ok r'⟩) :
    r.Works notices (Mutation.clearingBlocks start size) r' := by
  obtain ⟨_, ⟨blocks, gate⟩, _, hclear, hlast, rfl⟩ := Traced.bind_eq_mk_ok.1 h
  cases hlast
  rw [List.append_nil, Mutation.clearingBlocks]
  split
  · rw [DepthBlocks.clearRange, if_pos ‹_›] at hclear
    cases hclear
    exact .refl r
  · obtain ⟨rfl, hmutated, hsections, hfreed⟩ := DepthBlocks.mutatedBy_of_clearRange ‹_› hclear
    exact Mutates.works (hfreed ▸ .blocks hmutated) hsections

/-- Adding pieces is a mutation for each piece, up to the first that is refused. -/
theorem works_addPieces {pieces : List Piece}
    (h : r.addPieces start pieces = ⟨notices, .ok (result, r')⟩) :
    ∃ ms, Mutation.AddPieces start pieces result ms ∧ r.Works notices ms r' := by
  induction pieces generalizing r notices with
  | nil =>
    cases h
    exact ⟨[], rfl, .refl _⟩
  | cons piece rest ih =>
    rw [addPieces] at h
    split at h
    · cases h
    · obtain ⟨_, ⟨added, r₁⟩, _, hadd, hrest, rfl⟩ := Traced.bind_eq_mk_ok.1 h
      have hfirst := works_addBlock hadd
      cases added with
      | error e =>
        cases hrest
        rw [List.append_nil]
        exact ⟨_, ⟨0, Nat.succ_pos _, rfl⟩, hfirst⟩
      | ok _ =>
        -- the first piece is one more in front of those that were added
        obtain ⟨ms, hms, hworks⟩ := ih hrest
        refine ⟨_, ?_, hfirst.trans hworks⟩
        cases result with
        | ok _ => exact congrArg (_ :: ·) hms
        | error e =>
          obtain ⟨n, hn, rfl⟩ := hms
          exact ⟨n + 1, Nat.succ_lt_succ hn, rfl⟩

/-- Registering depths is adding the pieces, and clearing the code if one of them is refused. -/
theorem works_registerDepths {stop : Address} {positions : List Offset} {depths : List UInt32}
    (h : r.registerDepths start stop positions depths = ⟨notices, .ok (result, r')⟩) :
    ∃ ms, Mutation.AddPieces start (pieces (stop - start) positions depths) result ms ∧
      r.Works notices (ms ++ if result = .ok () then []
        else Mutation.clearingBlocks start (stop - start)) r' := by
  rw [registerDepths] at h
  split at h
  · cases h
  · obtain ⟨_, hnoted, rfl⟩ := Traced.note_bind_eq_mk_ok.1 h
    obtain ⟨_, ⟨added, r₁⟩, _, hadd, hrest, rfl⟩ := Traced.bind_eq_mk_ok.1 hnoted
    obtain ⟨ms, hms, hworks⟩ := works_addPieces hadd
    have hnote : r.Works [.addingDepths positions.length start stop] [] r := works_note rfl rfl r
    cases added with
    | ok _ =>
      cases hrest
      exact ⟨ms, hms, by simpa using hnote.trans hworks⟩
    | error e =>
      obtain ⟨_, hcleared, rfl⟩ := Traced.note_bind_eq_mk_ok.1 hrest
      obtain ⟨_, r₂, _, hclear, hlast, rfl⟩ := Traced.bind_eq_mk_ok.1 hcleared
      cases hlast
      have hrefused : r₁.Works [.depthsRefused start stop e] [] r₁ := works_note rfl rfl r₁
      have hrest := hrefused.trans (works_clearBlocks hclear)
      exact ⟨ms, hms, by simpa using hnote.trans (hworks.trans hrest)⟩

/-- Freeing code is clearing it in both maps. -/
theorem works_freeBlock {stop : Address} (h : r.freeBlock start stop = ⟨notices, .ok r'⟩) :
    r.Works notices (Mutation.clearingBlocks start (Address.distance start stop) ++
      Mutation.clearingRegions start (Address.distance start stop)) r' := by
  obtain ⟨_, hnoted, rfl⟩ := Traced.note_bind_eq_mk_ok.1 h
  obtain ⟨_, r₁, _, hblocks, hregions, rfl⟩ := Traced.bind_eq_mk_ok.1 hnoted
  have hnote : r.Works [.freeingBlock start stop] [] r := works_note rfl rfl r
  exact hnote.trans ((works_clearBlocks hblocks).trans (works_clearRegions hregions))

end Registry

end TraceAtlas
