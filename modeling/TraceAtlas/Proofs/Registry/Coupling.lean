import TraceAtlas.Proofs.Coupling
import TraceAtlas.Proofs.Lookup
import TraceAtlas.Proofs.Registry.Mutations

/-! # Registries side by side

Two registries with the same entries answer alike as long as they agree on which additions are
refused. When that is so depends on why the registries differ; everything else does not, and is
said here once. A coupling of indexes is a relation under which the entries are the same, every
addition is accepted in both or refused in both, and edits and collections keep it. It may grant a
number of additions only, and each of them uses up one. From a coupling for each map, all calls of a
registry that write are coupled.

## Main definitions
* `Index.Coupling` : a relation between indexes with the same entries, kept by every edit.
* `Registry.Coupling`, `Registry.Coupled` : couplings of the gates and of both maps, and registries
  that are coupled by them.

## Main statements
* `Index.floor?_eq`, `Index.size_eq`, `Index.fst_removeRange_eq`, `Regions.find_eq`,
  `DepthBlocks.depthAt?_eq` : entries determine answers.
* `Registry.Coupled.addRegion`, `Registry.Coupled.registerDepths`, `Registry.Coupled.freeBlock` and
  others : the calls of a registry that write.
-/

namespace TraceAtlas

/-! ## (1) Entries determine answers -/

namespace Contents

variable {α : Type} {m : Contents α}

/-- There is one greatest entry not above an address, or none. -/
theorem IsFloor.eq {query : Address} {found found' : Option (Address × α)}
    (h : m.IsFloor query found) (h' : m.IsFloor query found') : found = found' := by
  match found, found' with
  | none, none => rfl
  | none, some (key, a) =>
    have hnone := h key h'.2.1
    rw [h'.1] at hnone
    cases hnone
  | some (key, a), none =>
    have hnone := h' key h.2.1
    rw [h.1] at hnone
    cases hnone
  | some (key, a), some (key', a') =>
    obtain ⟨rfl, rfl⟩ := h.unique h'
    rfl

/-- Entries in a range are listed downwards in one way. -/
theorem EnumeratesDown.eq {start length : Address} {list list' : List (Address × α)}
    (h : m.EnumeratesDown start length list) (h' : m.EnumeratesDown start length list') :
    list = list' := by
  have hperm : list.Perm list' := by
    have hnodup {l : List (Address × α)} (hl : l.Pairwise fun a b => b.1 < a.1) : l.Nodup :=
      hl.imp fun hlt heq => UInt64.ne_of_lt hlt (congrArg Prod.fst heq).symm
    exact (List.perm_ext_iff_of_nodup (hnodup h.1) (hnodup h'.1)).2 fun p =>
      (h.2 p.1 p.2).trans (h'.2 p.1 p.2).symm
  exact hperm.eq_of_pairwise (fun a b _ _ hab hba => absurd hab (UInt64.lt_asymm hba)) h.1 h'.1

end Contents

namespace Index

variable {α : Type} {ix ix' jx jx' : Index α} {e : Edit α} {removed removed' : List (Address × α)}

/-- Indexes with the same entries have the same floors. -/
theorem floor?_eq (h : ix'.contents = ix.contents) (query : Address) :
    ix'.floor? query = ix.floor? query :=
  (h ▸ ix'.floor?_spec query).eq (ix.floor?_spec query)

/-- They have as many entries. -/
theorem size_eq (h : ix'.contents = ix.contents) : ix'.size = ix.size := by
  rw [ix'.size_eq_count, ix.size_eq_count, h]

/-- And the same entries of theirs lie in a range. -/
theorem fst_removeRange_eq (h : ix'.contents = ix.contents) (start length : Address) :
    (ix'.removeRange start length).1 = (ix.removeRange start length).1 :=
  (h ▸ (ix'.removeRange_spec start length).1).eq (ix.removeRange_spec start length).1

/-- An edit does to the entries what it says. -/
theorem EditedBy.contents_eq (h : ix.EditedBy e removed jx) :
    jx.contents = e.apply ix.contents := by
  cases h with
  | @add start value _ hinsert =>
    have hkey := absent_of_outcome_insert hinsert
    obtain ⟨result, added, hadd, hresult⟩ := outcome_insert_of_absent hkey value
    obtain ⟨rfl, rfl⟩ := Prod.mk.inj (Except.ok.inj (hinsert.symm.trans hadd))
    exact hresult
  | @remove start value _ hremove =>
    obtain ⟨slot, hfind, rfl⟩ := of_outcome_remove hremove
    exact contents_drop ix hfind
  | clear start length => exact (ix.removeRange_spec start length).2

/-- Where memory can be had, an addition at an address without an entry is refused exactly if the
entries and the removed ones that wait are as many as there may be. Nothing changes then. -/
theorem Stocked.outcome_insert_of_affordable {t : Tuning} {slotBytes waiting : Nat} {key : Address}
    (h : ix.Stocked (.ofTuning t slotBytes) waiting)
    (hafford : (SlotPlan.ofTuning t slotBytes).Affordable) (hlists : t.Ample)
    (hkey : ix.contents key = none) (value : α) :
    ∃ jx, (ix.insert key value).outcome =
        .ok (if ix.contents.count + waiting = t.maxNodes.toNat then
          .error ⟨UInt64.ofNat slotBytes⟩ else .ok (), jx) ∧
      (ix.contents.count + waiting = t.maxNodes.toNat → jx = ix) := by
  obtain rfl := h.retired
  have hgrow := h.plan_eq ▸ Slots.not_growthFails_of_affordable hafford ix.slots
  have hroom := h.plan_eq ▸ Slots.not_listsFail_of_ample hlists slotBytes ix.slots
  exact h.outcome_insert_of_absent hkey hgrow hroom value

end Index

/-- Region maps with the same entries find the same regions. -/
theorem Regions.find_eq {m m' : Regions} (h : m'.index.contents = m.index.contents) (gate : Gate)
    (a : Address) : m'.find gate a = m.find gate a := by
  unfold find
  rw [Index.floor?_eq h]

/-- Depth maps with the same entries give the same depths. -/
theorem DepthBlocks.depthAt?_eq {m m' : DepthBlocks} (h : m'.index.contents = m.index.contents)
    (gate : Gate) (a : Address) : m'.depthAt? gate a = m.depthAt? gate a := by
  unfold depthAt?
  rw [Index.floor?_eq h]

/-! ## (2) Couplings of indexes -/

/-- A relation between indexes with the same entries, which grants a number of further additions.
Each of them is accepted in both indexes or refused in both, which leaves them as they were, and
whatever is done to both keeps the relation. -/
structure Index.Coupling (G : Gate.Coupling) (α : Type) where
  Rel : Nat → Index α → Index α → Prop
  contents : ∀ {n : Nat} {ix ix' : Index α}, Rel n ix ix' → ix'.contents = ix.contents
  weaken : ∀ {n : Nat} {ix ix' : Index α}, Rel (n + 1) ix ix' → Rel n ix ix'
  admits : ∀ {n : Nat} {ix ix' : Index α} {key : Address} (value : α), Rel (n + 1) ix ix' →
    ix.contents key = none → ∃ result jx jx', (ix.insert key value).outcome = .ok (result, jx) ∧
      (ix'.insert key value).outcome = .ok (result, jx') ∧
      (result ≠ .ok () → jx = ix ∧ jx' = ix')
  edited : ∀ {n : Nat} {ix ix' jx jx' : Index α} {e : Edit α} {removed : List (Address × α)},
    Rel (n + e.additions.length) ix ix' → ix.EditedBy e removed jx → ix'.EditedBy e removed jx' →
      Rel n jx jx'
  collected : ∀ {n : Nat} {ix ix' : Index α} {g g' : Gate}, G.Rel g g' → Rel n ix ix' →
    Rel n (ix.collected g) (ix'.collected g')

namespace Index.Coupling

variable {α : Type} {G : Gate.Coupling} {lost : Fault → Prop} {n : Nat} {ix ix' : Index α}
  {key : Address}

/-- An insertion comes to the same in coupled indexes, and uses up one addition. -/
theorem insert (I : Index.Coupling G α) (value : α) (h : I.Rel (n + 1) ix ix') :
    Traced.Coupled lost (fun p q => p.1 = q.1 ∧ I.Rel n p.2 q.2) (ix.insert key value)
      (ix'.insert key value) := by
  by_cases hkey : ix.contents key = none
  · obtain ⟨result, jx, jx', hix, hix', hrefused⟩ := I.admits value h hkey
    refine .of_ok hix hix' ⟨rfl, ?_⟩
    cases result with
    | ok _ => exact I.edited (e := .add key value) h (.add hix) (.add hix')
    | error e =>
      obtain ⟨rfl, rfl⟩ := hrefused nofun
      exact I.weaken h
  · have hkey' : ix'.contents key ≠ none := by rwa [I.contents h]
    exact .of_error (outcome_insert_of_present hkey) (outcome_insert_of_present hkey')

/-- A removal comes to the same. -/
theorem remove (I : Index.Coupling G α) (h : I.Rel n ix ix') :
    Traced.Coupled lost (fun p q => p.1 = q.1 ∧ I.Rel n p.2 q.2) (ix.remove key)
      (ix'.remove key) := by
  have hix := ix.outcome_remove key
  have hix' := ix'.outcome_remove key
  rw [I.contents h] at hix'
  cases hkey : ix.contents key with
  | none =>
    rw [hkey] at hix hix'
    exact .of_error hix hix'
  | some value =>
    rw [hkey] at hix hix'
    obtain ⟨jx, hix, -⟩ := hix
    obtain ⟨jx', hix', -⟩ := hix'
    exact .of_ok hix hix' ⟨rfl, I.edited (e := .remove key) h (.remove hix) (.remove hix')⟩

/-- Coupled indexes stay so when a range is removed from both. -/
theorem removeRange (I : Index.Coupling G α) (h : I.Rel n ix ix') (start length : Address) :
    I.Rel n (ix.removeRange start length).2 (ix'.removeRange start length).2 := by
  have hclear' : ix'.EditedBy (.clear start length) _ _ := .clear start length
  rw [fst_removeRange_eq (I.contents h)] at hclear'
  exact I.edited (e := .clear start length) h (.clear start length) hclear'

/-- Coupled indexes stay so over collections behind coupled gates. -/
theorem collect (I : Index.Coupling G α) {g g' : Gate} (hgate : G.Rel g g') (h : I.Rel n ix ix') :
    Traced.Coupled lost (I.Rel n) (ix.collect g) (ix'.collect g') :=
  .of_ok (ix.outcome_collect_eq g) (ix'.outcome_collect_eq g') (I.collected hgate h)

end Index.Coupling

/-! ## (3) The region map -/

namespace Regions

variable {G : Gate.Coupling} {lost : Fault → Prop} {n : Nat} {m m' : Regions} {g g' : Gate}

/-- Region maps with coupled indexes, in which the next registration gets the same number and the
list of removed regions has room for it or has not. -/
structure Coupled (I : Index.Coupling G Region) (n : Nat) (m m' : Regions) : Prop where
  issued : m'.issued = m.issued
  list : m'.list = m.list
  asked : m'.asked = m.asked
  index : I.Rel n m.index m'.index

/-- A collection of the region map always ends well. -/
theorem outcome_collect_eq (m : Regions) (g : Gate) :
    (m.collect g).outcome = .ok (m.collected g) := by
  obtain ⟨m', hcollect, -⟩ := m.outcome_collect g
  have hmk : m.collect g = ⟨(m.collect g).notices, .ok m'⟩ := by rw [← hcollect]
  rw [hcollect, (collect_eq_mk_ok hmk).1]

namespace Coupled

variable {I : Index.Coupling G Region}

/-- Coupled region maps stay so over collections. -/
theorem collect (h : Coupled I n m m') (hgate : G.Rel g g') :
    Traced.Coupled lost (Coupled I n) (m.collect g) (m'.collect g') :=
  .of_ok (m.outcome_collect_eq g) (m'.outcome_collect_eq g')
    ⟨h.issued, h.list, h.asked, I.collected hgate h.index⟩

/-- Region maps that admit another addition are coupled without it. -/
theorem weaken (h : Coupled I (n + 1) m m') : Coupled I n m m' :=
  ⟨h.issued, h.list, h.asked, I.weaken h.index⟩

/-- A region comes to the same in coupled maps once there is room for it in their lists. -/
theorem place (h : Coupled I (n + 1) m m') (hgate : G.Rel g g') (start : Address) (size : UInt32)
    (chain : Chain) :
    Traced.Coupled lost (fun p q => p.1 = q.1 ∧ Coupled I n p.2.1 q.2.1 ∧ G.Rel p.2.2 q.2.2)
      (m.place g start size chain) (m'.place g' start size chain) := by
  unfold Regions.place
  rw [h.issued]
  refine (Gate.Coupling.mutate hgate (I.insert _ h.index)).bind ?_
  rintro ⟨⟨result, index⟩, g₁⟩ ⟨⟨_, index'⟩, g₁'⟩ ⟨⟨rfl, hindex⟩, hgate₁⟩
  cases result with
  | error e => exact Traced.coupled_pure ⟨rfl, ⟨rfl, h.list, h.asked, hindex⟩, hgate₁⟩
  | ok _ =>
    have hadded : Coupled I n { m with index, issued := m.issued + 1 }
        { m' with index := index', issued := m.issued + 1 } := ⟨rfl, h.list, h.asked, hindex⟩
    refine (hadded.collect hgate₁).bind fun m₁ m₁' h₁ => ?_
    exact Traced.coupled_pure ⟨rfl, h₁, hgate₁⟩

/-- An addition comes to the same in coupled maps, be it turned away, refused or accepted. -/
theorem add (h : Coupled I (n + 1) m m') (hgate : G.Rel g g') (start : Address) (size : UInt32)
    (chain : Chain) :
    Traced.Coupled lost (fun p q => p.1 = q.1 ∧ Coupled I n p.2.1 q.2.1 ∧ G.Rel p.2.2 q.2.2)
      (m.add g start size chain) (m'.add g' start size chain) := by
  have hasked : Coupled I (n + 1) { m with asked := m.asked + 1 }
      { m' with asked := m'.asked + 1 } :=
    ⟨h.issued, h.list, congrArg (· + 1) h.asked, h.index⟩
  refine Traced.coupled_note_bind ?_
  simp only [h.list, h.asked] at hasked ⊢
  split
  · exact hasked.place hgate start size chain
  · exact Traced.coupled_pure ⟨rfl, hasked.weaken, hgate⟩

/-- A removal comes to the same in coupled maps. -/
theorem remove (h : Coupled I n m m') (hgate : G.Rel g g') (start : Address) :
    Traced.Coupled lost (fun p q => Coupled I n p.1 q.1 ∧ G.Rel p.2 q.2) (m.remove g start)
      (m'.remove g' start) := by
  refine Traced.coupled_note_bind ?_
  refine (Gate.Coupling.mutate hgate (I.remove h.index)).bind ?_
  rintro ⟨⟨region, index⟩, g₁⟩ ⟨⟨_, index'⟩, g₁'⟩ ⟨⟨rfl, hindex⟩, hgate₁⟩
  have hremoved : Coupled I n { m with index, retired := region :: m.retired }
      { m' with index := index', retired := region :: m'.retired } :=
    ⟨h.issued, h.list, h.asked, hindex⟩
  refine (hremoved.collect hgate₁).bind fun m₁ m₁' h₁ => ?_
  exact Traced.coupled_pure ⟨h₁, hgate₁⟩

/-- So does a clear. -/
theorem clearRange (h : Coupled I n m m') (hgate : G.Rel g g') (start size : Address) :
    Traced.Coupled lost (fun p q => Coupled I n p.1 q.1 ∧ G.Rel p.2 q.2)
      (m.clearRange g start size) (m'.clearRange g' start size) := by
  unfold Regions.clearRange
  split
  · exact Traced.coupled_pure ⟨h, hgate⟩
  · refine Traced.coupled_note_bind ?_
    have hbody : Traced.Coupled lost (fun p q => p.1 = q.1 ∧ I.Rel n p.2 q.2)
        (pure (m.index.removeRange start size)) (pure (m'.index.removeRange start size)) :=
      Traced.coupled_pure ⟨(Index.fst_removeRange_eq (I.contents h.index) start size).symm,
        I.removeRange h.index start size⟩
    refine (Gate.Coupling.mutate hgate hbody).bind ?_
    rintro ⟨⟨removed, index⟩, g₁⟩ ⟨⟨_, index'⟩, g₁'⟩ ⟨⟨rfl, hindex⟩, hgate₁⟩
    have hremoved : Coupled I n
        { m with index, retired := (removed.map (·.2)).reverse ++ m.retired }
        { m' with index := index', retired := (removed.map (·.2)).reverse ++ m'.retired } :=
      ⟨h.issued, h.list, h.asked, hindex⟩
    refine (hremoved.collect hgate₁).bind fun m₁ m₁' h₁ => ?_
    exact Traced.coupled_pure ⟨h₁, hgate₁⟩

end Coupled

end Regions

/-! ## (4) The depth map -/

namespace DepthBlocks

variable {G : Gate.Coupling} {lost : Fault → Prop} {n : Nat} {m m' : DepthBlocks} {g g' : Gate}
  {I : Index.Coupling G Block}

/-- An addition comes to the same in coupled depth maps. -/
theorem coupled_add (h : I.Rel (n + 1) m.index m'.index) (hgate : G.Rel g g') (start : Address)
    (size depth : UInt32) :
    Traced.Coupled lost
      (fun p q => p.1 = q.1 ∧ I.Rel n p.2.1.index q.2.1.index ∧ G.Rel p.2.2 q.2.2)
      (m.add g start size depth) (m'.add g' start size depth) := by
  refine Traced.coupled_note_bind ?_
  refine (Gate.Coupling.mutate hgate (I.insert _ h)).bind ?_
  rintro ⟨⟨result, index⟩, g₁⟩ ⟨⟨_, index'⟩, g₁'⟩ ⟨⟨rfl, hindex⟩, hgate₁⟩
  cases result with
  | error e => exact Traced.coupled_pure ⟨rfl, hindex, hgate₁⟩
  | ok _ =>
    refine (I.collect hgate₁ hindex).bind fun index₁ index₁' h₁ => ?_
    exact Traced.coupled_pure ⟨rfl, h₁, hgate₁⟩

/-- So does a clear. -/
theorem coupled_clearRange (h : I.Rel n m.index m'.index) (hgate : G.Rel g g')
    (start size : Address) :
    Traced.Coupled lost (fun p q => I.Rel n p.1.index q.1.index ∧ G.Rel p.2 q.2)
      (m.clearRange g start size) (m'.clearRange g' start size) := by
  unfold clearRange
  split
  · exact Traced.coupled_pure ⟨h, hgate⟩
  · refine Traced.coupled_note_bind ?_
    have hbody : Traced.Coupled lost (fun p q => I.Rel n p.2 q.2)
        (pure (m.index.removeRange start size)) (pure (m'.index.removeRange start size)) :=
      Traced.coupled_pure (I.removeRange h start size)
    refine (Gate.Coupling.mutate hgate hbody).bind fun p q h₁ => ?_
    refine (I.collect h₁.2 h₁.1).bind fun index₁ index₁' h₂ => ?_
    exact Traced.coupled_pure ⟨h₂, h₁.2⟩

end DepthBlocks

/-! ## (5) Registries -/

/-- A coupling of the gates and one of each map. -/
structure Registry.Coupling where
  gates : Gate.Coupling
  regions : Index.Coupling gates Region
  blocks : Index.Coupling gates Block

namespace Registry

variable {C : Registry.Coupling} {lost : Fault → Prop} {n k : Nat} {r r' : Registry}
  {start : Address}

/-- Registries whose parts are coupled. Each map may still undergo that many additions. -/
structure Coupled (C : Registry.Coupling) (n : Nat) (r r' : Registry) : Prop where
  gate : C.gates.Rel r.gate r'.gate
  regions : r.regions.Coupled C.regions n r'.regions
  blocks : C.blocks.Rel n r.blocks.index r'.blocks.index

namespace Coupled

/-- Registries that admit further additions are coupled without them. -/
theorem weaken (h : Coupled C (n + k) r r') : Coupled C n r r' := by
  induction k with
  | zero => exact h
  | succ k ih =>
    exact ih ⟨h.gate, h.regions.weaken, C.blocks.weaken h.blocks⟩

/-- Adding a region comes to the same in coupled registries, and uses up one addition. -/
theorem addRegion (h : Coupled C (n + 1) r r') (start : Address) (size : UInt32) (chain : Chain) :
    Traced.Coupled lost (fun p q => p.1 = q.1 ∧ Coupled C n p.2 q.2)
      (r.addRegion start size chain) (r'.addRegion start size chain) := by
  refine (h.regions.add h.gate start size chain).bind ?_
  rintro ⟨result, m, g⟩ ⟨_, m', g'⟩ ⟨rfl, hregions, hgate⟩
  exact Traced.coupled_pure ⟨rfl, hgate, hregions, C.blocks.weaken h.blocks⟩

/-- So does registering code. -/
theorem registerCode (h : Coupled C (n + 1) r r') (start : Address) (size : UInt32)
    (chain : Chain) :
    Traced.Coupled lost (fun p q => p.1 = q.1 ∧ Coupled C n p.2 q.2)
      (r.registerCode start size chain) (r'.registerCode start size chain) :=
  (h.addRegion start size chain).of_outcome_eq (outcome_registerCode r start size chain)
    (outcome_registerCode r' start size chain)

/-- Unregistering code comes to the same. -/
theorem unregisterCode (h : Coupled C n r r') (start : Address) :
    Traced.Coupled lost (Coupled C n) (r.unregisterCode start) (r'.unregisterCode start) := by
  refine (h.regions.remove h.gate start).bind fun p q h₁ => ?_
  exact Traced.coupled_pure ⟨h₁.2, h₁.1, h.blocks⟩

/-- Clearing regions comes to the same. -/
theorem clearRegions (h : Coupled C n r r') (start size : Address) :
    Traced.Coupled lost (Coupled C n) (r.clearRegions start size) (r'.clearRegions start size) := by
  refine (h.regions.clearRange h.gate start size).bind fun p q h₁ => ?_
  exact Traced.coupled_pure ⟨h₁.2, h₁.1, h.blocks⟩

/-- Adding a block comes to the same, and uses up one addition. -/
theorem addBlock (h : Coupled C (n + 1) r r') (start : Address) (size depth : UInt32) :
    Traced.Coupled lost (fun p q => p.1 = q.1 ∧ Coupled C n p.2 q.2)
      (r.addBlock start size depth) (r'.addBlock start size depth) := by
  refine (DepthBlocks.coupled_add h.blocks h.gate start size depth).bind ?_
  rintro ⟨result, m, g⟩ ⟨_, m', g'⟩ ⟨rfl, hblocks, hgate⟩
  have hregions := (weaken h).regions
  exact Traced.coupled_pure ⟨rfl, hgate, hregions, hblocks⟩

/-- Clearing blocks comes to the same. -/
theorem clearBlocks (h : Coupled C n r r') (start size : Address) :
    Traced.Coupled lost (Coupled C n) (r.clearBlocks start size) (r'.clearBlocks start size) := by
  refine (DepthBlocks.coupled_clearRange h.blocks h.gate start size).bind fun p q h₁ => ?_
  exact Traced.coupled_pure ⟨h₁.2, h.regions, h₁.1⟩

/-- Pieces are added in both or stop at the same one. Those after it use up nothing. -/
theorem addPieces {pieces : List Piece} (h : Coupled C (n + pieces.length) r r') :
    Traced.Coupled lost (fun p q => p.1 = q.1 ∧ Coupled C n p.2 q.2)
      (r.addPieces start pieces) (r'.addPieces start pieces) := by
  induction pieces generalizing r r' with
  | nil => exact Traced.coupled_pure ⟨rfl, h⟩
  | cons piece rest ih =>
    rw [Registry.addPieces, Registry.addPieces]
    split
    · exact Traced.coupled_fault _
    · refine (addBlock (n := n + rest.length) h _ _ _).bind ?_
      rintro ⟨result, r₁⟩ ⟨_, r₁'⟩ ⟨rfl, h₁⟩
      cases result with
      | error e => exact Traced.coupled_pure ⟨rfl, h₁.weaken⟩
      | ok _ => exact ih h₁

/-- Registering depths comes to the same, and uses up an addition for each piece. -/
theorem registerDepths {stop : Address} {positions : List Offset} {depths : List UInt32}
    (h : Coupled C (n + (pieces (stop - start) positions depths).length) r r') :
    Traced.Coupled lost (fun p q => p.1 = q.1 ∧ Coupled C n p.2 q.2)
      (r.registerDepths start stop positions depths)
      (r'.registerDepths start stop positions depths) := by
  unfold Registry.registerDepths
  split
  · exact Traced.coupled_fault _
  · refine Traced.coupled_note_bind (h.addPieces.bind ?_)
    rintro ⟨result, r₁⟩ ⟨_, r₁'⟩ ⟨rfl, h₁⟩
    cases result with
    | ok _ => exact Traced.coupled_pure ⟨rfl, h₁⟩
    | error e =>
      refine Traced.coupled_note_bind ?_
      refine (h₁.clearBlocks start (stop - start)).bind fun r₂ r₂' h₂ => ?_
      exact Traced.coupled_pure ⟨rfl, h₂⟩

/-- Freeing code comes to the same. -/
theorem freeBlock (h : Coupled C n r r') (start stop : Address) :
    Traced.Coupled lost (Coupled C n) (r.freeBlock start stop) (r'.freeBlock start stop) := by
  refine Traced.coupled_note_bind ?_
  exact (h.clearBlocks start _).bind fun r₁ r₁' h₁ => h₁.clearRegions start _

end Coupled

end Registry

end TraceAtlas
