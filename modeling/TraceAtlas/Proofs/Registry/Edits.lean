import TraceAtlas.Proofs.Registry

/-! # Edits of the maps

What becomes of a registry is told by two lists of edits, one for each map. An edit adds an entry
where none starts, removes the one that starts at an address, or clears a range of starts. An entry
is live after some edits exactly if one of them added it and no later one ended it. Here every call
that ends well is said in terms of the edits it makes, whether the gate was clear or set: behind a
set gate a call either is a fault or has nothing to do.

## Main definitions
* `Edit` : one change of a map.
* `Contents.Edited` : edits in a row, each of which fits the map it finds.
* `Edit.Live` : an entry was added and is not ended yet.
* `Registry.Edited` : what some edits of both maps make of a registry.

## Main statements
* `Contents.Edited.eq_some_iff_live` : the entries of a map are those that its edits left live.
* `Registry.edited_registerCode`, `Registry.edited_unregisterCode`, `Registry.edited_clearRegions`,
  `Registry.edited_addBlock`, `Registry.edited_clearBlocks`, `Registry.edited_registerDepths`,
  `Registry.edited_freeBlock` : the calls.
-/

namespace TraceAtlas

/-! ## (1) Maps -/

/-- A change of a map. -/
inductive Edit (α : Type) where
  /-- An entry is added. -/
  | add (start : Address) (value : α)
  /-- The entry that starts at an address is removed. -/
  | remove (start : Address)
  /-- All entries that start in a range are removed. -/
  | clear (start length : Address)

namespace Edit

variable {α : Type} {m : Contents α} {e : Edit α} {k : Address} {v : α}

/-- An edit ends the entry that starts at an address. -/
def Ends (k : Address) : Edit α → Prop
  | add _ _ => False
  | remove start => k = start
  | clear start length => Address.InRange start length k

/-- An edit finds what it needs: no entry where it adds one, and an entry where it removes one. -/
def Fits (m : Contents α) : Edit α → Prop
  | add start _ => m start = none
  | remove start => m start ≠ none
  | clear _ _ => True

/-- The map after an edit. -/
def apply (m : Contents α) : Edit α → Contents α
  | add start value => Function.update m start (some value)
  | remove start => Function.update m start none
  | clear start length => m.eraseRange start length

/-- An entry is there after an edit exactly if the edit added it, or it was there and the edit did
not end it. -/
theorem Fits.apply_eq_some_iff (h : e.Fits m) :
    e.apply m k = some v ↔ e = .add k v ∨ m k = some v ∧ ¬e.Ends k := by
  cases e with
  | add start value =>
    have hfree : m start = none := h
    by_cases hk : k = start
    · subst hk
      simp [apply, Ends, hfree]
    · rw [apply, Function.update_of_ne hk]
      simp [Ends, Ne.symm hk]
  | remove start =>
    by_cases hk : k = start
    · simp [apply, Ends, hk]
    · rw [apply, Function.update_of_ne hk]
      simp [Ends, hk]
  | clear start length =>
    show (if Address.InRange start length k then none else m k) = some v ↔ _
    by_cases hk : Address.InRange start length k
    · simp [Ends, hk]
    · simp [Ends, hk]

/-- Among some edits one added the entry, and none after it ended what starts there. -/
def Live (edits : List (Edit α)) (k : Address) (v : α) : Prop :=
  ∃ before after, edits = before ++ add k v :: after ∧ ∀ e ∈ after, ¬e.Ends k

/-- Nothing is live before the first edit. -/
theorem not_live_nil : ¬Live [] k v := by
  rintro ⟨before, after, h, -⟩
  cases before <;> cases h

/-- An entry is live after the first edit and others exactly if the first adds it and none of the
others ends it, or if the others make it live. -/
theorem live_cons_iff {edits : List (Edit α)} :
    Live (e :: edits) k v ↔ e = .add k v ∧ (∀ e ∈ edits, ¬e.Ends k) ∨ Live edits k v := by
  constructor
  · rintro ⟨before, after, h, hafter⟩
    cases before with
    | nil =>
      obtain ⟨rfl, rfl⟩ := List.cons.inj h
      exact .inl ⟨rfl, hafter⟩
    | cons first before =>
      obtain ⟨-, rfl⟩ := List.cons.inj h
      exact .inr ⟨before, after, rfl, hafter⟩
  · rintro (⟨rfl, hafter⟩ | ⟨before, after, rfl, hafter⟩)
    · exact ⟨[], edits, rfl, hafter⟩
    · exact ⟨e :: before, after, rfl, hafter⟩

/-- A live entry was added. -/
theorem Live.mem {edits : List (Edit α)} (h : Live edits k v) : .add k v ∈ edits := by
  obtain ⟨before, after, rfl, -⟩ := h
  simp

/-- Among edits that do not end it, an entry is live exactly if it is added. -/
theorem live_iff_mem {edits : List (Edit α)} (h : ∀ e ∈ edits, ¬e.Ends k) :
    Live edits k v ↔ .add k v ∈ edits := by
  refine ⟨Live.mem, ?_⟩
  intro hmem
  obtain ⟨before, after, rfl⟩ := List.append_of_mem hmem
  exact ⟨before, after, rfl, fun e he => h e (by simp [he])⟩

end Edit

namespace Contents

variable {α : Type} {m m' m'' : Contents α} {k : Address} {v : α}

/-- A map becomes another one by edits in a row, each of which fits the map it finds. -/
inductive Edited : Contents α → List (Edit α) → Contents α → Prop
  | nil (m : Contents α) : Edited m [] m
  | cons {m m' : Contents α} {e : Edit α} {edits : List (Edit α)} :
      e.Fits m → Edited (e.apply m) edits m' → Edited m (e :: edits) m'

namespace Edited

/-- One edit is edits in a row. -/
theorem single {e : Edit α} (h : e.Fits m) : m.Edited [e] (e.apply m) := .cons h (.nil _)

/-- Edits in a row and then more of them are edits in a row. -/
theorem trans {edits edits' : List (Edit α)} (h : m.Edited edits m') (h' : m'.Edited edits' m'') :
    m.Edited (edits ++ edits') m'' := by
  induction h with
  | nil m => exact h'
  | cons hfits _ ih => exact .cons hfits (ih h')

/-- An entry is there after some edits exactly if they left it live, or it was there before and none
of them ended it. -/
theorem eq_some_iff {edits : List (Edit α)} (h : m.Edited edits m') :
    m' k = some v ↔ Edit.Live edits k v ∨ m k = some v ∧ ∀ e ∈ edits, ¬e.Ends k := by
  induction h with
  | nil m => simp [Edit.not_live_nil]
  | cons hfits _ ih =>
    -- what the first edit added counts as live if no later one ends it
    rw [ih, hfits.apply_eq_some_iff, Edit.live_cons_iff, List.forall_mem_cons]
    tauto

/-- **The entries of a map that started empty** are those that its edits left live. -/
theorem eq_some_iff_live {edits : List (Edit α)} (h : Contents.empty.Edited edits m) :
    m k = some v ↔ Edit.Live edits k v := by
  rw [h.eq_some_iff]
  exact or_iff_left fun hnone => by cases hnone.1

/-- Edits that only add entries leave what there was. -/
theorem eq_some_iff_of_adds {edits : List (Edit α)} (h : m.Edited edits m')
    (hadds : ∀ e ∈ edits, ∃ a w, e = .add a w) :
    m' k = some v ↔ .add k v ∈ edits ∨ m k = some v := by
  have hkept : ∀ e ∈ edits, ¬e.Ends k := by
    intro e he
    obtain ⟨a, w, rfl⟩ := hadds e he
    exact id
  rw [h.eq_some_iff, Edit.live_iff_mem hkept]
  exact or_congr_right (and_iff_left hkept)

/-- Edits that only add entries add as many as there are edits. -/
theorem count_of_adds {edits : List (Edit α)} (h : m.Edited edits m')
    (hadds : ∀ e ∈ edits, ∃ a w, e = .add a w) : m'.count = m.count + edits.length := by
  induction h with
  | nil m => rfl
  | @cons m m' e edits hfits _ ih =>
    obtain ⟨⟨a, w, rfl⟩, hrest⟩ := List.forall_mem_cons.1 hadds
    rw [ih hrest, Edit.apply, count_update hfits, List.length_cons, Nat.add_right_comm,
      Nat.add_assoc]

/-- No edits change nothing. -/
theorem eq_of_nil (h : m.Edited [] m') : m' = m := by
  cases h
  rfl

/-- Between any two of the edits there is a moment. -/
theorem exists_of_append {edits edits' : List (Edit α)} (h : m.Edited (edits ++ edits') m'') :
    ∃ m', m.Edited edits m' ∧ m'.Edited edits' m'' := by
  induction edits generalizing m with
  | nil => exact ⟨m, .nil m, h⟩
  | cons e edits ih =>
    cases h with
    | cons hfits hrest =>
      obtain ⟨m', hedits, hedits'⟩ := ih hrest
      exact ⟨m', .cons hfits hedits, hedits'⟩

/-- Entries that are added in a range and then cleared with it leave nothing behind, but whatever
else was in the range is gone as well. -/
theorem eq_eraseRange {edits : List (Edit α)} {start length : Address}
    (h : m.Edited (edits ++ [.clear start length]) m')
    (hadds : ∀ e ∈ edits, ∃ a v, e = .add a v ∧ Address.InRange start length a) :
    m' = m.eraseRange start length := by
  obtain ⟨m₁, hadded, hcleared⟩ := h.exists_of_append
  obtain rfl : m' = m₁.eraseRange start length := by
    cases hcleared with
    | cons _ hlast => exact hlast.eq_of_nil
  funext k
  unfold eraseRange
  split
  · rfl
  · rename_i hk
    apply Option.ext
    intro v
    -- outside of the range nothing was added
    have hnew : .add k v ∉ edits := by
      intro hmem
      obtain ⟨a, w, heq, hin⟩ := hadds _ hmem
      injection heq with hka
      exact hk (hka ▸ hin)
    rw [hadded.eq_some_iff_of_adds fun e he => (hadds e he).imp fun _ ⟨w, heq, _⟩ => ⟨w, heq⟩]
    exact or_iff_right hnew

end Edited

end Contents

/-! ## (2) What a call needs -/

namespace Regions

variable {m : Regions} {gate : Gate} {start size : Address}

/-- A region is added behind a clear gate only, and only where none starts, unless there is no room
for it in the list of removed ones. -/
theorem of_outcome_add {size : UInt32} {chain : Chain}
    {out : Except OutOfMemory Unit × Regions × Gate}
    (h : (m.add gate start size chain).outcome = .ok out) :
    ¬gate.Invalid ∧ m.index.contents start = none ∨
      m.ListFails ∧ out = (.error .ofReservation, { m with asked := m.asked + 1 }, gate) := by
  by_cases hlist : m.ListFails
  · rw [add_of_listFails hlist] at h
    exact .inr ⟨hlist, (Except.ok.inj h).symm⟩
  · rw [add_of_not_listFails hlist, Traced.outcome_note_bind] at h
    obtain ⟨⟨inserted, gate'⟩, hmutate, -⟩ := Traced.outcome_bind_eq_ok.1 h
    obtain ⟨hgate, hinsert⟩ := Gate.of_outcome_mutate hmutate
    exact .inl ⟨hgate, Index.absent_of_outcome_insert hinsert⟩

/-- A region that is removed was there, behind a gate that was clear. -/
theorem of_outcome_remove {out : Regions × Gate} (h : (m.remove gate start).outcome = .ok out) :
    ¬gate.Invalid ∧ m.index.contents start ≠ none := by
  rw [remove, Traced.outcome_note_bind] at h
  obtain ⟨⟨removed, gate'⟩, hmutate, -⟩ := Traced.outcome_bind_eq_ok.1 h
  obtain ⟨hgate, hremove⟩ := Gate.of_outcome_mutate hmutate
  exact ⟨hgate, Index.present_of_outcome_remove hremove⟩

/-- Removing a region where none starts is a fault. -/
theorem outcome_remove_of_absent (hgate : ¬gate.Invalid) (hkey : m.index.contents start = none) :
    (m.remove gate start).outcome = .error (.absentKey start) := by
  have hmutate : (gate.mutate (m.index.remove start)).outcome = .error (.absentKey start) := by
    rw [Gate.outcome_mutate hgate, Index.outcome_remove_of_absent hkey]
    rfl
  rw [remove, Traced.outcome_note_bind, Traced.outcome_bind_of_error hmutate]

/-- A clear of regions that ends well found the gate clear, unless its range was empty. -/
theorem of_outcome_clearRange {out : Regions × Gate}
    (h : (m.clearRange gate start size).outcome = .ok out) :
    ¬gate.Invalid ∨ size = 0 ∧ out = (m, gate) := by
  unfold clearRange at h
  split at h
  · rename_i hsize
    exact .inr ⟨hsize, (Except.ok.inj h).symm⟩
  · rw [Traced.outcome_note_bind] at h
    obtain ⟨removed, hmutate, -⟩ := Traced.outcome_bind_eq_ok.1 h
    exact .inl (Gate.of_outcome_mutate hmutate).1

end Regions

namespace DepthBlocks

variable {m : DepthBlocks} {gate : Gate} {start size : Address}

/-- A block that is added or refused has a start where none was, behind a gate that was clear. -/
theorem of_outcome_add {size depth : UInt32} {out : Except OutOfMemory Unit × DepthBlocks × Gate}
    (h : (m.add gate start size depth).outcome = .ok out) :
    ¬gate.Invalid ∧ m.index.contents start = none := by
  rw [add, Traced.outcome_note_bind] at h
  obtain ⟨⟨inserted, gate'⟩, hmutate, -⟩ := Traced.outcome_bind_eq_ok.1 h
  obtain ⟨hgate, hinsert⟩ := Gate.of_outcome_mutate hmutate
  exact ⟨hgate, Index.absent_of_outcome_insert hinsert⟩

/-- A clear of blocks that ends well found the gate clear, unless its range was empty. -/
theorem of_outcome_clearRange {out : DepthBlocks × Gate}
    (h : (m.clearRange gate start size).outcome = .ok out) :
    ¬gate.Invalid ∨ size = 0 ∧ out = (m, gate) := by
  unfold clearRange at h
  split at h
  · rename_i hsize
    exact .inr ⟨hsize, (Except.ok.inj h).symm⟩
  · rw [Traced.outcome_note_bind] at h
    obtain ⟨removed, hmutate, -⟩ := Traced.outcome_bind_eq_ok.1 h
    exact .inl (Gate.of_outcome_mutate hmutate).1

end DepthBlocks

/-! ## (3) Calls -/

namespace Registry

variable {r r' r'' : Registry} {start size : Address} {result : Except OutOfMemory Unit}

/-- A registry becomes another one by some edits of its regions and of its blocks, and its gate is
set exactly if it was. -/
structure Edited (r : Registry) (regions : List (Edit Region)) (blocks : List (Edit Block))
    (r' : Registry) : Prop where
  gate : r'.gate.Invalid ↔ r.gate.Invalid
  regions : r.liveRegions.Edited regions r'.liveRegions
  blocks : r.liveBlocks.Edited blocks r'.liveBlocks

/-- No edits change no registry. -/
theorem Edited.refl (r : Registry) : r.Edited [] [] r := ⟨Iff.rfl, .nil _, .nil _⟩

/-- Edits of a registry and then more of them are edits of it. -/
theorem Edited.trans {regions regions' : List (Edit Region)} {blocks blocks' : List (Edit Block)}
    (h : r.Edited regions blocks r') (h' : r'.Edited regions' blocks' r'') :
    r.Edited (regions ++ regions') (blocks ++ blocks') r'' where
  gate := h'.gate.trans h.gate
  regions := h.regions.trans h'.regions
  blocks := h.blocks.trans h'.blocks

/-- A registry with a clear gate holds what is live in it. -/
theorem holds_of_clear (h : ¬r.gate.Invalid) : r.Holds r.liveRegions r.liveBlocks := ⟨h, rfl, rfl⟩

/-- A registry that holds what edits make of the maps is edited. -/
theorem Holds.edited {regions : List (Edit Region)} {blocks : List (Edit Block)}
    {R : Contents Region} {D : Contents Block} (h : r'.Holds R D) (hgate : ¬r.gate.Invalid)
    (hR : r.liveRegions.Edited regions R) (hD : r.liveBlocks.Edited blocks D) :
    r.Edited regions blocks r' where
  gate := iff_of_false h.gate hgate
  regions := h.liveRegions ▸ hR
  blocks := h.liveBlocks ▸ hD

/-- Code is registered behind a clear gate only, and only where no region starts, unless there is
no room for its region in the list of removed ones. -/
theorem of_outcome_registerCode {size : UInt32} {chain : Chain}
    (h : (r.registerCode start size chain).outcome = .ok (result, r')) :
    ¬r.gate.Invalid ∧ r.liveRegions start = none ∨ r.regions.ListFails ∧
      result = .error .ofReservation ∧
        r' = { r with regions := { r.regions with asked := r.regions.asked + 1 } } := by
  obtain ⟨⟨added, r₁⟩, hregion, hlast⟩ := Traced.outcome_bind_eq_ok.1 h
  obtain ⟨⟨added, regions, gate⟩, hadd, hr₁⟩ := Traced.outcome_bind_eq_ok.1 hregion
  obtain ⟨rfl, rfl⟩ := Prod.mk.inj (Except.ok.inj hr₁)
  rcases Regions.of_outcome_add hadd with hfree | ⟨hlist, hout⟩
  · exact .inl hfree
  · cases hout
    obtain ⟨rfl, rfl⟩ := Prod.mk.inj (Except.ok.inj hlast)
    exact .inr ⟨hlist, rfl, rfl⟩

/-- Registering code adds its region, or nothing if it is refused. -/
theorem edited_registerCode {size : UInt32} {chain : Chain}
    (h : (r.registerCode start size chain).outcome = .ok (result, r')) :
    match result with
    | .ok () => ∃ serial, r.Edited [.add start ⟨size, chain, serial⟩] [] r'
    | .error _ => r.Edited [] [] r' := by
  rcases of_outcome_registerCode h with ⟨hgate, hfree⟩ | ⟨-, rfl, rfl⟩
  · obtain ⟨result', r₂, hout, hholds⟩ := (holds_of_clear hgate).registerCode hfree size chain
    obtain ⟨rfl, rfl⟩ := Prod.mk.inj (Except.ok.inj (h.symm.trans hout))
    cases result with
    | ok _ => exact ⟨_, hholds.edited hgate (.single hfree) (.nil _)⟩
    | error _ => exact hholds.edited hgate (.nil _) (.nil _)
  · exact ⟨Iff.rfl, .nil _, .nil _⟩

/-- Adding a region is registering its code without a notice. -/
theorem outcome_registerCode (r : Registry) (start : Address) (size : UInt32) (chain : Chain) :
    (r.registerCode start size chain).outcome = (r.addRegion start size chain).outcome := by
  rw [registerCode]
  cases h : (r.addRegion start size chain).outcome with
  | error e => exact Traced.outcome_bind_of_error h _
  | ok p =>
    obtain ⟨added, r₁⟩ := p
    rw [Traced.outcome_bind_of_ok h]
    cases added <;> rfl

/-- Unregistering code removes its region. -/
theorem edited_unregisterCode (h : (r.unregisterCode start).outcome = .ok r') :
    r.Edited [.remove start] [] r' := by
  obtain ⟨⟨regions, gate⟩, hremove, -⟩ := Traced.outcome_bind_eq_ok.1 h
  obtain ⟨hgate, hlive⟩ := Regions.of_outcome_remove hremove
  obtain ⟨r₁, hout, hholds⟩ := (holds_of_clear hgate).unregisterCode hlive
  obtain rfl : r' = r₁ := Except.ok.inj (h.symm.trans hout)
  exact hholds.edited hgate (.single hlive) (.nil _)

/-- Clearing regions clears the range. -/
theorem edited_clearRegions (h : (r.clearRegions start size).outcome = .ok r') :
    r.Edited [.clear start size] [] r' := by
  obtain ⟨⟨regions, gate⟩, hclear, hr'⟩ := Traced.outcome_bind_eq_ok.1 h
  rcases Regions.of_outcome_clearRange hclear with hgate | ⟨rfl, hsame⟩
  · obtain ⟨r₁, hout, hholds⟩ := (holds_of_clear hgate).clearRegions start size
    obtain rfl : r' = r₁ := Except.ok.inj (h.symm.trans hout)
    exact hholds.edited hgate (.single trivial) (.nil _)
  · -- an empty range leaves the registry as it was, also behind a set gate
    obtain ⟨rfl, rfl⟩ := Prod.mk.inj hsame
    obtain rfl : r = r' := Except.ok.inj hr'
    refine ⟨Iff.rfl, ?_, .nil _⟩
    have hcleared := Contents.Edited.single (m := r.liveRegions) (e := .clear start 0) trivial
    rwa [Edit.apply, Contents.eraseRange_zero] at hcleared

/-- Adding a block adds it, or nothing if it is refused. -/
theorem edited_addBlock {size depth : UInt32}
    (h : (r.addBlock start size depth).outcome = .ok (result, r')) :
    match result with
    | .ok () => r.Edited [] [.add start ⟨size, depth⟩] r'
    | .error _ => r.Edited [] [] r' := by
  obtain ⟨⟨added, blocks, gate⟩, hadd, -⟩ := Traced.outcome_bind_eq_ok.1 h
  obtain ⟨hgate, hfree⟩ := DepthBlocks.of_outcome_add hadd
  obtain ⟨result', r₁, hout, hholds⟩ := (holds_of_clear hgate).addBlock hfree size depth
  obtain ⟨rfl, rfl⟩ := Prod.mk.inj (Except.ok.inj (h.symm.trans hout))
  cases result with
  | ok _ => exact hholds.edited hgate (.nil _) (.single hfree)
  | error _ => exact hholds.edited hgate (.nil _) (.nil _)

/-- Clearing blocks clears the range. -/
theorem edited_clearBlocks (h : (r.clearBlocks start size).outcome = .ok r') :
    r.Edited [] [.clear start size] r' := by
  obtain ⟨⟨blocks, gate⟩, hclear, hr'⟩ := Traced.outcome_bind_eq_ok.1 h
  rcases DepthBlocks.of_outcome_clearRange hclear with hgate | ⟨rfl, hsame⟩
  · obtain ⟨r₁, hout, hholds⟩ := (holds_of_clear hgate).clearBlocks start size
    obtain rfl : r' = r₁ := Except.ok.inj (h.symm.trans hout)
    exact hholds.edited hgate (.nil _) (.single trivial)
  · obtain ⟨rfl, rfl⟩ := Prod.mk.inj hsame
    obtain rfl : r = r' := Except.ok.inj hr'
    refine ⟨Iff.rfl, .nil _, ?_⟩
    have hcleared := Contents.Edited.single (m := r.liveBlocks) (e := .clear start 0) trivial
    rwa [Edit.apply, Contents.eraseRange_zero] at hcleared

/-- The edit that adds the block of a piece of the code from `start` on. -/
def addPiece (start : Address) (piece : Piece) : Edit Block :=
  .add (start + piece.position.toUInt64) ⟨piece.size, piece.depth⟩

/-- Adding pieces adds their blocks, or some of them from the front if one is refused. -/
theorem edited_addPieces {pieces : List Piece}
    (h : (r.addPieces start pieces).outcome = .ok (result, r')) :
    match result with
    | .ok () => r.Edited [] (pieces.map (addPiece start)) r'
    | .error _ => ∃ n < pieces.length, r.Edited [] ((pieces.take n).map (addPiece start)) r' := by
  -- by the pieces; `n` counts those before the one that is refused
  induction pieces generalizing r with
  | nil =>
    obtain ⟨rfl, rfl⟩ := Prod.mk.inj (Except.ok.inj h)
    exact .refl r
  | cons piece rest ih =>
    rw [addPieces] at h
    split at h
    · cases h
    · obtain ⟨⟨added, r₁⟩, hadd, hrest⟩ := Traced.outcome_bind_eq_ok.1 h
      have hfirst := edited_addBlock hadd
      cases added with
      | error e =>
        obtain ⟨rfl, rfl⟩ := Prod.mk.inj (Except.ok.inj hrest)
        exact ⟨0, Nat.succ_pos _, hfirst⟩
      | ok _ =>
        have hrest := ih hrest
        cases result with
        | ok _ => exact hfirst.trans hrest
        | error e =>
          obtain ⟨n, hn, hrest⟩ := hrest
          exact ⟨n + 1, Nat.succ_lt_succ hn, hfirst.trans hrest⟩

/-- Registering depths adds the blocks of all pieces. If one is refused, those before it are added,
and then the code is cleared. -/
theorem edited_registerDepths {stop : Address} {positions : List Offset} {depths : List UInt32}
    (h : (r.registerDepths start stop positions depths).outcome = .ok (result, r')) :
    match result with
    | .ok () => r.Edited [] ((pieces (stop - start) positions depths).map (addPiece start)) r'
    | .error _ => ∃ n < (pieces (stop - start) positions depths).length, r.Edited []
        (((pieces (stop - start) positions depths).take n).map (addPiece start) ++
          [.clear start (stop - start)]) r' := by
  rw [registerDepths] at h
  split at h
  · cases h
  · rw [Traced.outcome_note_bind] at h
    obtain ⟨⟨added, r₁⟩, hadd, hrest⟩ := Traced.outcome_bind_eq_ok.1 h
    have hpieces := edited_addPieces hadd
    cases added with
    | ok _ =>
      obtain ⟨rfl, rfl⟩ := Prod.mk.inj (Except.ok.inj hrest)
      exact hpieces
    | error e =>
      obtain ⟨n, hn, hpieces⟩ := hpieces
      rw [Traced.outcome_note_bind] at hrest
      obtain ⟨r₂, hclear, hlast⟩ := Traced.outcome_bind_eq_ok.1 hrest
      obtain ⟨rfl, rfl⟩ := Prod.mk.inj (Except.ok.inj hlast)
      exact ⟨n, hn, hpieces.trans (edited_clearBlocks hclear)⟩

/-- Freeing code clears it in both maps. -/
theorem edited_freeBlock {stop : Address} (h : (r.freeBlock start stop).outcome = .ok r') :
    r.Edited [.clear start (Address.distance start stop)]
      [.clear start (Address.distance start stop)] r' := by
  rw [freeBlock, Traced.outcome_note_bind] at h
  obtain ⟨r₁, hblocks, hregions⟩ := Traced.outcome_bind_eq_ok.1 h
  exact (edited_clearBlocks hblocks).trans (edited_clearRegions hregions)

end Registry

end TraceAtlas
