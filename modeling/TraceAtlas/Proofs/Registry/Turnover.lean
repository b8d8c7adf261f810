import TraceAtlas.Proofs.Index.Capacity
import TraceAtlas.Proofs.Registry.Edits

/-! # The turnover of an index

An edit adds an entry, or removes some whose slots wait until a collection finds no reader. When
each edit ends with a collection, it depends only on the readers what becomes of the slots that
wait: they are recycled if nobody reads and wait on if somebody does. Without an edit, nothing is
collected, and all that a refused addition may leave behind is a chunk.

## Main definitions
* `Index.EditedBy` : what an edit makes of an index, and which entries it removes.
* `Index.Undergoes` : what edits and refusals in a row make of it, each edit with a collection
  behind it.
* `Index.Balances` : what becomes of the slots that wait.
* `Index.Full` : entries and slots that wait are as many as there may be.

## Main statements
* `Index.EditedBy.perm`, `Index.EditedBy.stocked` : no entry and no slot is lost in an edit.
* `Index.Undergoes.balances` : what edits in a row make of the slots that wait.
* `Index.Undergoes.eq_of_full` : nothing is added to a full index.
-/

namespace TraceAtlas

/-! ## (1) One edit -/

/-- The entries that an edit adds. -/
def Edit.additions {α : Type} : Edit α → List (Address × α)
  | add start value => [(start, value)]
  | remove _ | clear _ _ => []

namespace Index

variable {α : Type} {ix ix' ix'' : Index α} {e : Edit α} {edits edits' : List (Edit α)}
  {removed : List (Address × α)} {plan : SlotPlan} {gate gate' : Gate}

/-- What an edit makes of an index, and the entries that it removes. -/
inductive EditedBy (ix : Index α) : Edit α → List (Address × α) → Index α → Prop
  | add {start : Address} {value : α} {ix' : Index α} :
      (ix.insert start value).outcome = .ok (.ok (), ix') → EditedBy ix (.add start value) [] ix'
  | remove {start : Address} {value : α} {ix' : Index α} :
      (ix.remove start).outcome = .ok (value, ix') →
      EditedBy ix (.remove start) [(start, value)] ix'
  | clear (start length : Address) :
      EditedBy ix (.clear start length) (ix.removeRange start length).1
        (ix.removeRange start length).2

/-- No entry is listed twice. -/
theorem nodup_toList (ix : Index α) : ix.toList.Nodup :=
  ix.toList_spec.1.imp fun hlt heq => UInt64.ne_of_lt hlt (congrArg Prod.fst heq)

/-- A list that has each entry of an index once is its list of entries in another order. -/
theorem perm_toList {list : List (Address × α)} (hnodup : list.Nodup)
    (hmem : ∀ k a, (k, a) ∈ list ↔ ix.contents k = some a) : list.Perm ix.toList :=
  (List.perm_ext_iff_of_nodup hnodup ix.nodup_toList).2 fun p =>
    (hmem p.1 p.2).trans (ix.toList_spec.2 p.1 p.2).symm

/-- An address without an entry is not listed. -/
theorem not_mem_toList {start : Address} (h : ix.contents start = none) (value : α) :
    (start, value) ∉ ix.toList := by
  rw [ix.toList_spec.2, h]
  exact nofun

/-- The entries of an index that has one entry more than another one. -/
theorem perm_cons_toList {start : Address} {value : α} (h : ix.contents start = none)
    (h' : ix'.contents = Function.update ix.contents start (some value)) :
    ((start, value) :: ix.toList).Perm ix'.toList := by
  refine perm_toList (List.nodup_cons.2 ⟨not_mem_toList h value, ix.nodup_toList⟩) fun k a => ?_
  rw [List.mem_cons, ix.toList_spec.2, h', Prod.mk.injEq]
  by_cases hk : k = start
  · subst hk
    simp [h, eq_comm]
  · rw [Function.update_of_ne hk]
    simp [hk]

/-- No entry is lost in an edit: what there was and what was added is what there is and what was
removed. -/
theorem EditedBy.perm (h : ix.EditedBy e removed ix') :
    (removed ++ ix'.toList).Perm (e.additions ++ ix.toList) := by
  cases h with
  | @add start value _ hinsert =>
    have hkey := absent_of_outcome_insert hinsert
    obtain ⟨result, added, hadd, hresult⟩ := outcome_insert_of_absent hkey value
    obtain ⟨rfl, rfl⟩ := Prod.mk.inj (Except.ok.inj (hinsert.symm.trans hadd))
    exact (perm_cons_toList hkey hresult).symm
  | @remove start value _ hremove =>
    have hspec := ix.outcome_remove start
    cases hkey : ix.contents start with
    | none => exact absurd hkey (present_of_outcome_remove hremove)
    | some a =>
      rw [hkey] at hspec
      obtain ⟨rest, hrest, hcontents⟩ := hspec
      obtain ⟨rfl, rfl⟩ := Prod.mk.inj (Except.ok.inj (hremove.symm.trans hrest))
      -- putting the entry back gives the index that there was
      refine perm_cons_toList (by rw [hcontents, Function.update_self]) ?_
      rw [hcontents, Function.update_idem, ← hkey, Function.update_eq_self]
  | clear start length =>
    obtain ⟨⟨hdown, hmem⟩, hcontents⟩ := ix.removeRange_spec start length
    have hremoved : (ix.removeRange start length).1.Nodup :=
      hdown.imp fun hlt heq => UInt64.ne_of_lt hlt (congrArg Prod.fst heq).symm
    refine perm_toList (List.nodup_append.2 ⟨hremoved, nodup_toList _, ?_⟩) fun k a => ?_
    · rintro ⟨k, a⟩ hp q hq rfl
      rw [(toList_spec _).2, hcontents, Contents.eraseRange, if_pos ((hmem k a).1 hp).1] at hq
      cases hq
    · rw [List.mem_append, hmem, (toList_spec _).2, hcontents, Contents.eraseRange]
      split
      · simp [*]
      · simp [*]

/-- No slot is lost in an edit: those of the removed entries wait. -/
theorem EditedBy.stocked {waiting : Nat} (h : ix.EditedBy e removed ix')
    (hstocked : ix.Stocked plan waiting) : ix'.Stocked plan (waiting + removed.length) := by
  cases h with
  | add hinsert => exact (hstocked.insert hinsert).1
  | remove hremove =>
    obtain ⟨slot, hfind, rfl⟩ := of_outcome_remove hremove
    exact (hstocked.drop hfind).1
  | clear start length => exact (hstocked.removeRange start length).1

/-! ## (2) Edits in a row -/

/-- What edits in a row make of an index if each of them ends with a collection, and additions
between them may be refused. -/
inductive Undergoes (gate : Gate) : Index α → List (Edit α) → Index α → Prop
  | nil (ix : Index α) : Undergoes gate ix [] ix
  | refused {ix ix' : Index α} {edits : List (Edit α)} {refused : ix.slots.Refused} :
      (ix.slots.take ix.plan).outcome = .ok (.error refused) →
      Undergoes gate (ix.refuse refused) edits ix' → Undergoes gate ix edits ix'
  | cons {ix ix₁ ix₂ : Index α} {e : Edit α} {edits : List (Edit α)}
      {removed : List (Address × α)} :
      ix.EditedBy e removed ix₁ → Undergoes gate (ix₁.collected gate) edits ix₂ →
      Undergoes gate ix (e :: edits) ix₂

/-- Edits in a row and then more of them are edits in a row. -/
theorem Undergoes.append (h : ix.Undergoes gate edits ix') (h' : ix'.Undergoes gate edits' ix'') :
    ix.Undergoes gate (edits ++ edits') ix'' := by
  induction h with
  | nil ix => exact h'
  | refused htake _ ih => exact .refused htake (ih h')
  | cons hedit _ ih => exact .cons hedit (ih h')

/-- Of the gate, only the number of readers matters. -/
theorem Undergoes.of_readers (hreaders : gate'.readers = gate.readers)
    (h : ix.Undergoes gate edits ix') : ix.Undergoes gate' edits ix' := by
  have hquiet : gate.Quiescent ↔ gate'.Quiescent := by
    rw [Gate.Quiescent, Gate.Quiescent, hreaders]
  have hcollected (ix : Index α) : ix.collected gate = ix.collected gate' := if_congr hquiet rfl rfl
  induction h with
  | nil ix => exact .nil ix
  | refused htake _ ih => exact .refused htake ih
  | cons hedit _ ih => exact .cons hedit (hcollected _ ▸ ih)

/-- What becomes of the slots that wait. Nothing happens to them without an edit; an edit while
nobody reads recycles them, whoever read when their entries were removed; and while somebody reads,
they are joined by those of the entries that go. -/
structure Balances (ix : Index α) (gate : Gate) (edits : List (Edit α)) (ix' : Index α) : Prop where
  untouched : edits = [] → ix.Alike ix'
  recycled : gate.Quiescent → edits ≠ [] → ix'.slots.retired = []
  waiting : ¬gate.Quiescent → ix'.contents.count + ix'.slots.retired.length =
    ix.contents.count + ix.slots.retired.length + (edits.map (·.additions.length)).sum

/-- The entries afterwards and those that were removed are as many as those before and those added.
-/
theorem EditedBy.count_eq (h : ix.EditedBy e removed ix') :
    ix'.contents.count + removed.length = ix.contents.count + e.additions.length := by
  have hlength := h.perm.length_eq
  rw [List.length_append, List.length_append, ix.toList_spec.length_eq,
    ix'.toList_spec.length_eq] at hlength
  omega

/-- **What edits in a row make of the slots that wait.** The index keeps to its plan meanwhile. -/
theorem Undergoes.balances (h : ix.Undergoes gate edits ix')
    (hstocked : ix.Stocked plan ix.slots.retired.length) :
    ix'.Stocked plan ix'.slots.retired.length ∧ ix.Balances gate edits ix' := by
  induction h with
  | nil ix => exact ⟨hstocked, fun _ => .refl ix, fun _ hne => absurd rfl hne, fun _ => rfl⟩
  | @refused ix ix' edits refused _ _ ih =>
    -- a refusal is no turn: it ends in front of the collection
    have halike := Alike.refuse ix refused
    have hretired := congrArg List.length halike.retired
    obtain ⟨hlast, hrest⟩ := ih (hretired ▸ halike.stocked hstocked)
    refine ⟨hlast, fun hnone => halike.trans (hrest.untouched hnone), hrest.recycled, ?_⟩
    intro hread
    rw [hrest.waiting hread, halike.contents, hretired]
  | @cons ix ix₁ ix₂ e edits removed hedit _ ih =>
    have hfirst := (hedit.stocked hstocked).collected gate
    obtain ⟨hlast, hrest⟩ := ih ⟨hfirst.plan_eq, hfirst.handedOut_le, rfl⟩
    refine ⟨hlast, nofun, fun hquiet _ => ?_, fun hread => ?_⟩
    · -- the first edit is enough, and the others leave nothing behind either
      by_cases hnone : edits = []
      · rw [(hrest.untouched hnone).retired]
        exact List.eq_nil_of_length_eq_zero (hfirst.retired.trans (if_pos hquiet))
      · exact hrest.recycled hquiet hnone
    · have hcount := hedit.count_eq
      rw [hrest.waiting hread, hfirst.retired, if_neg hread, contents_collected, List.map_cons,
        List.sum_cons]
      omega

/-- The entries and the removed ones that wait are as many as there may be. -/
def Full (ix : Index α) (limit : Nat) : Prop :=
  ix.contents.count + ix.slots.retired.length = limit

noncomputable instance (ix : Index α) (limit : Nat) : Decidable (ix.Full limit) :=
  inferInstanceAs (Decidable (_ = _))

/-- An addition at an address without an entry is refused exactly if the index is full, which then
stays as it is. -/
theorem Stocked.outcome_insert_of_absent {t : Tuning} {slotBytes : Nat} {start : Address}
    (h : ix.Stocked (.ofTuning t slotBytes) ix.slots.retired.length)
    (hkey : ix.contents start = none) (hgrow : ¬ix.slots.GrowthFails ix.plan)
    (hlists : ¬ix.slots.ListsFail ix.plan) (value : α) :
    ∃ ix', (ix.insert start value).outcome =
        .ok (if ix.Full t.maxNodes.toNat then .error ⟨UInt64.ofNat slotBytes⟩ else .ok (), ix') ∧
      (ix.Full t.maxNodes.toNat → ix' = ix) := by
  have hinsert := h.outcome_insert hkey (h.plan_eq ▸ hgrow) (h.plan_eq ▸ hlists) value
  rw [ix.size_eq_count] at hinsert
  split at hinsert
  · rename_i hfull
    rw [if_pos (show ix.Full t.maxNodes.toNat from hfull)]
    exact ⟨ix, hinsert, fun _ => rfl⟩
  · rename_i hroom
    rw [if_neg (show ¬ix.Full t.maxNodes.toNat from hroom)]
    obtain ⟨ix', hinsert⟩ := hinsert
    exact ⟨ix', hinsert, fun hfull => absurd hfull hroom⟩

/-- Nothing is added to a full index. -/
theorem Undergoes.eq_of_full (h : ix.Undergoes gate edits ix')
    (hstocked : ix.Stocked plan ix.slots.retired.length) (hfull : ix.Full plan.limit)
    (hadds : ∀ e ∈ edits, e.additions ≠ []) : ix' = ix := by
  induction h with
  | nil => rfl
  | @refused ix ix' edits refused htake _ ih =>
    -- the refusal is for want of a slot, which leaves no chunk behind
    rw [hstocked.outcome_take_of_full (by rwa [ix.size_eq_count])] at htake
    obtain rfl := Except.error.inj (Except.ok.inj htake)
    exact ih hstocked hfull hadds
  | cons hedit _ _ =>
    cases hedit with
    | add hinsert =>
      rw [Full, ← Index.size_eq_count] at hfull
      obtain ⟨taken, -, htake, -⟩ := of_outcome_insert hinsert
      rw [hstocked.outcome_take_of_full hfull] at htake
      cases htake
    | remove _ => exact absurd rfl (hadds _ List.mem_cons_self)
    | clear _ _ => exact absurd rfl (hadds _ List.mem_cons_self)

end Index

end TraceAtlas
