import Mathlib.Data.FinEnum
import Mathlib.Data.Set.Card
import Mathlib.Logic.Function.Basic
import TraceAtlas.Index.Basic
import TraceAtlas.Proofs.Index.Slots

/-! # The contents of an index

An index is meant to be a finite map from addresses to values. Here that map is a plain function,
and every operation of the index is said in its terms: what it yields and what it makes of the map.
Nobody who cites these statements has to look at entries or slots.

## Main definitions
* `Contents` : a map from addresses to values, with the searches and ranges that are asked of it.
* `Index.contents` : the map that an index holds.

## Main statements
* `Index.outcome_insert`, `Index.outcome_remove`, `Index.removeRange_spec`, `Index.outcome_collect`,
  `Index.floor?_spec`, `Index.toList_spec` : the operations.
-/

namespace TraceAtlas

/-- The addresses in the range of `length` bytes from `start` on. A range that is longer than the
space behind its start ends with the space. -/
def Address.InRange (start length a : Address) : Prop :=
  start ≤ a ∧ a.toNat < start.toNat + length.toNat

instance (start length a : Address) : Decidable (Address.InRange start length a) :=
  inferInstanceAs (Decidable (_ ∧ _))

/-- The addresses of a range are those from its start up to the last one of them that exists. -/
theorem Address.inRange_iff {start length a : Address} (h : length ≠ 0) :
    Address.InRange start length a ↔ start ≤ a ∧ a ≤ Address.advance start (length - 1) := by
  have hlength : 1 ≤ length.toNat := by
    have : length.toNat ≠ 0 := fun h0 => h (UInt64.toNat_inj.1 h0)
    omega
  have hlast : (length - 1).toNat = length.toNat - 1 :=
    UInt64.toNat_sub_of_le _ _ (UInt64.le_iff_toNat_le.2 hlength)
  have ha := a.toNat_lt
  refine and_congr_right fun hle => ?_
  rw [UInt64.le_iff_toNat_le, Address.toNat_advance, hlast]
  omega

/-- The range behind a start, told by the distance from it. -/
theorem Address.inRange_iff_sub_lt {start length a : Address} (h : start ≤ a) :
    Address.InRange start length a ↔ a - start < length := by
  rw [Address.InRange, and_iff_right h, UInt64.lt_iff_toNat_lt, UInt64.toNat_sub_of_le _ _ h]
  have := UInt64.le_iff_toNat_le.1 h
  omega

/-- No address is in an empty range. -/
theorem Address.not_inRange_zero {start a : Address} : ¬Address.InRange start 0 a := by
  rintro ⟨hle, hlt⟩
  rw [UInt64.le_iff_toNat_le] at hle
  simp only [UInt64.toNat_zero] at hlt
  omega

/-- A map from addresses to values. -/
abbrev Contents (α : Type) := Address → Option α

namespace Contents

variable {α : Type}

/-- No address has a value. -/
def empty : Contents α := fun _ => none

/-- The entry with the greatest address that is not above a query, or nothing if every address with
a value is above it. -/
def IsFloor (m : Contents α) (query : Address) : Option (Address × α) → Prop
  | none => ∀ k ≤ query, m k = none
  | some (key, a) => m key = some a ∧ key ≤ query ∧ ∀ k, key < k → k ≤ query → m k = none

/-- Each entry once, lowest address first. -/
def Enumerates (m : Contents α) (list : List (Address × α)) : Prop :=
  list.Pairwise (fun a b => a.1 < b.1) ∧ ∀ k a, (k, a) ∈ list ↔ m k = some a

/-- Each entry in a range once, highest address first. -/
def EnumeratesDown (m : Contents α) (start length : Address) (list : List (Address × α)) : Prop :=
  list.Pairwise (fun a b => b.1 < a.1) ∧
    ∀ k a, (k, a) ∈ list ↔ Address.InRange start length k ∧ m k = some a

/-- The map without the addresses of a range. -/
def eraseRange (m : Contents α) (start length : Address) : Contents α :=
  fun k => if Address.InRange start length k then none else m k

/-- Taking out a range without entries changes nothing. -/
theorem eraseRange_of_none {m : Contents α} {start length : Address}
    (h : ∀ k, Address.InRange start length k → m k = none) : m.eraseRange start length = m := by
  funext k
  unfold eraseRange
  split
  · exact (h k ‹_›).symm
  · rfl

/-- Taking out an empty range changes nothing. -/
theorem eraseRange_zero (m : Contents α) (start : Address) : m.eraseRange start 0 = m :=
  eraseRange_of_none fun _ h => absurd h Address.not_inRange_zero

/-- The number of addresses that have a value. -/
noncomputable def count (m : Contents α) : Nat := {k | m k ≠ none}.ncard

/-- An entry where there was none is one more. -/
theorem count_update {m : Contents α} {k : Address} (h : m k = none) (v : α) :
    count (Function.update m k (some v)) = m.count + 1 := by
  have hset : {l | Function.update m k (some v) l ≠ none} = insert k {l | m l ≠ none} := by
    ext l
    by_cases hl : l = k
    · simp [hl]
    · simp [hl]
  rw [count, hset, Set.ncard_insert_of_notMem (by simpa using h), count]

/-- A list of all entries is as long as there are entries. -/
theorem Enumerates.length_eq {m : Contents α} {list : List (Address × α)} (h : m.Enumerates list) :
    list.length = m.count := by
  have hset : {k | m k ≠ none} = ↑(list.map (·.1)).toFinset := by
    ext k
    simp only [Set.mem_ofPred_eq, List.coe_toFinset, List.mem_map, Prod.exists, exists_and_right,
      exists_eq_right, h.2, Option.ne_none_iff_exists']
  have hnodup : (list.map (·.1)).Nodup :=
    List.pairwise_map.2 (h.1.imp fun hlt heq => UInt64.ne_of_lt hlt heq)
  rw [count, hset, Set.ncard_coe_finset, List.toFinset_card_of_nodup hnodup, List.length_map]

end Contents

namespace Index

variable {α : Type} {towers : List (Tower α)} {key : Address} {a : α}

/-- The map that an index holds. -/
def contents (ix : Index α) : Contents α := fun key => (ix.lanes.find? key).map (·.2)

/-- What a search finds is an entry. -/
theorem contents_of_find? {ix : Index α} {slot : Nat} (h : ix.lanes.find? key = some (slot, a)) :
    ix.contents key = some a := by
  rw [contents, h]
  rfl

/-- Every tower is found under its key, in its slot. -/
theorem Sound.find?_of_mem {lanes : Lanes α} {slots : Slots} {size : Nat}
    (h : Index.Sound lanes slots size towers) {t : Tower α} (ht : t ∈ towers) :
    lanes.find? t.key = some (t.slot, t.value) := by
  have hkeys : (towers.map (·.key)).Nodup :=
    List.pairwise_map.2 (h.shape.ordered.imp fun hlt => UInt64.ne_of_lt hlt)
  have hsome : (towers.find? (·.key == t.key)).isSome :=
    List.find?_isSome.2 ⟨t, ht, beq_self_eq_true t.key⟩
  obtain ⟨s, hs⟩ := Option.isSome_iff_exists.1 hsome
  obtain rfl : s = t := List.inj_on_of_nodup_map hkeys (List.mem_of_find?_eq_some hs) ht
    (by simpa using List.find?_some hs)
  rw [h.shape.find?_eq, hs]
  rfl

/-- The towers of an index are its entries. -/
theorem contents_eq_some_iff (ix : Index α)
    (h : Index.Sound ix.lanes ix.slots ix.size towers) :
    ix.contents key = some a ↔ ∃ t ∈ towers, t.key = key ∧ t.value = a := by
  constructor
  · rw [contents, h.shape.find?_eq]
    intro hsome
    obtain ⟨p, hp, rfl⟩ := Option.map_eq_some_iff.1 hsome
    obtain ⟨t, ht, rfl⟩ := Option.map_eq_some_iff.1 hp
    exact ⟨t, List.mem_of_find?_eq_some ht, by simpa using List.find?_some ht, rfl⟩
  · rintro ⟨t, ht, rfl, rfl⟩
    exact contents_of_find? (h.find?_of_mem ht)

/-- An address without a tower has no entry. -/
theorem contents_eq_none_iff (ix : Index α)
    (h : Index.Sound ix.lanes ix.slots ix.size towers) :
    ix.contents key = none ↔ ∀ t ∈ towers, t.key ≠ key := by
  simp only [Option.eq_none_iff_forall_ne_some, ne_eq, contents_eq_some_iff ix h, not_exists,
    not_and]
  exact ⟨fun hnone t ht hkey => hnone t.value t ht hkey rfl,
    fun hnone _ t ht hkey _ => hnone t ht hkey⟩

/-- A fresh index has no entries. -/
@[simp] theorem contents_empty (t : Tuning) (slotBytes : Nat) :
    (empty t slotBytes : Index α).contents = Contents.empty := by
  have h : Index.Sound (Lanes.empty : Lanes α) .empty 0 [] :=
    ⟨Lanes.shape_empty, Slots.partition_empty, rfl, rfl⟩
  exact funext fun key => (contents_eq_none_iff _ h).2 (by simp)

/-- Adding gives the address its value. -/
theorem contents_add (ix : Index α) (key : Address) (value : α) (taken : ix.slots.Taken)
    (h : ix.lanes.find? key = none) :
    (ix.add key value taken h).contents = Function.update ix.contents key (some value) := by
  obtain ⟨towers, hsound⟩ := ix.sound
  obtain ⟨low, high, rfl, hadded⟩ := hsound.insert h taken ix.heights.draw.1 value
  have hnone : ix.contents key = none := by rw [contents, h]; rfl
  funext k
  apply Option.ext
  intro a
  rw [contents_eq_some_iff (ix.add key value taken h) hadded]
  simp only [List.mem_append, List.mem_cons, or_and_right, exists_or, exists_eq_left]
  by_cases hk : k = key
  · subst hk
    have habsent := (contents_eq_none_iff ix hsound).1 hnone
    have hlow : ¬∃ t ∈ low, t.key = k ∧ t.value = a := fun ⟨t, ht, hkey, _⟩ =>
      habsent t (List.mem_append_left high ht) hkey
    have hhigh : ¬∃ t ∈ high, t.key = k ∧ t.value = a := fun ⟨t, ht, hkey, _⟩ =>
      habsent t (List.mem_append_right low ht) hkey
    simp [hlow, hhigh]
  · rw [Function.update_of_ne hk, contents_eq_some_iff ix hsound]
    simp [Ne.symm hk, or_and_right, exists_or]

/-- Dropping takes the value of the address away. -/
theorem contents_drop (ix : Index α) {key : Address} {slot : Nat} {value : α}
    (h : ix.lanes.find? key = some (slot, value)) :
    (ix.drop key h).contents = Function.update ix.contents key none := by
  obtain ⟨towers, hsound⟩ := ix.sound
  obtain ⟨low, high, t, rfl, rfl, hrest⟩ := hsound.unlink h
  funext k
  apply Option.ext
  intro a
  rw [contents_eq_some_iff (ix.drop t.key h) hrest]
  by_cases hk : k = t.key
  · -- a key occurs once, so that no other tower has the one that was removed
    have hordered := List.pairwise_append.1 hsound.shape.ordered
    have hne (s : Tower α) (hs : s ∈ low ++ high) : s.key ≠ t.key := by
      rcases List.mem_append.1 hs with hs | hs
      · exact UInt64.ne_of_lt (hordered.2.2 s hs t (by simp))
      · exact (UInt64.ne_of_lt ((List.pairwise_cons.1 hordered.2.1).1 s hs)).symm
    subst hk
    simp only [Function.update_self, reduceCtorEq, iff_false]
    rintro ⟨s, hs, hkey, -⟩
    exact hne s hs hkey
  · rw [Function.update_of_ne hk, contents_eq_some_iff ix hsound]
    simp [Ne.symm hk, or_and_right, exists_or]

/-! ## (1) Searching and listing -/

/-- The floor of an address is the entry with the greatest start that is not above it. -/
theorem floor?_spec (ix : Index α) (query : Address) :
    ix.contents.IsFloor query (ix.floor? query) := by
  obtain ⟨towers, hsound⟩ := ix.sound
  rw [floor?, hsound.shape.floor?_eq]
  cases hlast : (towers.filter (·.key ≤ query)).getLast? with
  | none =>
    intro k hk
    rw [List.getLast?_eq_none_iff, List.filter_eq_nil_iff] at hlast
    refine (contents_eq_none_iff ix hsound).2 fun t ht heq => ?_
    exact hlast t ht (by simpa [heq] using hk)
  | some t =>
    obtain ⟨passed, hpassed⟩ := List.getLast?_eq_some_iff.1 hlast
    have ht := List.mem_filter.1 (List.mem_of_getLast? hlast)
    refine ⟨(contents_eq_some_iff ix hsound).2 ⟨t, ht.1, rfl, rfl⟩, by simpa using ht.2,
      fun k hlt hk => (contents_eq_none_iff ix hsound).2 fun s hs heq => ?_⟩
    -- a tower not above the query is the last of them or was passed before it
    have hmem : s ∈ passed ++ [t] := hpassed ▸ List.mem_filter.2 ⟨hs, by simpa [heq] using hk⟩
    have hordered := hsound.shape.ordered.sublist (List.filter_sublist (p := (·.key ≤ query)))
    rw [hpassed] at hordered
    subst heq
    rcases List.mem_append.1 hmem with hs | hs
    · exact UInt64.lt_asymm hlt ((List.pairwise_append.1 hordered).2.2 s hs t (by simp))
    · rw [List.mem_singleton.1 hs] at hlt
      exact UInt64.lt_irrefl _ hlt

/-- The list has each entry once, lowest address first. -/
theorem toList_spec (ix : Index α) : ix.contents.Enumerates ix.toList := by
  obtain ⟨towers, hsound⟩ := ix.sound
  rw [toList, hsound.shape.toList_eq]
  refine ⟨List.pairwise_map.2 hsound.shape.ordered, fun k a => ?_⟩
  rw [contents_eq_some_iff ix hsound]
  simp

/-- The size is the number of entries. -/
theorem size_eq_count (ix : Index α) : ix.size = ix.contents.count := by
  obtain ⟨towers, hsound⟩ := ix.sound
  rw [← (toList_spec ix).length_eq, toList, hsound.shape.toList_eq, List.length_map, hsound.counted]

/-- An index is empty if no address has a value. -/
theorem isEmpty_iff (ix : Index α) : ix.isEmpty = true ↔ ix.contents = Contents.empty := by
  obtain ⟨towers, hsound⟩ := ix.sound
  rw [isEmpty, beq_iff_eq, hsound.counted, List.length_eq_zero_iff, funext_iff]
  simp only [Contents.empty, contents_eq_none_iff ix hsound]
  constructor
  · rintro rfl k t ht
    cases ht
  · intro hnone
    exact List.eq_nil_iff_forall_not_mem.2 fun t ht => hnone t.key t ht rfl

/-! ## (2) Adding and removing -/

/-- Adding under an address that has an entry is a fault. -/
theorem outcome_insert_of_present {ix : Index α} {key : Address} {value : α}
    (h : ix.contents key ≠ none) : (ix.insert key value).outcome = .error (.duplicateKey key) := by
  unfold insert
  split
  · rfl
  · rename_i hnone
    exact absurd (by rw [contents, hnone]; rfl) h

/-- A refusal leaves the entries. -/
@[simp] theorem contents_refuse (ix : Index α) (refused : ix.slots.Refused) :
    (ix.refuse refused).contents = ix.contents := rfl

/-- Adding under an address without an entry is no fault. -/
theorem outcome_insert_of_absent {ix : Index α} {key : Address} (h : ix.contents key = none)
    (value : α) : ∃ result ix', (ix.insert key value).outcome = .ok (result, ix') ∧
      match result with
      | .ok () => ix'.contents = Function.update ix.contents key (some value)
      | .error _ => ∃ refused, ix' = ix.refuse refused := by
  obtain ⟨taken, htaken⟩ := Slots.exists_outcome_take ix.plan ix.slots
  unfold insert
  split
  · rename_i hsome
    rw [contents, hsome] at h
    cases h
  · rename_i hnone
    rw [Traced.outcome_bind_of_ok htaken]
    cases taken with
    | error refused => exact ⟨.error refused.error, _, rfl, refused, rfl⟩
    | ok taken => exact ⟨.ok (), _, rfl, contents_add ix key value taken hnone⟩

/-- An insertion that ends well found no entry at its key. -/
theorem absent_of_outcome_insert {ix : Index α} {key : Address} {value : α}
    {out : Except OutOfMemory Unit × Index α} (h : (ix.insert key value).outcome = .ok out) :
    ix.contents key = none := by
  refine Classical.byContradiction fun hkey => ?_
  rw [outcome_insert_of_present hkey] at h
  cases h

/-- Removing an entry yields its value; removing what is not there is a fault. -/
theorem outcome_remove (ix : Index α) (key : Address) :
    match ix.contents key with
    | none => (ix.remove key).outcome = .error (.absentKey key)
    | some a => ∃ ix', (ix.remove key).outcome = .ok (a, ix') ∧
        ix'.contents = Function.update ix.contents key none := by
  unfold remove
  split
  · rename_i hnone
    split
    · rfl
    · rename_i hfind
      rw [contents_of_find? hfind] at hnone
      cases hnone
  · rename_i a hsome
    split
    · rename_i hfind
      rw [contents, hfind] at hsome
      cases hsome
    · rename_i hfind
      rw [contents_of_find? hfind] at hsome
      obtain rfl := Option.some.inj hsome
      exact ⟨_, rfl, contents_drop ix hfind⟩

/-- Removing what is not there is a fault. -/
theorem outcome_remove_of_absent {ix : Index α} {key : Address} (h : ix.contents key = none) :
    (ix.remove key).outcome = .error (.absentKey key) := by
  have hremove := outcome_remove ix key
  rwa [h] at hremove

/-- A removal that ends well found an entry at its key. -/
theorem present_of_outcome_remove {ix : Index α} {key : Address} {out : α × Index α}
    (h : (ix.remove key).outcome = .ok out) : ix.contents key ≠ none := by
  intro hkey
  rw [outcome_remove_of_absent hkey] at h
  cases h

/-- What is removed next lies in the range, and nothing lies between it and the top. -/
theorem removeTop?_spec {ix rest : Index α} {start top key : Address} {value : α}
    (h : ix.removeTop? start top = some ((key, value), rest)) :
    ix.contents key = some value ∧ start ≤ key ∧ key ≤ top ∧
      (∀ k, key < k → k ≤ top → ix.contents k = none) ∧
      rest.contents = Function.update ix.contents key none := by
  obtain ⟨hstart, ⟨a, hfloor⟩, slot, hfind, rfl⟩ := removeTop?_eq_some h
  have hspec := floor?_spec ix top
  rw [hfloor] at hspec
  obtain ⟨-, hle, habove⟩ := hspec
  exact ⟨contents_of_find? hfind, hstart, hle, habove, contents_drop ix hfind⟩

/-- Nothing is removed next exactly if nothing lies in the range. -/
theorem contents_of_removeTop?_eq_none {ix : Index α} {start top : Address}
    (h : ix.removeTop? start top = none) (k : Address) (hstart : start ≤ k) (htop : k ≤ top) :
    ix.contents k = none := by
  have hlow := removeTop?_eq_none h
  have hspec := floor?_spec ix top
  cases hfloor : ix.floor? top with
  | none =>
    rw [hfloor] at hspec
    exact hspec k htop
  | some p =>
    rw [hfloor] at hspec
    exact hspec.2.2 k (UInt64.lt_of_lt_of_le (hlow p hfloor) hstart) htop

/-- Removing from the top down takes the entries between two addresses, the highest first, and no
others. -/
theorem removeDown_spec (ix : Index α) (start top : Address) :
    (ix.removeDown start top).1.Pairwise (fun a b => b.1 < a.1) ∧
      (∀ k a, (k, a) ∈ (ix.removeDown start top).1 ↔
        (start ≤ k ∧ k ≤ top) ∧ ix.contents k = some a) ∧
      (ix.removeDown start top).2.contents =
        fun k => if start ≤ k ∧ k ≤ top then none else ix.contents k := by
  -- how the removal ends: nothing is in the range, so nothing is removed and nothing changes
  have hnothing (ix : Index α) (h : ∀ k, start ≤ k → k ≤ top → ix.contents k = none) :
      (∀ k a, (k, a) ∈ ([] : List (Address × α)) ↔
        (start ≤ k ∧ k ≤ top) ∧ ix.contents k = some a) ∧
      ix.contents = fun k => if start ≤ k ∧ k ≤ top then none else ix.contents k := by
    refine ⟨fun k a => ?_, funext fun k => ?_⟩
    · simp only [List.not_mem_nil, false_iff]
      rintro ⟨hk, ha⟩
      simp [h k hk.1 hk.2] at ha
    · split
      · rename_i hk
        exact h k hk.1 hk.2
      · rfl
  fun_induction removeDown ix start top with
  | case1 ix hnone => exact ⟨.nil, hnothing ix (contents_of_removeTop?_eq_none hnone)⟩
  | case2 ix entry rest hsome removed last hrec ih =>
    obtain ⟨key, value⟩ := entry
    obtain ⟨hkey, hstart, hle, habove, hcontents⟩ := removeTop?_spec hsome
    rw [hrec, hcontents] at ih
    obtain ⟨hdown, hmem, hrest⟩ := ih
    refine ⟨List.pairwise_cons.2 ⟨fun p hp => ?_, hdown⟩, fun k a => ?_, ?_⟩
    · -- what is removed later was there below the top, so it is not above the one removed now
      obtain ⟨⟨-, hp⟩, hc⟩ := (hmem p.1 p.2).1 hp
      have hne : p.1 ≠ key := by
        intro heq
        simp [heq] at hc
      rw [Function.update_of_ne hne] at hc
      refine UInt64.lt_of_le_of_ne (UInt64.not_lt.1 fun hlt => ?_) hne
      simp [habove p.1 hlt hp] at hc
    · rw [List.mem_cons, hmem, Prod.mk.injEq]
      by_cases hk : k = key
      · subst hk
        simp [hkey, hstart, hle, eq_comm]
      · simp [hk]
    · rw [hrest]
      funext k
      by_cases hk : k = key
      · subst hk
        simp [hstart, hle]
      · simp [hk]

/-- **Removing a range** takes exactly the entries in it, the highest first. -/
theorem removeRange_spec (ix : Index α) (start length : Address) :
    ix.contents.EnumeratesDown start length (ix.removeRange start length).1 ∧
      (ix.removeRange start length).2.contents = ix.contents.eraseRange start length := by
  by_cases h : length = 0
  · subst h
    simp [removeRange, Contents.eraseRange_zero, Contents.EnumeratesDown, Address.not_inRange_zero]
  · obtain ⟨hdown, hmem, hrest⟩ := removeDown_spec ix start (Address.advance start (length - 1))
    simp only [← Address.inRange_iff h] at hmem hrest
    rw [removeRange, if_neg h]
    exact ⟨⟨hdown, hmem⟩, hrest⟩

/-- Recycling changes no entry and is never a fault. -/
theorem outcome_collect (ix : Index α) (gate : Gate) :
    ∃ ix', (ix.collect gate).outcome = .ok ix' ∧ ix'.contents = ix.contents := by
  unfold collect
  split
  · exact ⟨ix, rfl, rfl⟩
  · split
    · exact ⟨_, rfl, rfl⟩
    · exact ⟨ix, rfl, rfl⟩

end Index

end TraceAtlas
