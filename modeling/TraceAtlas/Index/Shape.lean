import TraceAtlas.Index.Relinking
import TraceAtlas.Index.Towers

/-! # The shape of lanes

What makes nodes and links a search structure: there is a list of towers in order of their keys,
each slot holds the entry of its tower, and every level leads through the towers that reach it and
no others. A search then stops on each level at the last tower that passes its test, and what is
found is what the list says.

## Main definitions
* `Lanes.Shape` : the lanes are those of a list of towers.

## Main statements
* `Lanes.Shape.descend_eq` : where a search leaves the levels.
* `Lanes.Shape.find?_eq`, `Lanes.Shape.floor?_eq`, `Lanes.Shape.toList_eq` : what is found.
* `Lanes.Shape.insert`, `Lanes.Shape.unlink` : the changes keep the shape.
-/

namespace TraceAtlas

namespace Lanes

variable {α : Type} {m : Lanes α} {towers : List (Tower α)}

/-! ## (1) Lanes of towers -/

/-- The lanes are those of a list of towers. -/
structure Shape (m : Lanes α) (towers : List (Tower α)) : Prop where
  ordered : towers.Pairwise fun s t => s.key < t.key
  stored : ∀ t ∈ towers, m.item? t.slot = some (t.key, t.value)
  grounded : ∀ t ∈ towers, 0 < t.height
  chained : ∀ level : Fin maxLevels, Chained (m.link level) none (lane level towers)

/-- No towers. -/
theorem shape_empty : (empty : Lanes α).Shape [] where
  ordered := .nil
  stored := by simp
  grounded := by simp
  chained level := Vector.getElem_replicate level.isLt

/-- Ordered towers are cut in two by a test that low keys pass. -/
theorem exists_cut (ordered : towers.Pairwise fun s t => s.key < t.key) (go : Address → Bool)
    (hgo : ∀ {a b}, a < b → go b → go a) :
    ∃ low high, towers = low ++ high ∧ (∀ t ∈ low, go t.key) ∧ ∀ t ∈ high, ¬go t.key := by
  induction towers with
  | nil => exact ⟨[], [], rfl, by simp, by simp⟩
  | cons t towers ih =>
    obtain ⟨ht, ordered⟩ := List.pairwise_cons.1 ordered
    by_cases hkey : go t.key
    · obtain ⟨low, high, rfl, hlow, hhigh⟩ := ih ordered
      refine ⟨t :: low, high, rfl, fun s hs => ?_, hhigh⟩
      obtain rfl | hs := List.mem_cons.1 hs
      · exact hkey
      · exact hlow s hs
    · refine ⟨[], t :: towers, rfl, by simp, fun s hs hskey => hkey ?_⟩
      obtain rfl | hs := List.mem_cons.1 hs
      · exact hskey
      · exact hgo (ht s hs) hskey

/-- The node behind an entry. -/
theorem nodes_of_item? {slot : Nat} {key : Address} {value : α}
    (h : m.item? slot = some (key, value)) :
    ∃ node, m.nodes[slot]? = some node ∧ node.key = key ∧ node.value = value := by
  obtain ⟨node, hnode, heq⟩ := Option.map_eq_some_iff.1 h
  obtain ⟨hkey, hvalue⟩ := Prod.mk.inj heq
  exact ⟨node, hnode, hkey, hvalue⟩

/-- A slot with an entry is there. -/
theorem has_of_item? {slot : Nat} {p : Address × α} (h : m.item? slot = some p) :
    m.Has (some slot) := by
  obtain ⟨node, hnode, -⟩ := nodes_of_item? h
  exact (Array.getElem?_eq_some_iff.1 hnode).1

/-- A level leads to a tower, and the node in its slot has the entry of the tower. -/
theorem next?_of_link {level : Fin maxLevels} {p : Place} {t : Tower α}
    (hlink : m.link level p = some t.slot) (hitem : m.item? t.slot = some (t.key, t.value)) :
    ∃ node, m.next? level p = some (t.slot, node) ∧ node.key = t.key ∧ node.value = t.value := by
  obtain ⟨node, hnode, hkey, hvalue⟩ := nodes_of_item? hitem
  exact ⟨node, by simp [next?, hlink, hnode], hkey, hvalue⟩

/-- At the end of a level there is no next node. -/
theorem next?_of_end {level : Fin maxLevels} {p : Place} (h : m.link level p = none) :
    m.next? level p = none := by
  simp [next?, h]

/-- What comes behind a tower has a greater key. -/
theorem bound_of_item? {t : Tower α} (h : m.item? t.slot = some (t.key, t.value)) :
    m.bound (some t.slot) = t.key.toNat + 1 := by
  obtain ⟨node, hnode, hkey, -⟩ := nodes_of_item? h
  simp only [bound, hnode, hkey]

/-! ## (2) Searching -/

section

variable {level : Fin maxLevels} {go : Address → Bool} {p : Place} {t : Tower α}

/-- A search stays at the end of a level. -/
theorem walk_end (h : m.link level p = none) : m.walk level go p = p := by
  have hnext := next?_of_end h
  rw [walk]
  split <;> simp_all

/-- One step along a level to a tower, which is behind the place. -/
theorem walk_step (hlink : m.link level p = some t.slot)
    (hitem : m.item? t.slot = some (t.key, t.value)) (hbound : m.bound p ≤ t.key.toNat) :
    m.walk level go p = if go t.key then m.walk level go (some t.slot) else p := by
  obtain ⟨node, hnext, hkey, -⟩ := next?_of_link hlink hitem
  rw [walk]
  split <;> simp_all

/-- Nothing is listed behind the end of the ground level. -/
theorem listFrom_end (h : m.link ground p = none) : m.listFrom p = [] := by
  have hnext := next?_of_end h
  rw [listFrom]
  split <;> simp_all

/-- The next tower is listed first. -/
theorem listFrom_step (hlink : m.link ground p = some t.slot)
    (hitem : m.item? t.slot = some (t.key, t.value)) (hbound : m.bound p ≤ t.key.toNat) :
    m.listFrom p = (t.key, t.value) :: m.listFrom (some t.slot) := by
  obtain ⟨node, hnext, hkey, hvalue⟩ := next?_of_link hlink hitem
  rw [listFrom]
  split <;> simp_all

end

/-- A search along a level stops at the last tower that passes the test. -/
theorem walk_eq {level : Fin maxLevels} {go : Address → Bool} {p : Place}
    {low high : List (Tower α)}
    (hchain : Chained (m.link level) p ((low ++ high).map (·.slot)))
    (hstored : ∀ t ∈ low ++ high, m.item? t.slot = some (t.key, t.value))
    (hordered : (low ++ high).Pairwise fun s t => s.key < t.key)
    (hbound : ∀ t ∈ low ++ high, m.bound p ≤ t.key.toNat)
    (hlow : ∀ t ∈ low, go t.key) (hhigh : ∀ t ∈ high, ¬go t.key) :
    m.walk level go p = (low.map (·.slot)).getLast?.or p := by
  induction low generalizing p with
  | nil =>
    cases high with
    | nil => exact walk_end hchain
    | cons t high =>
      rw [walk_step hchain.1 (hstored t (by simp)) (hbound t (by simp)), if_neg (hhigh t (by simp))]
      rfl
  | cons t low ih =>
    obtain ⟨ht, hordered⟩ := List.pairwise_cons.1 hordered
    have hitem := hstored t (by simp)
    rw [walk_step hchain.1 hitem (hbound t (by simp)), if_pos (hlow t (by simp)), List.map_cons,
      getLast?_cons_or]
    refine ih hchain.2 (fun s hs => hstored s (List.mem_cons_of_mem t hs)) hordered (fun s hs => ?_)
      fun s hs => hlow s (List.mem_cons_of_mem t hs)
    rw [bound_of_item? hitem]
    exact UInt64.lt_iff_toNat_lt.1 (ht s hs)

/-- The ground level leads through all towers behind a place. -/
theorem listFrom_eq {p : Place} (hchain : Chained (m.link ground) p (towers.map (·.slot)))
    (hstored : ∀ t ∈ towers, m.item? t.slot = some (t.key, t.value))
    (hordered : towers.Pairwise fun s t => s.key < t.key)
    (hbound : ∀ t ∈ towers, m.bound p ≤ t.key.toNat) :
    m.listFrom p = towers.map fun t => (t.key, t.value) := by
  induction towers generalizing p with
  | nil => exact listFrom_end hchain
  | cons t towers ih =>
    obtain ⟨ht, hordered⟩ := List.pairwise_cons.1 hordered
    have hitem := hstored t (by simp)
    rw [listFrom_step hchain.1 hitem (hbound t (by simp)), List.map_cons]
    refine congrArg _ (ih hchain.2 (fun s hs => hstored s (List.mem_cons_of_mem t hs)) hordered
      fun s hs => ?_)
    rw [bound_of_item? hitem]
    exact UInt64.lt_iff_toNat_lt.1 (ht s hs)

namespace Shape

/-- What comes behind a tower in the list has a greater key. -/
theorem bound_le {A B : List (Tower α)} {t : Tower α} (h : m.Shape (A ++ t :: B)) {s : Tower α}
    (hs : s ∈ B) : m.bound (some t.slot) ≤ s.key.toNat := by
  have hbehind := (List.pairwise_append.1 h.ordered).2.1
  rw [bound_of_item? (h.stored t (by simp))]
  exact UInt64.lt_iff_toNat_lt.1 ((List.pairwise_cons.1 hbehind).1 s hs)

/-- The place where a level is entered cuts the towers that reach the level: some are behind it. -/
theorem exists_passed {low high : List (Tower α)} (h : m.Shape (low ++ high)) {level : Nat}
    {p : Place} (hp : p = none ∨ ∃ t ∈ low, level < t.height ∧ p = some t.slot) :
    ∃ passed between, low.filter (level < ·.height) = passed ++ between ∧
      (passed.map (·.slot)).getLast? = p ∧ ∀ t ∈ between ++ high, m.bound p ≤ t.key.toNat := by
  obtain rfl | ⟨t, ht, hheight, rfl⟩ := hp
  · exact ⟨[], _, rfl, rfl, fun t _ => Nat.zero_le _⟩
  · obtain ⟨A, B, rfl⟩ := List.append_of_mem ht
    refine ⟨A.filter (level < ·.height) ++ [t], B.filter (level < ·.height),
      by simp [hheight], by simp, fun s hs => ?_⟩
    rw [List.append_assoc, List.cons_append] at h
    refine h.bound_le ?_
    simp only [List.mem_append, List.mem_filter] at hs ⊢
    exact hs.imp_left (·.1)

/-- A level is left at the last tower that reaches it and passes the test, if it is entered at a
tower that does. -/
theorem walk_lane {low high : List (Tower α)} (h : m.Shape (low ++ high)) {go : Address → Bool}
    (hlow : ∀ t ∈ low, go t.key) (hhigh : ∀ t ∈ high, ¬go t.key) (level : Fin maxLevels) {p : Place}
    (hp : p = none ∨ ∃ t ∈ low, level < t.height ∧ p = some t.slot) :
    m.walk level go p = (lane level low).getLast? := by
  obtain ⟨passed, between, hcut, rfl, hbound⟩ := h.exists_passed hp
  have hreach : (passed ++ between).Sublist low := hcut ▸ List.filter_sublist
  have hsub : (between ++ high.filter (level.val < ·.height)).Sublist (low ++ high) :=
    ((List.sublist_append_right passed between).trans hreach).append List.filter_sublist
  -- the level leads on from the place through what lies between it and the test
  have hchain := h.chained level
  rw [lane_append, lane, hcut, List.map_append, List.append_assoc] at hchain
  have hbehind := hchain.behind
  rw [Option.or_none, lane, ← List.map_append] at hbehind
  rw [walk_eq hbehind (fun t ht => h.stored t (hsub.subset ht)) (h.ordered.sublist hsub)
    (fun t ht => hbound t ?_) (fun t ht => hlow t ?_) (fun t ht => hhigh t ?_),
    lane, hcut, List.map_append, List.getLast?_append]
  · simp only [List.mem_append, List.mem_filter] at ht ⊢
    exact ht.imp_right (·.1)
  · exact hreach.subset (List.mem_append_right passed ht)
  · exact (List.mem_filter.1 ht).1

/-- **A search** leaves each level at the last tower that reaches it and passes the test. -/
theorem descend_eq {low high : List (Tower α)} (h : m.Shape (low ++ high)) {go : Address → Bool}
    (hlow : ∀ t ∈ low, go t.key) (hhigh : ∀ t ∈ high, ¬go t.key) {n : Nat} (hn : n ≤ maxLevels)
    {p : Place} (hp : p = none ∨ ∃ t ∈ low, n ≤ t.height ∧ p = some t.slot) {level : Nat}
    (hlevel : level < n) : (m.descend go n hn p)[level] = (lane level low).getLast? := by
  -- level by level from the top, where the place carried down is the one just found
  induction n generalizing p with
  | zero => cases hlevel
  | succ n ih =>
    have hwalk := h.walk_lane hlow hhigh ⟨n, hn⟩ hp
    simp only [descend, Vector.getElem_push]
    split
    · -- a tower that reaches the level above reaches every level below it
      refine ih (Nat.le_of_succ_le hn) ?_ ‹_›
      rw [hwalk]
      cases hlast : (lane n low).getLast? with
      | none => exact .inl rfl
      | some slot =>
        obtain ⟨t, ht, hheight, rfl⟩ := mem_lane.1 (List.mem_of_getLast? hlast)
        exact .inr ⟨t, ht, Nat.le_of_lt hheight, rfl⟩
    · obtain rfl : level = n := by omega
      exact hwalk

/-- The towers before a key, and on each level the place behind them. -/
theorem before_eq {low high : List (Tower α)} (h : m.Shape (low ++ high)) {key : Address}
    (hlow : ∀ t ∈ low, t.key < key) (hhigh : ∀ t ∈ high, key ≤ t.key) (level : Fin maxLevels) :
    (m.before key).get level = (lane level low).getLast? := by
  rw [before]
  exact h.descend_eq (by simpa using hlow) (by simpa using hhigh) _ (.inl rfl) level.isLt

/-- Every key cuts the towers in two. -/
theorem exists_cut_before (h : m.Shape towers) (key : Address) :
    ∃ low high, towers = low ++ high ∧ (∀ t ∈ low, t.key < key) ∧ ∀ t ∈ high, key ≤ t.key := by
  obtain ⟨low, high, rfl, hlow, hhigh⟩ := exists_cut h.ordered (· < key)
    fun hab hb => by simpa using UInt64.lt_trans hab (by simpa using hb)
  exact ⟨low, high, rfl, by simpa using hlow, by simpa using hhigh⟩

/-- The node behind the places before a key is the first that is not before it. -/
theorem link_before {low high : List (Tower α)} (h : m.Shape (low ++ high)) {key : Address}
    (hlow : ∀ t ∈ low, t.key < key) (hhigh : ∀ t ∈ high, key ≤ t.key) :
    m.link ground ((m.before key).get ground) = (high.map (·.slot)).head? := by
  have hchain : Chained (m.link ground) none (lane 0 (low ++ high)) := h.chained ground
  rw [lane_append, lane_zero fun t ht => h.grounded t (List.mem_append_right low ht)] at hchain
  rw [h.before_eq hlow hhigh, ← hchain.behind.next_eq_head?, Option.or_none]
  rfl

/-- A search for a key finds the tower with this key. -/
theorem find?_eq (h : m.Shape towers) (key : Address) :
    m.find? key = (towers.find? (·.key == key)).map fun t => (t.slot, t.value) := by
  obtain ⟨low, high, rfl, hlow, hhigh⟩ := h.exists_cut_before key
  have hlink := h.link_before hlow hhigh
  have hnone : low.find? (·.key == key) = none :=
    List.find?_eq_none.2 fun t ht => by simpa using UInt64.ne_of_lt (hlow t ht)
  rw [List.find?_append, hnone, Option.none_or, find?]
  cases high with
  | nil =>
    rw [next?_of_end hlink]
    rfl
  | cons t high =>
    obtain ⟨node, hnext, hkey, hvalue⟩ := next?_of_link hlink (h.stored t (by simp))
    rw [hnext]
    by_cases heq : t.key = key
    · simp [hkey, hvalue, heq]
    · -- the tower behind the place is past the key, and so are those behind it
      have hordered := (List.pairwise_append.1 h.ordered).2.1
      have hpast : key < t.key := UInt64.lt_of_le_of_ne (hhigh t (by simp)) (Ne.symm heq)
      have hrest : high.find? (·.key == key) = none :=
        List.find?_eq_none.2 fun s hs => by
          have hlt := UInt64.lt_trans hpast ((List.pairwise_cons.1 hordered).1 s hs)
          simpa using Ne.symm (UInt64.ne_of_lt hlt)
      simp [hkey, heq, hrest]

/-- A search from below finds the last tower that is not above the query. -/
theorem floor?_eq (h : m.Shape towers) (height : Height) (query : Address) :
    m.floor? height query =
      (towers.filter (·.key ≤ query)).getLast?.map fun t => (t.key, t.value) := by
  obtain ⟨low, high, rfl, hlow, hhigh⟩ := exists_cut h.ordered (· ≤ query)
    fun hab hb => by simpa using UInt64.le_trans (UInt64.le_of_lt hab) (by simpa using hb)
  have hfilter : (low ++ high).filter (·.key ≤ query) = low := by
    rw [List.filter_append, List.filter_eq_self.2 hlow, List.filter_eq_nil_iff.2 hhigh,
      List.append_nil]
  have hplace : (m.descend (· ≤ query) height.val height.property.2 none).get
      ⟨0, height.property.1⟩ = (lane 0 low).getLast? :=
    h.descend_eq hlow hhigh _ (.inl rfl) height.property.1
  rw [floor?, hplace,
    lane_zero fun t ht => h.grounded t (List.mem_append_left high ht), List.getLast?_map, hfilter]
  cases hlast : low.getLast? with
  | none => rfl
  | some t => exact h.stored t (List.mem_append_left high (List.mem_of_getLast? hlast))

/-- The ground level leads through all towers. -/
theorem toList_eq (h : m.Shape towers) : m.toList = towers.map fun t => (t.key, t.value) := by
  have hchain : Chained (m.link ground) none (lane 0 towers) := h.chained ground
  rw [lane_zero h.grounded] at hchain
  exact listFrom_eq hchain h.stored h.ordered fun t _ => Nat.zero_le _

/-! ## (3) Changes -/

/-- No two towers stand in one slot. -/
theorem nodup_slots (h : m.Shape towers) : (towers.map (·.slot)).Nodup := by
  rw [List.Nodup, List.pairwise_map]
  refine h.ordered.imp_of_mem fun {s t} hs ht hlt heq => ?_
  have hitem := h.stored t ht
  rw [← heq, h.stored s hs] at hitem
  obtain ⟨hkey, -⟩ := Prod.mk.inj (Option.some.inj hitem)
  exact UInt64.ne_of_lt hlt hkey

/-- Every place in front of a key is there. -/
theorem has_before (h : m.Shape towers) (key : Address) (level : Fin maxLevels) :
    m.Has ((m.before key).get level) := by
  generalize hplace : (m.before key).get level = place
  obtain ⟨low, high, rfl, hlow, hhigh⟩ := h.exists_cut_before key
  rw [h.before_eq hlow hhigh] at hplace
  cases place with
  | none => trivial
  | some slot =>
    obtain ⟨t, ht, -, rfl⟩ := mem_lane.1 (List.mem_of_getLast? hplace)
    exact has_of_item? (h.stored t (List.mem_append_left high ht))

/-- The levels of a node that is put in lead through it, and the others do not. -/
theorem chained_insert {low high : List (Tower α)} (h : m.Shape (low ++ high)) {slot : Nat}
    {key : Address} (hsize : slot ≤ m.nodes.size) (hslot : slot ∉ (low ++ high).map (·.slot))
    (hlow : ∀ t ∈ low, t.key < key) (hhigh : ∀ t ∈ high, key ≤ t.key) (height : Height) (value : α)
    (level : Fin maxLevels) :
    Chained ((m.insert slot height key value).link level) none
      (lane level (low ++ ⟨slot, key, value, height.val⟩ :: high)) := by
  have hlink := link_insert hsize height key value (h.has_before key) level
  rw [h.before_eq hlow hhigh] at hlink
  have hchain := h.chained level
  have hsub : (lane level.val (low ++ high)).Sublist _ := lane_sublist level.val (low ++ high)
  have hnodup := h.nodup_slots.sublist hsub
  have hfresh : slot ∉ lane level.val (low ++ high) := fun hm => hslot (hsub.subset hm)
  rw [lane_append] at hchain hnodup hfresh ⊢
  -- the lane of a level grows by the slot only if the tower reaches up to it
  by_cases hlevel : level.val < height.val
  · rw [lane_cons_of_lt hlevel]
    have hne : some slot ≠ (lane level.val low).getLast? := fun heq =>
      hfresh (List.mem_append_left _ (List.mem_of_getLast? heq.symm))
    refine hchain.insert hnodup (by simp) hfresh (by simp) ?_ ?_ fun q hq hnew => ?_
    · rw [hlink, Option.or_none, if_pos ⟨hlevel, rfl⟩]
    · rw [hlink, Option.or_none, if_neg fun h => hne h.2, if_pos rfl, if_pos hlevel]
    · rw [Option.or_none] at hq
      rw [hlink, if_neg fun h => hq h.2, if_neg hnew]
  · rw [lane_cons_of_le (Nat.not_lt.1 hlevel)]
    refine hchain.congr ?_ fun s hs => ?_
    · rw [hlink, if_neg fun h => hlevel h.1, if_neg nofun]
    · have hne : some s ≠ some slot := fun heq => hfresh (Option.some.inj heq ▸ hs)
      rw [hlink, if_neg fun h => hlevel h.1, if_neg hne]

/-- **Putting a node in** makes a tower of it, between those with lower and with higher keys. -/
theorem insert {low high : List (Tower α)} (h : m.Shape (low ++ high)) {slot : Nat} {key : Address}
    (hsize : slot ≤ m.nodes.size) (hslot : slot ∉ (low ++ high).map (·.slot))
    (hlow : ∀ t ∈ low, t.key < key) (hhigh : ∀ t ∈ high, key < t.key) (height : Height)
    (value : α) :
    (m.insert slot height key value).Shape (low ++ ⟨slot, key, value, height.val⟩ :: high) where
  ordered := by
    refine List.pairwise_append.2 ⟨(List.pairwise_append.1 h.ordered).1, ?_, ?_⟩
    · exact List.pairwise_cons.2 ⟨hhigh, (List.pairwise_append.1 h.ordered).2.1⟩
    · intro s hs t ht
      obtain rfl | ht := List.mem_cons.1 ht
      · exact hlow s hs
      · exact (List.pairwise_append.1 h.ordered).2.2 s hs t ht
  stored t ht := by
    rw [item?_insert hsize]
    obtain rfl | ht : t = ⟨slot, key, value, height.val⟩ ∨ t ∈ low ++ high := by
      simpa [or_left_comm] using ht
    · simp
    · rw [if_neg fun heq => hslot (List.mem_map.2 ⟨t, ht, heq⟩), h.stored t ht]
  grounded t ht := by
    obtain rfl | ht : t = ⟨slot, key, value, height.val⟩ ∨ t ∈ low ++ high := by
      simpa [or_left_comm] using ht
    · exact height.property.1
    · exact h.grounded t ht
  chained :=
    h.chained_insert hsize hslot hlow (fun t ht => UInt64.le_of_lt (hhigh t ht)) height value

section

variable {low high : List (Tower α)} {t : Tower α}

/-- The towers around one of them. -/
theorem around (h : m.Shape (low ++ t :: high)) :
    (∀ s ∈ low, s.key < t.key) ∧ ∀ s ∈ t :: high, t.key ≤ s.key := by
  obtain ⟨-, hhigh, hlow⟩ := List.pairwise_append.1 h.ordered
  refine ⟨fun s hs => hlow s hs t (by simp), fun s hs => ?_⟩
  obtain rfl | hs := List.mem_cons.1 hs
  · exact UInt64.le_refl _
  · exact UInt64.le_of_lt ((List.pairwise_cons.1 hhigh).1 s hs)

/-- A level that does not reach a tower does not lead to it. -/
theorem link_ne (h : m.Shape (low ++ t :: high)) {level : Fin maxLevels}
    (hlevel : t.height ≤ level.val) : m.link level (lane level low).getLast? ≠ some t.slot := by
  have hchain := h.chained level
  rw [lane_append, lane_cons_of_le hlevel] at hchain
  have hslots := h.nodup_slots
  rw [List.map_append, List.map_cons] at hslots
  have hnotin := (List.nodup_cons.1 (List.nodup_append.1 hslots).2.1).1
  rw [← Option.or_none (o := (lane level.val low).getLast?), hchain.behind.next_eq_head?]
  intro heq
  exact hnotin ((lane_sublist level.val high).subset (List.mem_of_head? heq))

/-- No level leads through a node that is taken out. -/
theorem chained_unlink (h : m.Shape (low ++ t :: high)) (level : Fin maxLevels) :
    Chained ((m.unlink t.slot t.key).link level) none (lane level (low ++ high)) := by
  have hlink := link_unlink m t.slot t.key level
  rw [h.before_eq h.around.1 h.around.2] at hlink
  have hchain := h.chained level
  have hnodup := h.nodup_slots.sublist (lane_sublist level.val (low ++ t :: high))
  rw [lane_append] at hchain hnodup ⊢
  by_cases hlevel : level.val < t.height
  · rw [lane_cons_of_lt hlevel] at hchain hnodup
    have hnext := hchain.behind.1
    rw [Option.or_none] at hnext
    refine hchain.erase hnodup (by simp) ?_ fun q hq => ?_
    · rw [Option.or_none, hlink, if_pos ⟨rfl, hnext⟩]
    · rw [Option.or_none] at hq
      rw [hlink, if_neg fun h => hq h.1]
  · -- there is nothing to lead past
    have hle := Nat.not_lt.1 hlevel
    have hsame (q : Place) : (m.unlink t.slot t.key).link level q = m.link level q := by
      rw [hlink, if_neg]
      rintro ⟨rfl, heq⟩
      exact h.link_ne hle heq
    rw [lane_cons_of_le hle] at hchain
    exact hchain.congr (hsame none) fun s _ => hsame (some s)

/-- **Taking a node off its levels** leaves the other towers. -/
theorem unlink (h : m.Shape (low ++ t :: high)) : (m.unlink t.slot t.key).Shape (low ++ high) := by
  have hsub : (low ++ high).Sublist (low ++ t :: high) :=
    (List.sublist_cons_self t high).append_left low
  refine ⟨h.ordered.sublist hsub, fun s hs => ?_, fun s hs => h.grounded s (hsub.subset hs),
    h.chained_unlink⟩
  rw [item?_unlink]
  exact h.stored s (hsub.subset hs)

end

end Shape

end Lanes

end TraceAtlas
