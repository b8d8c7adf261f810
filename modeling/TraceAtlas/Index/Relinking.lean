import TraceAtlas.Index.Lanes

/-! # Reading lanes after a change

Where the levels lead, and which entries the slots hold, after a node was written and after the
links of some places were changed. A change of links at one place of a level shows at no other place
and on no other level, and never in an entry.

## Main statements
* `Lanes.link_publish`, `Lanes.link_bypass` : the loops over the levels.
* `Lanes.link_insert`, `Lanes.link_unlink` : a node that is put in, and one that is taken out.
-/

namespace TraceAtlas

namespace Lanes

variable {α : Type} {m : Lanes α}

/-- There is something at a place. -/
def Has (m : Lanes α) : Place → Prop
  | none => True
  | some slot => slot < m.nodes.size

/-- A place that leads somewhere is there. -/
theorem has_of_link_eq_some {level : Fin maxLevels} {place : Place} {slot : Nat}
    (h : m.link level place = some slot) : m.Has place := by
  cases place with
  | none => trivial
  | some s =>
    obtain ⟨node, hnode, -⟩ := Option.bind_eq_some_iff.1 h
    exact (Array.getElem?_eq_some_iff.1 hnode).1

/-! ## (1) One link -/

/-- The links of a place, after one of them was changed. -/
theorem get_set (v : Links) (level : Fin maxLevels) (target : Option Nat) (l : Fin maxLevels) :
    (v.set level target level.isLt).get l = if l = level then target else v.get l := by
  refine (Vector.getElem_set level.isLt l.isLt).trans ?_
  simp only [Fin.ext_iff, @eq_comm Nat l.val]
  rfl

/-- No node comes or goes with a link. -/
@[simp] theorem size_setLink (m : Lanes α) (level : Fin maxLevels) (place : Place)
    (target : Option Nat) : (m.setLink level place target).nodes.size = m.nodes.size := by
  cases place <;> simp [setLink]

/-- No entry changes with a link. -/
@[simp] theorem item?_setLink (m : Lanes α) (level : Fin maxLevels) (place : Place)
    (target : Option Nat) (slot : Nat) :
    (m.setLink level place target).item? slot = m.item? slot := by
  cases place with
  | none => rfl
  | some s =>
    simp only [setLink, item?, Array.getElem?_modify]
    split
    · rw [Option.map_map]
      rfl
    · rfl

/-- One link changes, at one place and on one level. -/
theorem link_setLink {place : Place} (h : m.Has place) (level : Fin maxLevels)
    (target : Option Nat) (l : Fin maxLevels) (p : Place) :
    (m.setLink level place target).link l p =
      if l = level ∧ p = place then target else m.link l p := by
  cases place with
  | none =>
    cases p with
    | none => simp [setLink, link, get_set]
    | some s => simp [setLink, link]
  | some slot =>
    cases p with
    | none => simp [setLink, link]
    | some s =>
      simp only [setLink, link, Array.getElem?_modify, Option.some.injEq]
      by_cases hs : slot = s
      · subst hs
        have hslot : slot < m.nodes.size := h
        simp [Array.getElem?_eq_getElem hslot, get_set]
      · simp [hs, Ne.symm hs]

/-! ## (2) One node -/

/-- Writing a slot that was written before keeps the number of nodes; writing the first that was not
adds one. -/
theorem size_write {slot : Nat} (h : slot ≤ m.nodes.size) (node : Node α) :
    (m.write slot node).nodes.size = max m.nodes.size (slot + 1) := by
  unfold write
  split <;> simp <;> omega

/-- The node that was written is in its slot, and the others are where they were. -/
theorem nodes_write {slot : Nat} (h : slot ≤ m.nodes.size) (node : Node α) (s : Nat) :
    (m.write slot node).nodes[s]? = if s = slot then some node else m.nodes[s]? := by
  unfold write
  split
  · rename_i hlt
    rw [Array.getElem?_set]
    simp only [eq_comm]
  · have hslot : slot = m.nodes.size := by omega
    rw [Array.getElem?_push, hslot]

/-- A written node has the entry that was written, and the others have theirs. -/
theorem item?_write {slot : Nat} (h : slot ≤ m.nodes.size) (node : Node α) (s : Nat) :
    (m.write slot node).item? s = if s = slot then some (node.key, node.value) else m.item? s := by
  simp only [item?, nodes_write h]
  split <;> rfl

/-- From the slot that was written the levels lead as its node says. -/
theorem link_write {slot : Nat} (h : slot ≤ m.nodes.size) (node : Node α) (level : Fin maxLevels)
    (p : Place) :
    (m.write slot node).link level p =
      if p = some slot then node.next.get level else m.link level p := by
  cases p with
  | none => rfl
  | some s =>
    simp only [link, nodes_write h, Option.some.injEq]
    split <;> rfl

/-- Every place stays when a node is written. -/
theorem has_write {slot : Nat} (h : slot ≤ m.nodes.size) (node : Node α) {p : Place}
    (hp : m.Has p) : (m.write slot node).Has p := by
  cases p with
  | none => trivial
  | some s =>
    have hs : s < m.nodes.size := hp
    simp only [Has, size_write h]
    omega

/-! ## (3) The loops over the levels -/

section

variable (places : Vector Place maxLevels) (slot : Nat)

/-- Publishing adds no node. -/
@[simp] theorem size_publish (n : Nat) (h : n ≤ maxLevels) :
    (m.publish places slot n h).nodes.size = m.nodes.size := by
  induction n with
  | zero => rfl
  | succ n ih => rw [publish, size_setLink, ih]

/-- Publishing changes no entry. -/
@[simp] theorem item?_publish (n : Nat) (h : n ≤ maxLevels) (s : Nat) :
    (m.publish places slot n h).item? s = m.item? s := by
  induction n with
  | zero => rfl
  | succ n ih => rw [publish, item?_setLink, ih]

/-- Publishing adds no place and takes none away. -/
@[simp] theorem has_publish (n : Nat) (h : n ≤ maxLevels) (p : Place) :
    (m.publish places slot n h).Has p ↔ m.Has p := by
  cases p <;> simp [Has]

variable {places}

/-- A level below `n` leads to the slot from the place in front of it, and nothing else is changed.
-/
theorem link_publish (hplaces : ∀ level : Fin maxLevels, m.Has (places.get level)) (n : Nat)
    (h : n ≤ maxLevels) (l : Fin maxLevels) (p : Place) :
    (m.publish places slot n h).link l p =
      if l.val < n ∧ p = places.get l then some slot else m.link l p := by
  induction n with
  | zero => simp [publish]
  | succ n ih =>
    have hplace : (m.publish places slot n (Nat.le_of_succ_le h)).Has (places.get ⟨n, h⟩) :=
      (has_publish places slot n _ _).2 (hplaces ⟨n, h⟩)
    rw [publish, link_setLink hplace, ih]
    by_cases hl : l = ⟨n, h⟩
    · subst hl
      simp
    · have hne : l.val ≠ n := fun heq => hl (Fin.ext heq)
      have hlt : l.val < n + 1 ↔ l.val < n := by omega
      simp [hl, hlt]

variable (places)

/-- Bypassing adds no node. -/
@[simp] theorem size_bypass (m : Lanes α) (n : Nat) (h : n ≤ maxLevels) :
    (m.bypass places slot n h).nodes.size = m.nodes.size := by
  induction n generalizing m with
  | zero => rfl
  | succ n ih =>
    rw [bypass, ih]
    split
    · rw [size_setLink]
    · rfl

/-- Bypassing changes no entry. -/
@[simp] theorem item?_bypass (m : Lanes α) (n : Nat) (h : n ≤ maxLevels) (s : Nat) :
    (m.bypass places slot n h).item? s = m.item? s := by
  induction n generalizing m with
  | zero => rfl
  | succ n ih =>
    rw [bypass, ih]
    split
    · rw [item?_setLink]
    · rfl

/-- A level below `n` is led past the slot where it led to it, and nothing else is changed. -/
theorem link_bypass (m : Lanes α) (n : Nat) (h : n ≤ maxLevels) (l : Fin maxLevels) (p : Place) :
    (m.bypass places slot n h).link l p =
      if l.val < n ∧ p = places.get l ∧ m.link l p = some slot then m.link l (some slot)
      else m.link l p := by
  induction n generalizing m with
  | zero => simp [bypass]
  | succ n ih =>
    rw [bypass, ih]
    by_cases hl : l = ⟨n, h⟩
    · subst hl
      -- on the level `n` itself the place in front leads to the slot, or nothing is done
      by_cases hlead : m.link ⟨n, h⟩ (places.get ⟨n, h⟩) = some slot
      · rw [if_pos hlead, link_setLink (has_of_link_eq_some hlead)]
        by_cases hp : p = places.get ⟨n, h⟩
        · subst hp
          simp [hlead]
        · simp [hp]
      · by_cases hp : p = places.get ⟨n, h⟩
        · subst hp
          simp [hlead]
        · simp [hlead, hp]
    · -- what is done on the level `n` does not show on another one
      have hne : l.val ≠ n := fun heq => hl (Fin.ext heq)
      have hlt : l.val < n + 1 ↔ l.val < n := by omega
      have hother (q : Place) :
          (if m.link ⟨n, h⟩ (places.get ⟨n, h⟩) = some slot then
            m.setLink ⟨n, h⟩ (places.get ⟨n, h⟩) (m.link ⟨n, h⟩ (some slot)) else m).link l q =
          m.link l q := by
        split
        · rename_i hlead
          rw [link_setLink (has_of_link_eq_some hlead), if_neg fun hq => hl hq.1]
        · rfl
      simp only [hother, hlt]

end

/-! ## (4) Whole changes -/

/-- Putting a node in the first slot never written adds one. -/
theorem size_insert {slot : Nat} (h : slot ≤ m.nodes.size) (height : Height) (key : Address)
    (value : α) : (m.insert slot height key value).nodes.size = max m.nodes.size (slot + 1) := by
  rw [insert, size_publish, size_write h]

/-- A node that is put in has its entry, and the others keep theirs. -/
theorem item?_insert {slot : Nat} (h : slot ≤ m.nodes.size) (height : Height) (key : Address)
    (value : α) (s : Nat) :
    (m.insert slot height key value).item? s =
      if s = slot then some (key, value) else m.item? s := by
  rw [insert, item?_publish, item?_write h]

/-- Below its height, a node that is put in comes between the place in front of it and what was next
there. -/
theorem link_insert {slot : Nat} (h : slot ≤ m.nodes.size) (height : Height) (key : Address)
    (value : α) (hplaces : ∀ level : Fin maxLevels, m.Has ((m.before key).get level))
    (l : Fin maxLevels) (p : Place) :
    (m.insert slot height key value).link l p =
      if l.val < height.val ∧ p = (m.before key).get l then some slot
      else if p = some slot then
        if l.val < height.val then m.link l ((m.before key).get l) else none
      else m.link l p := by
  have hnext (f : Fin maxLevels → Option Nat) : (Vector.ofFn f).get l = f l :=
    Vector.getElem_ofFn l.isLt
  rw [insert, link_publish slot (fun level => has_write h _ (hplaces level)), link_write h, hnext]

/-- A node that is taken out stays in memory. -/
theorem size_unlink (m : Lanes α) (slot : Nat) (key : Address) :
    (m.unlink slot key).nodes.size = m.nodes.size := size_bypass _ _ _ _ _

/-- A node that is taken out keeps its entry, and so do the others. -/
theorem item?_unlink (m : Lanes α) (slot : Nat) (key : Address) (s : Nat) :
    (m.unlink slot key).item? s = m.item? s := item?_bypass _ _ _ _ _ _

/-- Where a level led to a node that is taken out, it leads on to what was next behind the node. -/
theorem link_unlink (m : Lanes α) (slot : Nat) (key : Address) (l : Fin maxLevels) (p : Place) :
    (m.unlink slot key).link l p =
      if p = (m.before key).get l ∧ m.link l p = some slot then m.link l (some slot)
      else m.link l p := by
  rw [unlink, link_bypass]
  simp [l.isLt]

end Lanes

end TraceAtlas
