import TraceAtlas.Index.Lanes

/-! # Towers

An entry that reaches some levels is a tower: each level below its height leads through its slot.
The slots that a level leads through are chained, and a slot is put into a chain, or taken out of
one, by a change at the place in front of it.

## Main definitions
* `Chained` : links that lead through the slots of a list to its end.
* `Tower`, `lane` : an entry with its height, and the slots of the towers that reach a level.

## Main statements
* `Chained.insert`, `Chained.erase` : a slot that is put in, and one that is taken out.
-/

namespace TraceAtlas

/-! ## (1) Chains of links -/

/-- Links lead from a place through the slots of a list and end there. -/
def Chained (next : Place → Option Nat) : Place → List Nat → Prop
  | p, [] => next p = none
  | p, slot :: rest => next p = some slot ∧ Chained next (some slot) rest

/-- The place behind some slots that are passed one after the other. -/
theorem getLast?_cons_or (slot : Nat) (slots : List Nat) (p : Place) :
    (slot :: slots).getLast?.or p = slots.getLast?.or (some slot) := by
  cases h : slots.getLast? <;> simp [List.getLast?_cons, h]

/-- Whoever has passed a slot stands at a slot that was passed. -/
theorem exists_getLast?_cons_or (slot : Nat) (slots : List Nat) (p : Place) :
    ∃ s ∈ slot :: slots, (slot :: slots).getLast?.or p = some s := by
  rw [getLast?_cons_or]
  cases h : slots.getLast? with
  | none => exact ⟨slot, by simp, rfl⟩
  | some s => exact ⟨s, List.mem_cons_of_mem slot (List.mem_of_getLast? h), rfl⟩

namespace Chained

variable {next next' : Place → Option Nat} {p : Place} {passed rest : List Nat} {slot : Nat}

/-- A chain depends on the links of the places it passes. -/
theorem congr {slots : List Nat} (h : Chained next p slots) (hp : next' p = next p)
    (hslots : ∀ s ∈ slots, next' (some s) = next (some s)) : Chained next' p slots := by
  induction slots generalizing p with
  | nil => exact hp.trans h
  | cons s slots ih =>
    exact ⟨hp.trans h.1, ih h.2 (hslots s (by simp)) fun r hr => hslots r (by simp [hr])⟩

/-- A chain goes on behind every slot of it. -/
theorem behind (h : Chained next p (passed ++ rest)) :
    Chained next (passed.getLast?.or p) rest := by
  induction passed generalizing p with
  | nil => exact h
  | cons s passed ih =>
    rw [getLast?_cons_or]
    exact ih h.2

/-- A chain leads first to the first of its slots. -/
theorem next_eq_head? {slots : List Nat} (h : Chained next p slots) : next p = slots.head? := by
  cases slots with
  | nil => exact h
  | cons s slots => exact h.1

/-- A slot is put into a chain by two links: one to it, and one on from it. -/
theorem insert (h : Chained next p (passed ++ rest)) (hnodup : (passed ++ rest).Nodup)
    (hp : ∀ s ∈ passed ++ rest, p ≠ some s) (hslot : slot ∉ passed ++ rest)
    (hpslot : p ≠ some slot) (hto : next' (passed.getLast?.or p) = some slot)
    (hon : next' (some slot) = next (passed.getLast?.or p))
    (hsame : ∀ q, q ≠ passed.getLast?.or p → q ≠ some slot → next' q = next q) :
    Chained next' p (passed ++ slot :: rest) := by
  induction passed generalizing p with
  | nil =>
    refine ⟨hto, ?_⟩
    -- the slot comes first: what the place led to before, it leads to now
    cases rest with
    | nil => exact hon.trans h
    | cons s rest =>
      have hother (r : Nat) (hr : r ∈ s :: rest) : next' (some r) = next (some r) :=
        hsame _ (Ne.symm (hp r hr)) fun heq => hslot (Option.some.inj heq ▸ hr)
      exact ⟨hon.trans h.1, h.2.congr (hother s (by simp)) fun r hr => hother r (by simp [hr])⟩
  | cons s passed ih =>
    obtain ⟨hs, hnodup⟩ := List.nodup_cons.1 hnodup
    obtain ⟨last, hlast, heq⟩ := exists_getLast?_cons_or s passed p
    have hpast : p ≠ (s :: passed).getLast?.or p := by
      rw [heq]
      exact hp last (List.mem_append_left rest hlast)
    refine ⟨(hsame p hpast hpslot).trans h.1, ?_⟩
    rw [getLast?_cons_or] at hto hon hsame
    refine ih h.2 hnodup (fun r hr hsr => ?_) (fun hr => hslot ?_) (fun hsr => hslot ?_) hto hon
      hsame
    · -- the slot passed does not come again, so that its link is one of those that stay
      exact hs (Option.some.inj hsr ▸ hr)
    · exact List.mem_cons_of_mem s hr
    · exact Option.some.inj hsr ▸ List.mem_cons_self

/-- A slot is taken out of a chain by one link that leads past it. -/
theorem erase (h : Chained next p (passed ++ slot :: rest))
    (hnodup : (passed ++ slot :: rest).Nodup) (hp : ∀ s ∈ passed ++ slot :: rest, p ≠ some s)
    (hpast : next' (passed.getLast?.or p) = next (some slot))
    (hsame : ∀ q, q ≠ passed.getLast?.or p → next' q = next q) :
    Chained next' p (passed ++ rest) := by
  induction passed generalizing p with
  | nil =>
    cases rest with
    | nil => exact hpast.trans h.2
    | cons s rest =>
      have hother (r : Nat) (hr : r ∈ s :: rest) : next' (some r) = next (some r) :=
        hsame _ (Ne.symm (hp r (List.mem_cons_of_mem slot hr)))
      refine ⟨hpast.trans h.2.1, ?_⟩
      exact h.2.2.congr (hother s (by simp)) fun r hr => hother r (by simp [hr])
  | cons s passed ih =>
    obtain ⟨hs, hnodup⟩ := List.nodup_cons.1 hnodup
    obtain ⟨last, hlast, heq⟩ := exists_getLast?_cons_or s passed p
    have hne : p ≠ (s :: passed).getLast?.or p := by
      rw [heq]
      exact hp last (List.mem_append_left _ hlast)
    refine ⟨(hsame p hne).trans h.1, ?_⟩
    rw [getLast?_cons_or] at hpast hsame
    exact ih h.2 hnodup (fun r hr hsr => hs (Option.some.inj hsr ▸ hr)) hpast hsame

end Chained

/-! ## (2) Towers -/

/-- An entry in a slot, and how many levels lead through it. -/
structure Tower (α : Type) where
  slot : Nat
  key : Address
  value : α
  height : Nat

/-- The slots of the towers that reach a level. -/
def lane {α : Type} (level : Nat) (towers : List (Tower α)) : List Nat :=
  (towers.filter (level < ·.height)).map (·.slot)

section

variable {α : Type} {level : Nat}

/-- A level leads through a list of towers part by part. -/
@[simp] theorem lane_append (level : Nat) (A B : List (Tower α)) :
    lane level (A ++ B) = lane level A ++ lane level B := by
  simp [lane]

/-- A level leads through a tower that reaches it. -/
theorem lane_cons_of_lt {t : Tower α} (h : level < t.height) (A : List (Tower α)) :
    lane level (t :: A) = t.slot :: lane level A := by
  simp [lane, h]

/-- A level leaves out a tower that does not reach it. -/
theorem lane_cons_of_le {t : Tower α} (h : t.height ≤ level) (A : List (Tower α)) :
    lane level (t :: A) = lane level A := by
  simp [lane, Nat.not_lt.2 h]

/-- A slot is in a lane if its tower is higher than that. -/
theorem mem_lane {A : List (Tower α)} {slot : Nat} :
    slot ∈ lane level A ↔ ∃ t ∈ A, level < t.height ∧ t.slot = slot := by
  simp [lane, and_assoc]

/-- Every tower is on the ground. -/
theorem lane_zero {A : List (Tower α)} (h : ∀ t ∈ A, 0 < t.height) :
    lane 0 A = A.map (·.slot) := by
  rw [lane, List.filter_eq_self.2 fun t ht => decide_eq_true (h t ht)]

/-- A level leads through its slots in the order of the towers. -/
theorem lane_sublist (level : Nat) (A : List (Tower α)) : (lane level A).Sublist (A.map (·.slot)) :=
  List.filter_sublist.map _

end

end TraceAtlas
