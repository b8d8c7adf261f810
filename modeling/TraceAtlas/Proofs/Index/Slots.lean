import TraceAtlas.Index.Slots

/-! # Requests for slots

A request for a slot is answered or refused; it is never a fault.

## Main statements
* `Slots.exists_outcome_take` : what a request for a slot comes to.
-/

namespace TraceAtlas

namespace Slots

/-- Making sure of a chunk is never a fault. -/
theorem exists_outcome_reserve (plan : SlotPlan) (s : Slots) (slot : Nat) :
    ∃ r, (s.reserve plan slot).outcome = .ok r := by
  simp only [reserve]
  split
  · exact ⟨_, rfl⟩
  · split
    · exact ⟨_, rfl⟩
    · split <;> exact ⟨_, rfl⟩

/-- A request for a slot is never a fault. -/
theorem exists_outcome_take (plan : SlotPlan) (s : Slots) :
    ∃ r, (s.take plan).outcome = .ok r := by
  unfold take
  split
  · exact ⟨_, rfl⟩
  · split
    · exact ⟨_, rfl⟩
    · obtain ⟨r, hr⟩ := exists_outcome_reserve plan s s.handedOut
      rw [Traced.outcome_bind_of_ok hr]
      cases r <;> exact ⟨_, rfl⟩

end Slots

end TraceAtlas
