import TraceAtlas.Proofs.Chain.Layout
import TraceAtlas.Proofs.Chain.Walk

/-! # Walks on chains that pass the check

The check makes every skip pointer lead forward to a record or to the end of the chain. A walk that
starts at a record therefore stays on records, and never meets a skip that leads back.

## Main statements
* `Chain.exists_walk_of_check` : a walk on a checked chain comes to an end.
-/

namespace TraceAtlas

namespace Chain

/-- Skip pointers of a checked chain lead to later records. -/
theorem exists_next_of_check {c : Chain} {regionSize : UInt32} (h : c.check regionSize = .ok ())
    {i : Nat} {r : Record} (hr : c.records[i]? = some r) :
    ∃ j, r.next.toNat = Record.width * j ∧ i < j := by
  obtain ⟨-, hfits, -⟩ := check_eq_ok_iff.1 h
  have fits := hfits i r hr
  refine ⟨r.next.toNat / Record.width, ?_, ?_⟩
  · rw [Nat.mul_div_cancel' (Nat.dvd_of_mod_eq_zero fits.next_aligned)]
  · have := fits.next_ahead
    simp only [Record.width] at *
    omega

/-- From a record on, one search in a checked chain misses or stops behind a later record. -/
theorem seek_of_check {c : Chain} {regionSize : UInt32} (h : c.check regionSize = .ok ())
    (offset cursor i : Nat) :
    c.seek offset cursor (Record.width * i) = .ok (none, cursor) ∨
      ∃ f j, i < j ∧ c.seek offset cursor (Record.width * i) = .ok (some f, Record.width * j) := by
  -- a skip leads to a record further on, so fewer and fewer remain
  induction hn : c.records.length - i using Nat.strongRecOn generalizing i with
  | ind n ih =>
    rw [seek_eq, recordAt?_width_mul]
    cases hr : c.records[i]? with
    | none => exact .inl rfl
    | some r =>
      have hlen := (List.getElem?_eq_some_iff.1 hr).1
      by_cases hstart : offset < r.start.toNat
      · exact .inl (if_pos hstart)
      · by_cases hstop : offset < r.stop.toNat
        · refine .inr ⟨r.frame, i + 1, by omega, ?_⟩
          simp only [if_neg hstart, if_pos hstop]
          rfl
        · obtain ⟨j, hnext, hij⟩ := exists_next_of_check h hr
          have hahead : Record.width * i + Record.width ≤ r.next.toNat := by
            rw [hnext, ← Nat.mul_succ]
            exact Nat.mul_le_mul_left _ hij
          simp only [if_neg hstart, if_neg hstop, if_pos hahead]
          rw [hnext]
          refine (ih (c.records.length - j) (by omega) j rfl).imp_right ?_
          rintro ⟨f, k, hjk, hk⟩
          exact ⟨f, k, by omega, hk⟩

/-- **A walk on a checked chain comes to an end**, from any record on. -/
theorem exists_walk_of_check {c : Chain} {regionSize : UInt32} (h : c.check regionSize = .ok ())
    (offset i : Nat) : ∃ steps, c.walk offset (Record.width * i) = .ok steps := by
  induction hn : c.length - Record.width * i using Nat.strongRecOn generalizing i with
  | ind n ih =>
    rcases seek_of_check h offset (Record.width * i) i with hmiss | ⟨f, j, hij, hhit⟩
    · exact ⟨_, by rw [walk_eq, nextFrame, hmiss]⟩
    · obtain ⟨hbehind, hinside⟩ := seek_hit hhit
      obtain ⟨steps, hsteps⟩ := ih (c.length - Record.width * j) (by
        simp only [Record.width] at *; omega) j rfl
      refine ⟨(some f, Record.width * j) :: steps, ?_⟩
      rw [walk_eq, nextFrame, hhit]
      simp only [hsteps, Except.map]

end Chain

end TraceAtlas
