import TraceAtlas.Chain.Layout

/-! # Chains that pass the check

The check reads the records one after the other and carries the start of the record before. Here it
is opened once: a chain passes exactly if its words fill whole records, every record fits by itself,
and the starts do not decrease.

## Main statements
* `Record.Fits` : what the check asks of one record, given where it stands.
* `Chain.check_eq_ok_iff` : the check as a statement about all records at once.
-/

namespace TraceAtlas

/-- A record that stands at word `index` of `len` lies in a region and leads forward to a record
boundary. -/
structure Record.Fits (r : Record) (regionSize : UInt32) (len index : Nat) : Prop where
  start_le_stop : r.start ≤ r.stop
  stop_le_size : r.stop ≤ regionSize
  next_ahead : index + Record.width ≤ r.next.toNat
  next_inside : r.next.toNat ≤ len
  next_aligned : r.next.toNat % Record.width = 0

namespace Chain

/-- One record passes exactly if it fits and does not start before the one in front of it. -/
theorem checkRecord_eq_ok_iff {regionSize : UInt32} {len index : Nat} {previous : Offset}
    {r : Record} :
    checkRecord regionSize len index previous r = .ok () ↔
      r.Fits regionSize len index ∧ previous ≤ r.start := by
  unfold checkRecord
  constructor
  · intro h
    split at h
    · cases h
    · rename_i hint
      split at h
      · cases h
      · rename_i hskip
        split at h
        · cases h
        · rename_i hord
          simp only [not_or, UInt32.not_lt, Nat.not_lt, Decidable.not_not, ne_eq] at hint hskip hord
          exact ⟨⟨hint.1, hint.2, hskip.1, hskip.2.1, hskip.2.2⟩, hord⟩
  · rintro ⟨fits, hord⟩
    rw [if_neg, if_neg, if_neg]
    · exact UInt32.not_lt.2 hord
    · simp [Nat.not_lt.2 fits.next_ahead, Nat.not_lt.2 fits.next_inside, fits.next_aligned]
    · simp [UInt32.not_lt.2 fits.start_le_stop, UInt32.not_lt.2 fits.stop_le_size]

/-- Records in a row pass exactly if each fits where it stands and the starts, from `previous` on,
do not decrease. -/
theorem checkRecords_eq_ok_iff {regionSize : UInt32} {len : Nat} {rs : List Record} {index : Nat}
    {previous : Offset} :
    checkRecords regionSize len index previous rs = .ok () ↔
      (∀ (i : Nat) (r : Record), rs[i]? = some r →
        r.Fits regionSize len (index + Record.width * i)) ∧
        (∀ r ∈ rs, previous ≤ r.start) ∧ rs.Pairwise fun a b => a.start ≤ b.start := by
  induction rs generalizing index previous with
  | nil => simp [checkRecords]
  | cons r rs ih =>
    have hstep : checkRecords regionSize len index previous (r :: rs) = .ok () ↔
        checkRecord regionSize len index previous r = .ok () ∧
          checkRecords regionSize len (index + Record.width) r.start rs = .ok () := by
      rw [checkRecords]
      cases checkRecord regionSize len index previous r <;> simp
    -- the record behind the first one is the first of those that remain
    have hplace (i : Nat) : index + Record.width + Record.width * i
        = index + Record.width * (i + 1) := by
      rw [Nat.mul_succ]; omega
    rw [hstep, checkRecord_eq_ok_iff, ih]
    simp only [hplace]
    constructor
    · rintro ⟨⟨fits, hord⟩, hrest, hbehind, hsorted⟩
      refine ⟨fun i q hq => ?_, fun q hq => ?_, List.pairwise_cons.2 ⟨hbehind, hsorted⟩⟩
      · cases i with
        | zero =>
          obtain rfl : r = q := by simpa using hq
          exact fits
        | succ i => exact hrest i q (by simpa using hq)
      · rcases List.mem_cons.1 hq with rfl | hq
        · exact hord
        · exact UInt32.le_trans hord (hbehind q hq)
    · rintro ⟨hfits, hord, hsorted⟩
      obtain ⟨hbehind, hsorted⟩ := List.pairwise_cons.1 hsorted
      exact ⟨⟨hfits 0 r rfl, hord r (by simp)⟩, fun i q hq => hfits (i + 1) q (by simpa using hq),
        hbehind, hsorted⟩

/-- **The check, said at once.** A chain passes exactly if its words fill whole records, every
record fits where it stands, and the starts do not decrease. -/
theorem check_eq_ok_iff {c : Chain} {regionSize : UInt32} :
    c.check regionSize = .ok () ↔
      c.length % Record.width = 0 ∧
        (∀ (i : Nat) (r : Record), c.records[i]? = some r →
          r.Fits regionSize c.length (Record.width * i)) ∧
        c.records.Pairwise fun a b => a.start ≤ b.start := by
  unfold check
  split
  · rename_i h
    simp [h]
  · rename_i h
    rw [checkRecords_eq_ok_iff]
    simp only [Nat.zero_add, Decidable.not_not.1 h, true_and]
    exact and_congr_right fun _ => and_iff_right fun r _ => UInt32.zero_le

end Chain

end TraceAtlas
