import Mathlib.Logic.Relation
import TraceAtlas.Proofs.Chain.Checked

/-! # Records that a walk passes over

The check takes the records one by one: every skip pointer leads forward to a record, but nothing is
said of the records in between. They are meant to be nested in the one that is skipped, and then a
walk loses nothing. Where one of them lasts longer than the record whose skip pointer passes it, a
walk that takes that jump never sees it. Here the loss is told exactly, for every chain that passes
the check and every offset.

## Main definitions
* `Chain.Leads` : one step of a walk, from a record to a record.
* `Chain.Passes` : a walk jumps over a record.

## Main statements
* `Chain.frames_complete_iff` : a walk meets all active frames exactly if it passes none of them.
-/

namespace TraceAtlas

/-- A record has words. -/
theorem Record.width_pos : 0 < Record.width := by decide

namespace Chain

variable {c : Chain} {offset i j k : Nat} {r : Record} {regionSize : UInt32}

/-! ## (1) Walks from a record on -/

/-- The frames that a walk meets from a cursor on. -/
def framesFrom (c : Chain) (offset cursor : Nat) : Except Fault (List FrameId) :=
  (c.walk offset cursor).map fun steps => steps.filterMap (·.1)

/-- From a miss on there are no frames. -/
theorem framesFrom_of_miss {cursor after : Nat}
    (h : c.nextFrame offset cursor = .ok (none, after)) : c.framesFrom offset cursor = .ok [] := by
  rw [framesFrom, walk_eq, h]
  rfl

/-- From a hit on there is its frame, and then those that follow. -/
theorem framesFrom_of_hit {cursor after : Nat} {f : FrameId}
    (h : c.nextFrame offset cursor = .ok (some f, after)) :
    c.framesFrom offset cursor = (c.framesFrom offset after).map (f :: ·) := by
  rw [framesFrom, walk_eq, h, framesFrom]
  show Except.map _ (Except.map _ (c.walk offset after)) = _
  cases c.walk offset after <;> rfl

/-- A fault ends the frames. -/
theorem framesFrom_of_error {cursor : Nat} {e : Fault} (h : c.nextFrame offset cursor = .error e) :
    c.framesFrom offset cursor = .error e := by
  rw [framesFrom, walk_eq, h]
  rfl

/-- The cursor of a search is only handed back; it does not change what is found. -/
theorem seek_cursor (c : Chain) (offset cursor cursor' index : Nat) :
    c.seek offset cursor index =
      match c.seek offset cursor' index with
      | .ok (none, _) => .ok (none, cursor)
      | found => found := by
  fun_induction seek c offset cursor' index with
  | case1 index hr => rw [seek_eq, hr]
  | case2 index r hr hs => rw [seek_eq, hr]; simp [hs]
  | case3 index r hr hs ht => rw [seek_eq, hr]; simp [hs, ht]
  | case4 index r hr hs ht hn ih => rw [seek_eq, hr]; simp only [hs, ht, hn, if_false, if_true, ih]
  | case5 index r hr hs ht hn => rw [seek_eq, hr]; simp [hs, ht, hn]

/-- From a record that has ended a walk goes on where its skip pointer leads. -/
theorem framesFrom_of_ended {index : Nat} (hr : c.recordAt? index = some r)
    (hstart : ¬offset < r.start.toNat) (hstop : ¬offset < r.stop.toNat)
    (hahead : index + Record.width ≤ r.next.toNat) :
    c.framesFrom offset index = c.framesFrom offset r.next.toNat := by
  have hjump : c.nextFrame offset index = c.seek offset index r.next.toNat := by
    rw [nextFrame, seek_eq, hr]
    simp only [if_neg hstart, if_neg hstop, if_pos hahead]
  -- both searches find the same; they differ in the cursor that a miss hands back
  rw [seek_cursor c offset index r.next.toNat] at hjump
  cases hfound : c.nextFrame offset r.next.toNat with
  | error e =>
    rw [nextFrame] at hfound
    rw [framesFrom_of_error (by rw [hjump, hfound]), framesFrom_of_error hfound]
  | ok found =>
    obtain ⟨f, after⟩ := found
    rw [nextFrame] at hfound
    rw [hfound] at hjump
    cases f with
    | none => rw [framesFrom_of_miss hjump, framesFrom_of_miss hfound]
    | some f => rw [framesFrom_of_hit hjump, framesFrom_of_hit hfound]

/-- Fewer records are active from a later one on. -/
theorem activeFrom_sublist (c : Chain) (offset : Nat) (h : i ≤ j) :
    (c.activeFrom offset j).Sublist (c.activeFrom offset i) :=
  ((List.drop_sublist_drop_left c.records h).filter _).map _

/-- If the same frames are active from a later record on, none in between is active. -/
theorem not_active_of_activeFrom_eq (h : c.activeFrom offset i = c.activeFrom offset j)
    (hik : i ≤ k) (hkj : k < j) (hr : c.records[k]? = some r) : ¬r.Active offset := by
  intro ha
  have hfirst := (c.activeFrom_sublist offset hik).length_le
  have hlast := (c.activeFrom_sublist offset (show k + 1 ≤ j from hkj)).length_le
  -- an active record in between would make the one list longer than the other
  rw [activeFrom_of_active hr ha, List.length_cons] at hfirst
  rw [← h] at hlast
  exact absurd hfirst (by omega)

/-! ## (2) Jumps -/

/-- At an offset a walk goes from a record to another: into the next one if it is active, and where
its skip pointer leads if it has ended. -/
def Leads (c : Chain) (offset i j : Nat) : Prop :=
  ∃ r, c.records[i]? = some r ∧ (r.Active offset ∧ j = i + 1 ∨
    r.start.toNat ≤ offset ∧ r.stop.toNat ≤ offset ∧ r.next.toNat = Record.width * j)

/-- A walk from record `i` on jumps over record `k`. -/
def Passes (c : Chain) (offset i k : Nat) : Prop :=
  ∃ m j, Relation.ReflTransGen (c.Leads offset) i m ∧ c.Leads offset m j ∧ m < k ∧ k < j

/-- There is one way to go. -/
theorem Leads.unique (h : c.Leads offset i j) (h' : c.Leads offset i k) : j = k := by
  obtain ⟨r, hr, h⟩ := h
  obtain ⟨q, hq, h'⟩ := h'
  obtain rfl : r = q := Option.some.inj (hr.symm.trans hq)
  rcases h with ⟨ha, hj⟩ | ⟨-, hstop, hj⟩ <;> rcases h' with ⟨ha', hk⟩ | ⟨-, hstop', hk⟩
  · rw [hj, hk]
  · exact absurd ha.2 (by omega)
  · exact absurd ha'.2 (by omega)
  · exact Nat.eq_of_mul_eq_mul_left Record.width_pos (hj.symm.trans hk)

/-- In a chain that passes the check a walk only goes forward. -/
theorem Leads.lt (hc : c.check regionSize = .ok ()) (h : c.Leads offset i j) : i < j := by
  obtain ⟨r, hr, ⟨-, rfl⟩ | ⟨-, -, hj⟩⟩ := h
  · exact Nat.lt_succ_self i
  · obtain ⟨m, hm, him⟩ := exists_next_of_check hc hr
    rwa [Nat.eq_of_mul_eq_mul_left Record.width_pos (hj.symm.trans hm)]

/-- What a walk passes over it passes at once or later. -/
theorem passes_iff_of_leads (h : c.Leads offset i j) :
    c.Passes offset i k ↔ i < k ∧ k < j ∨ c.Passes offset j k := by
  constructor
  · rintro ⟨m, j', hreach, hlead, hmk, hkj⟩
    -- the jump is the first step or comes later, and the first step leads to `j` either way
    rcases hreach.cases_head with rfl | ⟨i', hfirst, hrest⟩
    · rw [h.unique hlead]
      exact .inl ⟨hmk, hkj⟩
    · rw [h.unique hfirst]
      exact .inr ⟨m, j', hrest, hlead, hmk, hkj⟩
  · rintro (⟨hik, hkj⟩ | ⟨m, j', hreach, hlead, hmk, hkj⟩)
    · exact ⟨i, j, .refl, h, hik, hkj⟩
    · exact ⟨m, j', .head h hreach, hlead, hmk, hkj⟩

/-- In a chain that passes the check, a walk never comes back behind a record it has reached. -/
theorem le_of_reaches (hc : c.check regionSize = .ok ())
    (h : Relation.ReflTransGen (c.Leads offset) i j) : i ≤ j := by
  induction h with
  | refl => exact Nat.le_refl i
  | tail _ hlead ih => exact Nat.le_of_lt (Nat.lt_of_le_of_lt ih (hlead.lt hc))

/-- What a walk passes over lies ahead of where it starts. -/
theorem Passes.lt (hc : c.check regionSize = .ok ()) (h : c.Passes offset i k) : i < k := by
  obtain ⟨m, j, hreach, -, hmk, -⟩ := h
  exact Nat.lt_of_le_of_lt (le_of_reaches hc hreach) hmk

/-! ## (3) What is met and what is lost -/

/-- Nothing that is active from a record on is passed over. -/
def Keeps (c : Chain) (offset i : Nat) : Prop :=
  ∀ k r, i ≤ k → c.records[k]? = some r → r.Active offset → ¬c.Passes offset i k

/-- A walk that steps into an active record loses what it loses from the next one on. -/
theorem keeps_iff_of_active (hc : c.check regionSize = .ok ()) (hr : c.records[i]? = some r)
    (ha : r.Active offset) : c.Keeps offset i ↔ c.Keeps offset (i + 1) := by
  have hlead : c.Leads offset i (i + 1) := ⟨r, hr, .inl ⟨ha, rfl⟩⟩
  have hpass (k : Nat) : c.Passes offset i k ↔ c.Passes offset (i + 1) k := by
    rw [passes_iff_of_leads hlead]
    exact or_iff_right fun h => by omega
  constructor
  · intro h k q hik hq hk hlost
    exact h k q (by omega) hq hk ((hpass k).2 hlost)
  · intro h k q hik hq hk hlost
    exact h k q (hlost.lt hc) hq hk ((hpass k).1 hlost)

/-- A walk that jumps from a record that has ended loses what is active in between, and what it
loses from there on. -/
theorem keeps_iff_of_ended (hr : c.records[i]? = some r) (hstart : r.start.toNat ≤ offset)
    (hstop : r.stop.toNat ≤ offset) (hnext : r.next.toNat = Record.width * j) (hij : i < j) :
    c.Keeps offset i ↔
      (∀ k q, i ≤ k → k < j → c.records[k]? = some q → ¬q.Active offset) ∧ c.Keeps offset j := by
  have hlead : c.Leads offset i j := ⟨r, hr, .inr ⟨hstart, hstop, hnext⟩⟩
  have hpass (k : Nat) := passes_iff_of_leads (k := k) hlead
  have hself (q : Record) (hq : c.records[i]? = some q) : ¬q.Active offset := by
    obtain rfl : r = q := Option.some.inj (hr.symm.trans hq)
    exact fun ha => absurd ha.2 (by omega)
  constructor
  · intro h
    refine ⟨fun k q hik hkj hq ha => ?_, fun k q hjk hq ha hlost => ?_⟩
    · rcases Nat.eq_or_lt_of_le hik with rfl | hik
      · exact hself q hq ha
      · exact h k q (Nat.le_of_lt hik) hq ha ((hpass k).2 (.inl ⟨hik, hkj⟩))
    · exact h k q (by omega) hq ha ((hpass k).2 (.inr hlost))
  · rintro ⟨hbetween, hrest⟩ k q hik hq ha hlost
    by_cases hkj : k < j
    · exact hbetween k q hik hkj hq ha
    · rcases (hpass k).1 hlost with hjump | hlost
      · exact hkj hjump.2
      · exact hrest k q (by omega) hq ha hlost

/-- Starts do not decrease in a chain that passes the check. -/
theorem start_le_of_check {q : Record} (hc : c.check regionSize = .ok ()) (hik : i ≤ k)
    (hr : c.records[i]? = some r) (hq : c.records[k]? = some q) : r.start ≤ q.start := by
  obtain ⟨-, -, hsorted⟩ := check_eq_ok_iff.1 hc
  obtain ⟨hi, rfl⟩ := List.getElem?_eq_some_iff.1 hr
  obtain ⟨hk, rfl⟩ := List.getElem?_eq_some_iff.1 hq
  rcases Nat.eq_or_lt_of_le hik with rfl | hik
  · exact UInt32.le_refl _
  · exact List.pairwise_iff_getElem.1 hsorted i k hi hk hik

/-- Where nothing is active any more a walk misses, and loses nothing by it. -/
theorem framesFrom_of_idle (hmiss : c.seek offset (Record.width * i) (Record.width * i) =
      .ok (none, Record.width * i))
    (hidle : ∀ k q, i ≤ k → c.records[k]? = some q → ¬q.Active offset) :
    ∃ fs, c.framesFrom offset (Record.width * i) = .ok fs ∧
      fs.Sublist (c.activeFrom offset i) ∧ (fs = c.activeFrom offset i ↔ c.Keeps offset i) := by
  refine ⟨[], framesFrom_of_miss hmiss, List.nil_sublist _, ?_⟩
  rw [activeFrom_eq_nil hidle]
  exact iff_of_true rfl fun k q hik hq ha => absurd ha (hidle k q hik hq)

/-- From a record on, a walk in a checked chain meets active frames only, in the order of the
records, and all of them exactly if it passes over none. -/
theorem framesFrom_of_check (hc : c.check regionSize = .ok ()) (offset i : Nat) :
    ∃ fs, c.framesFrom offset (Record.width * i) = .ok fs ∧
      fs.Sublist (c.activeFrom offset i) ∧ (fs = c.activeFrom offset i ↔ c.Keeps offset i) := by
  -- by the number of records left; each case is one way in which a walk goes on from a record
  induction hn : c.records.length - i using Nat.strongRecOn generalizing i with
  | ind n ih =>
    have hrecord := c.recordAt?_width_mul i
    cases hr : c.records[i]? with
    | none =>
      rw [hr] at hrecord
      refine framesFrom_of_idle (by rw [seek_eq, hrecord]) fun k q hik hq => ?_
      have := List.getElem?_eq_none_iff.1 hr
      have := (List.getElem?_eq_some_iff.1 hq).1
      omega
    | some r =>
      rw [hr] at hrecord
      have hlen := (List.getElem?_eq_some_iff.1 hr).1
      by_cases hstart : offset < r.start.toNat
      · -- starts do not decrease, so every later record starts behind the offset as well
        refine framesFrom_of_idle (by rw [seek_eq, hrecord]; exact if_pos hstart) ?_
        intro k q hik hq ha
        have hle := UInt32.le_iff_toNat_le.1 (start_le_of_check hc hik hr hq)
        exact absurd ha.1 (by omega)
      · by_cases hstop : offset < r.stop.toNat
        · have ha : r.Active offset := ⟨by omega, hstop⟩
          obtain ⟨fs, hfs, hsub, hall⟩ := ih (c.records.length - (i + 1)) (by omega) (i + 1) rfl
          have hhit : c.nextFrame offset (Record.width * i) =
              .ok (some r.frame, Record.width * (i + 1)) := by
            rw [nextFrame, seek_eq, hrecord]
            simp only [if_neg hstart, if_pos hstop]
            rfl
          refine ⟨r.frame :: fs, ?_, ?_, ?_⟩
          · rw [framesFrom_of_hit hhit, hfs]
            rfl
          · rw [activeFrom_of_active hr ha]
            exact hsub.cons_cons r.frame
          · rw [activeFrom_of_active hr ha, List.cons.injEq, and_iff_right rfl, hall,
              keeps_iff_of_active hc hr ha]
        · obtain ⟨j, hnext, hij⟩ := exists_next_of_check hc hr
          obtain ⟨fs, hfs, hsub, hall⟩ := ih (c.records.length - j) (by omega) j rfl
          have hahead : Record.width * i + Record.width ≤ r.next.toNat := by
            rw [hnext, ← Nat.mul_succ]
            exact Nat.mul_le_mul_left _ hij
          have hfewer := c.activeFrom_sublist offset (Nat.le_of_lt hij)
          refine ⟨fs, ?_, hsub.trans hfewer, ?_⟩
          · rw [framesFrom_of_ended hrecord hstart hstop hahead, hnext, hfs]
          · rw [keeps_iff_of_ended hr (by omega) (by omega) hnext hij, ← hall]
            constructor
            · intro hfs'
              -- nothing can be missing in between if the frames from there on are all there are
              have hsame : c.activeFrom offset i = c.activeFrom offset j :=
                (hfewer.eq_of_length_le (hfs' ▸ hsub).length_le).symm
              exact ⟨fun k q hik hkj => not_active_of_activeFrom_eq hsame hik hkj,
                hfs'.trans hsame⟩
            · rintro ⟨hbetween, hfs'⟩
              rw [hfs', activeFrom_eq_of_le (Nat.le_of_lt hij) hbetween]

/-! ## (4) Whole chains -/

/-- **A walk meets all active frames exactly if it passes over none of them.** In a chain that
passes the check, at every offset, the walk from the first word ends, every frame it meets is active
there, and the frames come in the order of their records. None is missing exactly if no jump that
the walk takes leads over a record that is active. -/
theorem frames_complete_iff (hc : c.check regionSize = .ok ()) (offset : Nat) :
    ∃ fs, c.frames offset = .ok fs ∧
      fs.Sublist ((c.records.filter fun r => r.Active offset).map (·.frame)) ∧
      (fs = (c.records.filter fun r => r.Active offset).map (·.frame) ↔
        ∀ k r, c.records[k]? = some r → r.Active offset → ¬c.Passes offset 0 k) := by
  obtain ⟨fs, hfs, hsub, hall⟩ := framesFrom_of_check hc offset 0
  refine ⟨fs, hfs, by simpa [activeFrom] using hsub, ?_⟩
  simpa [activeFrom, Keeps] using hall

/-- The first record ends early and its skip pointer leads over one that lasts longer. The check
lets it pass, and at an offset in between the longer one is lost. -/
theorem frames_lose_longer_record :
    let c : Chain := ⟨[1, 0, 4, 8, 2, 0, 10, 8]⟩
    c.check 10 = .ok () ∧ c.frames 5 = .ok [] ∧
      (c.records.filter fun r => r.Active 5).map (·.frame) = [2] ∧
      ∃ k r, c.records[k]? = some r ∧ r.Active 5 ∧ c.Passes 5 0 k := by
  intro c
  have hc : c.check 10 = .ok () := by cbv
  have hactive : (c.records.filter fun r => r.Active 5).map (·.frame) = [2] := by decide
  have hframes : c.frames 5 = .ok [] := by
    have hjump : c.framesFrom 5 0 = c.framesFrom 5 8 :=
      framesFrom_of_ended (r := ⟨1, 0, 4, 8⟩) rfl (by decide) (by decide) (by decide)
    have hmiss : c.nextFrame 5 8 = .ok (none, 8) := by
      rw [nextFrame, seek_eq]
      rfl
    exact hjump.trans (framesFrom_of_miss hmiss)
  obtain ⟨fs, hfs, -, hall⟩ := frames_complete_iff hc 5
  obtain rfl : fs = [] := Except.ok.inj (hfs.symm.trans hframes)
  refine ⟨hc, hframes, hactive, Classical.byContradiction fun hnone => ?_⟩
  have hmet := hall.2 fun k r hr ha hpass => hnone ⟨k, r, hr, ha, hpass⟩
  rw [hactive] at hmet
  cases hmet

end Chain

end TraceAtlas
