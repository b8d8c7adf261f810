import TraceAtlas.Proofs.Chain.Skips
import TraceAtlas.Regions

/-! # Cursors

A walk is driven from outside: each search starts from the cursor that the one before handed out,
and whoever drives it may come with a cursor of his own. In a chain that passes the check every
cursor at a multiple of the record width is safe, also one far behind the chain. A search from it
comes to an end, and what it finds stands at or behind the cursor, so that a walk has as many hits
as there are records at most.

## Main definitions
* `Chain.Met` : a cursor stands right behind an active record of some frame.
* `Chain.trail` : the steps of a walk with some hits, and the miss that ends it.

## Main statements
* `Chain.nextFrame_of_check` : one search from an aligned cursor.
* `Chain.exists_trail_of_check` : a walk, hit by hit.
* `Chain.walks_of_check` : searches, walks and the frames of a region.
-/

namespace TraceAtlas

namespace Chain

variable {c : Chain} {regionSize : UInt32} {offset cursor index after : Nat} {f : FrameId}

/-! ## (1) One search -/

/-- A cursor stands right behind a record of a frame, which is active at an offset and lies in the
region. -/
structure Met (c : Chain) (regionSize : UInt32) (offset : Nat) (f : FrameId) (cursor : Nat) :
    Prop where
  aligned : cursor % Record.width = 0
  record : ∃ r, c.recordAt? (cursor - Record.width) = some r ∧ r.frame = f ∧ r.Active offset ∧
    r.stop ≤ regionSize

/-- A search that hits has read an active record, at or behind the word it started from. -/
theorem exists_record_of_seek (h : c.seek offset cursor index = .ok (some f, after)) :
    ∃ r, c.recordAt? (after - Record.width) = some r ∧ r.frame = f ∧ r.Active offset ∧
      index + Record.width ≤ after := by
  fun_induction seek c offset cursor index with
  | case1 => simp at h
  | case2 => simp at h
  | case3 index r hr hstart hstop =>
    simp only [Except.ok.injEq, Prod.mk.injEq, Option.some.injEq] at h
    obtain ⟨rfl, rfl⟩ := h
    exact ⟨r, by rwa [Nat.add_sub_cancel], rfl, ⟨Nat.not_lt.1 hstart, hstop⟩, Nat.le_refl _⟩
  | case4 index r hr hstart hstop hahead ih =>
    -- the search goes on from a later word
    obtain ⟨q, hq, hframe, ha, hle⟩ := ih h
    exact ⟨q, hq, hframe, ha, by omega⟩
  | case5 => simp at h

/-- A record of a chain that passes the check lies in the region. -/
theorem stop_le_of_check (hc : c.check regionSize = .ok ()) (halign : index % Record.width = 0)
    {r : Record} (hr : c.recordAt? index = some r) : r.stop ≤ regionSize := by
  obtain ⟨-, hfits, -⟩ := check_eq_ok_iff.1 hc
  rw [← Nat.mul_div_cancel' (Nat.dvd_of_mod_eq_zero halign), recordAt?_width_mul] at hr
  exact (hfits _ r hr).stop_le_size

/-- **One search in a chain that passes the check**, from any cursor at a multiple of the record
width: it hands the cursor back, or stops right behind an active record that stands at or behind the
cursor. -/
theorem nextFrame_of_check (hc : c.check regionSize = .ok ()) (offset : Nat)
    (halign : cursor % Record.width = 0) :
    c.nextFrame offset cursor = .ok (none, cursor) ∨
      ∃ f after, c.nextFrame offset cursor = .ok (some f, after) ∧
        cursor + Record.width ≤ after ∧ c.Met regionSize offset f after := by
  have hcursor := Nat.mul_div_cancel' (Nat.dvd_of_mod_eq_zero halign)
  have hsearch := seek_of_check hc offset cursor (cursor / Record.width)
  rw [hcursor] at hsearch
  refine hsearch.imp_right ?_
  rintro ⟨f, j, hj, hhit⟩
  obtain ⟨r, hr, hframe, ha, hle⟩ := exists_record_of_seek hhit
  have hbehind : (Record.width * j - Record.width) % Record.width = 0 := by
    rw [← Nat.mul_sub_one, Nat.mul_mod_right]
  exact ⟨f, Record.width * j, hhit, hle, Nat.mul_mod_right _ _, r, hr, hframe, ha,
    stop_le_of_check hc hbehind hr⟩

/-! ## (2) Whole walks -/

/-- The steps of a walk that starts from a cursor: some hits, each with the cursor behind it, and a
miss that hands the last cursor back. -/
def trail (cursor : Nat) (hits : List (FrameId × Nat)) : List Found :=
  hits.map (fun hit => (some hit.1, hit.2)) ++ [(none, (hits.getLast?.map (·.2)).getD cursor)]

/-- A trail of hits starts with the first of them. -/
theorem trail_cons (cursor : Nat) (hit : FrameId × Nat) (hits : List (FrameId × Nat)) :
    trail cursor (hit :: hits) = (some hit.1, hit.2) :: trail hit.2 hits := by
  rw [trail, trail, List.map_cons, List.cons_append, List.getLast?_cons]
  cases hits.getLast? <;> rfl

/-- The frames of a trail are those of its hits. -/
theorem frames_trail (cursor : Nat) (hits : List (FrameId × Nat)) :
    (trail cursor hits).filterMap (·.1) = hits.map (·.1) := by
  induction hits generalizing cursor with
  | nil => rfl
  | cons hit hits ih =>
    rw [trail_cons, List.map_cons, ← ih hit.2]
    rfl

/-- A walk in a chain that passes the check goes from hit to hit, always forward, until it misses.
-/
theorem exists_trail_of_check (hc : c.check regionSize = .ok ()) (offset : Nat)
    (halign : cursor % Record.width = 0) :
    ∃ hits, c.walk offset cursor = .ok (trail cursor hits) ∧
      (cursor :: hits.map (·.2)).Pairwise (· < ·) ∧
      ∀ hit ∈ hits, c.Met regionSize offset hit.1 hit.2 := by
  -- by the number of words behind the cursor, which every hit makes smaller
  induction hn : c.length - cursor using Nat.strongRecOn generalizing cursor with
  | ind n ih =>
    rcases nextFrame_of_check hc offset halign with hmiss | ⟨f, after, hhit, hle, hmet⟩
    · exact ⟨[], by rw [walk_eq, hmiss]; rfl, by simp, by simp⟩
    · obtain ⟨-, hinside⟩ := seek_hit hhit
      have hlt : cursor < after := Nat.lt_of_lt_of_le (Nat.lt_add_of_pos_right Record.width_pos) hle
      obtain ⟨hits, hwalk, hforward, hall⟩ := ih (c.length - after) (by omega) hmet.aligned rfl
      refine ⟨(f, after) :: hits, ?_, ?_, List.forall_mem_cons.2 ⟨hmet, hall⟩⟩
      · rw [walk_eq, hhit, trail_cons]
        simp only [hwalk, Except.map]
      · refine List.pairwise_cons.2 ⟨?_, hforward⟩
        intro next hnext
        rcases List.mem_cons.1 hnext with rfl | hnext
        · exact hlt
        · exact Nat.lt_trans hlt ((List.pairwise_cons.1 hforward).1 next hnext)

/-- The records of a chain fit into its words. -/
theorem width_mul_length_records_le (c : Chain) :
    Record.width * c.records.length ≤ c.length := by
  cases hn : c.records.length with
  | zero => exact Nat.zero_le _
  | succ n =>
    have hlast : c.recordAt? (Record.width * n) = some c.records[n] := by
      rw [recordAt?_width_mul, List.getElem?_eq_getElem]
    exact length_ge_of_recordAt? hlast

/-- **Walking a chain that passes the check.** From every cursor at a multiple of the record width,
however far behind the chain, a search ends without a fault. Either it misses and hands the cursor
back, or it finds the frame of a record at or behind the cursor that is active at the offset and
lies in the region, and the new cursor stands right behind that record. So a walk from the first
word goes through strictly increasing cursors, has at most as many hits as there are records, and
meets active frames in the order of the records; behind the end of the region it meets none, and
neither does anybody who asks the handle of a region for an address that is not in it. -/
theorem walks_of_check (hc : c.check regionSize = .ok ()) (offset : Nat) :
    (∀ cursor, cursor % Record.width = 0 →
      c.nextFrame offset cursor = .ok (none, cursor) ∨
        ∃ f after, c.nextFrame offset cursor = .ok (some f, after) ∧
          cursor + Record.width ≤ after ∧ c.Met regionSize offset f after) ∧
    (∃ hits, c.walk offset 0 = .ok (trail 0 hits) ∧ c.frames offset = .ok (hits.map (·.1)) ∧
      (0 :: hits.map (·.2)).Pairwise (· < ·) ∧
      (∀ hit ∈ hits, c.Met regionSize offset hit.1 hit.2) ∧
      hits.length ≤ c.length / Record.width ∧
      (hits.map (·.1)).Sublist ((c.records.filter fun r => r.Active offset).map (·.frame)) ∧
      (regionSize.toNat ≤ offset → hits = [])) ∧
    ∀ handle : RegionHandle, handle.region.chain = c → handle.region.size = regionSize →
      ∀ a, regionSize.toUInt64 ≤ a - handle.start → handle.frames a = .ok [] := by
  -- what is met lies in the region, so nothing is met at an offset behind it
  have hnone {offset : Nat} {hits : List (FrameId × Nat)}
      (hmet : ∀ hit ∈ hits, c.Met regionSize offset hit.1 hit.2)
      (hbehind : regionSize.toNat ≤ offset) : hits = [] := by
    refine List.eq_nil_iff_forall_not_mem.2 fun hit hhit => ?_
    obtain ⟨r, -, -, ha, hstop⟩ := (hmet hit hhit).record
    have := UInt32.le_iff_toNat_le.1 hstop
    exact absurd ha.2 (by omega)
  have hframes {offset : Nat} {hits : List (FrameId × Nat)}
      (hwalk : c.walk offset 0 = .ok (trail 0 hits)) :
      c.frames offset = .ok (hits.map (·.1)) := by
    rw [frames, hwalk]
    exact congrArg Except.ok (frames_trail 0 hits)
  refine ⟨fun cursor => nextFrame_of_check hc offset, ?_, ?_⟩
  · obtain ⟨hits, hwalk, hforward, hmet⟩ := exists_trail_of_check hc offset (Nat.zero_mod _)
    obtain ⟨fs, hfs, hsub, -⟩ := framesFrom_of_check hc offset 0
    obtain rfl : hits.map (·.1) = fs := Except.ok.inj ((hframes hwalk).symm.trans hfs)
    refine ⟨hits, hwalk, hframes hwalk, hforward, hmet, ?_, by simpa [activeFrom] using hsub,
      hnone hmet⟩
    rw [Nat.le_div_iff_mul_le Record.width_pos, Nat.mul_comm]
    refine Nat.le_trans (Nat.mul_le_mul_left _ ?_) c.width_mul_length_records_le
    -- what is met are frames of different records
    calc hits.length = (hits.map (·.1)).length := by rw [List.length_map]
      _ ≤ (c.activeFrom offset 0).length := hsub.length_le
      _ ≤ c.records.length := by
        rw [activeFrom, List.length_map, List.drop_zero]
        exact List.length_filter_le _ _
  · rintro handle rfl rfl a hbehind
    obtain ⟨hits, hwalk, -, hmet⟩ :=
      exists_trail_of_check hc (handle.offsetOf a) (Nat.zero_mod _)
    have hoffset : handle.region.size.toNat ≤ handle.offsetOf a := by
      rwa [UInt64.le_iff_toNat_le, UInt32.toNat_toUInt64] at hbehind
    obtain rfl := hnone hmet hoffset
    exact hframes hwalk

/-- Two frames, the second one nested in the first: the walk at an offset in both, a search from the
last aligned cursor there is, and the handle of the region asked for the address before its start.
-/
theorem nested_chain_walked :
    let c : Chain := ⟨[4, 0, 600, 8, 2, 100, 300, 8]⟩
    c.check 600 = .ok () ∧
      c.nextFrame 200 0xfffffffffffffffc = .ok (none, 0xfffffffffffffffc) ∧
      (∃ hits, c.walk 200 0 = .ok (trail 0 hits) ∧ hits.map (·.1) = [4, 2] ∧ hits.length ≤ 2) ∧
      RegionHandle.frames ⟨0x1000, ⟨600, c, 0⟩, ⟨0⟩⟩ 0xfff = .ok [] := by
  intro c
  have hc : c.check 600 = .ok () := by cbv
  have houter : c.nextFrame 200 0 = .ok (some 4, 4) := by rw [nextFrame, seek_eq]; rfl
  have hinner : c.nextFrame 200 4 = .ok (some 2, 8) := by rw [nextFrame, seek_eq]; rfl
  have hend : c.nextFrame 200 8 = .ok (none, 8) := by rw [nextFrame, seek_eq]; rfl
  have hboth : c.framesFrom 200 0 = .ok [4, 2] := by
    rw [framesFrom_of_hit houter, framesFrom_of_hit hinner, framesFrom_of_miss hend]
    rfl
  obtain ⟨hsearch, ⟨hits, hwalk, hframes, -, -, hlength, -⟩, hhandle⟩ := walks_of_check hc 200
  have hmet : hits.map (·.1) = [4, 2] := Except.ok.inj (hframes.symm.trans hboth)
  refine ⟨hc, ?_, ⟨hits, hwalk, hmet, Nat.le_trans hlength (by decide)⟩,
    hhandle _ rfl rfl 0xfff (by decide)⟩
  rcases hsearch 0xfffffffffffffffc (by decide) with hmiss | ⟨f, after, hhit, hle, -⟩
  · exact hmiss
  · -- nothing is found behind the last word
    have hinside : after ≤ 8 := (seek_hit hhit).2
    simp only [Record.width] at hle
    omega

end Chain

end TraceAtlas
