import Mathlib.Algebra.Group.Nat.Defs
import TraceAtlas.Proofs.Chain.Layout
import TraceAtlas.Proofs.Chain.Stays
import TraceAtlas.Proofs.Chain.Walk

/-! # Built chains decode to the frames that are active

A builder patches the end and the skip pointer of a record only when its frame is left, and a walk
trusts both. What makes this safe is that a record which was closed encloses the records behind it
up to the place its skip pointer names: none of them is open, and none of them ends later. Events
keep this as long as their offsets do not decrease, and so does closing what is still open at the
end of the region, if nothing happened behind that end.

## Main definitions
* `Chain.Builder.Nested` : closed records enclose those they skip.
* `Chain.Builder.offsets`, `Chain.Builder.effective` : the offsets of the events, and of those
  events that changed something.

## Main statements
* `Chain.Builder.nested_run` : events in order of their offsets nest.
* `Chain.Builder.check_and_frames_finish_run` : the finished chain passes the check exactly if
  nothing happened behind the end of the region, and then a walk meets the frames that are active.
-/

namespace TraceAtlas

namespace Chain

namespace Builder

/-! ## (1) Offsets of events -/

/-- The offsets that an event names. Inherited frames are entered at the start of the region. -/
def Event.offsets : Event → List Offset
  | .enter _ start => [start]
  | .leave stop => [stop]
  | .inherit frames => frames.map fun _ => 0

/-- The number of records that an event opens. -/
def Event.opens : Event → Nat
  | .enter .. => 1
  | .leave _ => 0
  | .inherit frames => frames.length

/-- The offsets at which an event changed something, told from the reply to it. A leave that found
nothing open changed nothing. -/
def Event.effective : Event → Reply → List Offset
  | .leave _, .left none => []
  | event, _ => event.offsets

/-- The offsets that events name, in order. -/
def offsets (events : List Event) : List Offset := events.flatMap Event.offsets

/-- The number of records that events open. -/
def opens : List Event → Nat
  | [] => 0
  | event :: events => event.opens + opens events

/-- The offsets at which events changed something, performed in a row on a builder. -/
def effective (events : List Event) (b : Builder) : List Offset :=
  (events.zip (run events b).1).flatMap fun (event, reply, _) => event.effective reply

/-- What takes effect of some events is what takes effect of the first and then of the others. -/
theorem effective_cons (event : Event) (events : List Event) (b : Builder) :
    effective (event :: events) b =
      event.effective (perform event b).1 ++ effective events (perform event b).2 := rfl

/-- An event adds a record for each frame that it opens. -/
theorem length_records_perform (event : Event) (b : Builder) :
    (perform event b).2.records.length = b.records.length + event.opens := by
  cases event with
  | enter frame start => simp [perform, enter, Event.opens]
  | leave stop =>
    cases ho : b.opened with
    | nil => simp [perform, leave_of_opened_nil ho, Event.opens]
    | cons p opened => simp [perform, leave_snd_of_opened ho, Builder.close, Event.opens]
  | inherit frames =>
    simp only [perform, Event.opens]
    induction frames generalizing b with
    | nil => rfl
    | cons frame frames ih =>
      rw [inherit_cons, ih]
      simp only [enter, List.length_append, List.length_cons, List.length_nil]
      omega

/-- So do events in a row. -/
theorem length_records_run (events : List Event) (b : Builder) :
    (run events b).2.records.length = b.records.length + opens events := by
  induction events generalizing b with
  | nil => rfl
  | cons event events ih =>
    rw [run_snd_cons, ih, length_records_perform, opens,
      Nat.add_assoc]

/-- Events in a row are performed one part after the other. -/
theorem run_snd_append (before behind : List Event) (b : Builder) :
    (run (before ++ behind) b).2 = (run behind (run before b).2).2 := by
  induction before generalizing b with
  | nil => rfl
  | cons event before ih => exact ih _

/-! ## (2) Stays within a bound -/

/-- Every stay of a builder begins, and ends if it has ended, at or before an offset. -/
def Within (b : Builder) (bound : Offset) : Prop := ∀ s ∈ b.stays, s.Within bound

/-- What lies within a bound lies within every greater one. -/
theorem Within.mono {b : Builder} {x y : Offset} (h : b.Within x) (hxy : x ≤ y) : b.Within y :=
  fun s hs => (h s hs).mono hxy

/-- An entered frame lies within a bound if it starts there, and the others do. -/
theorem within_enter_iff {b : Builder} {frame : FrameId} {start bound : Offset} :
    (b.enter frame start).Within bound ↔ b.Within bound ∧ start ≤ bound := by
  simp only [Within, stays_enter, List.forall_mem_append, List.forall_mem_singleton]
  simp [Stay.Within]

/-- Inherited frames start at zero, which is within every bound. -/
theorem within_inherit_iff {b : Builder} {frames : List FrameId} {bound : Offset} :
    (b.inherit frames).Within bound ↔ b.Within bound := by
  induction frames generalizing b with
  | nil => rfl
  | cons frame frames ih =>
    rw [inherit_cons, ih, within_enter_iff]
    exact and_iff_left UInt32.zero_le

/-- Leaving within a bound keeps everything within it, unless no frame is open. -/
theorem within_leave_iff {b : Builder} (h : b.Stacked) {stop bound : Offset} :
    (b.leave stop).2.Within bound ↔ b.Within bound ∧ (b.opened = [] ∨ stop ≤ bound) := by
  cases ho : b.opened with
  | nil => simp [leave_of_opened_nil ho]
  | cons p opened =>
    obtain ⟨s, hs, hopen⟩ := exists_stay_of_opened h ho
    obtain ⟨before, t, behind, hst, hlen, hmod⟩ :=
      List.exists_of_modify (·.endAt stop) (List.getElem?_eq_some_iff.1 hs).1
    obtain rfl : t = s := by simpa [hst, ← hlen] using hs
    rw [Within, Within, stays_leave_of_opened h ho, hmod, hst]
    simp only [List.forall_mem_append, List.forall_mem_cons, Stay.within_endAt_iff hopen]
    simp [and_assoc, and_left_comm, and_comm]

/-- Nothing happened behind an offset exactly if every stay keeps within it: the effective offsets
of an event are those it leaves in the stays. -/
theorem within_perform_iff {b : Builder} (h : b.Stacked) (event : Event) {bound : Offset} :
    (perform event b).2.Within bound ↔
      b.Within bound ∧ ∀ o ∈ event.effective (perform event b).1, o ≤ bound := by
  cases event with
  | enter frame start => simp [perform, within_enter_iff, Event.effective, Event.offsets]
  | leave stop =>
    simp only [perform, within_leave_iff h]
    cases ho : b.opened with
    | nil => simp [leave_of_opened_nil ho, Event.effective]
    | cons p opened =>
      have hp : p < b.records.length := h.inside p (by simp [ho])
      simp [leave, ho, List.getElem?_eq_getElem hp, Event.effective, Event.offsets]
  | inherit frames =>
    have hzero : ∀ o ∈ frames.map fun _ => (0 : Offset), o ≤ bound := by
      intro o ho
      obtain ⟨-, -, rfl⟩ := List.mem_map.1 ho
      exact UInt32.zero_le
    simp only [perform, within_inherit_iff, Event.effective, Event.offsets]
    exact (and_iff_left hzero).symm

/-- Everything lies within a bound after some events exactly if it did before and the offsets that
took effect do. -/
theorem within_run_iff {b : Builder} (h : b.Stacked) (events : List Event) {bound : Offset} :
    (run events b).2.Within bound ↔ b.Within bound ∧ ∀ o ∈ effective events b, o ≤ bound := by
  induction events generalizing b with
  | nil => simp [run, effective]
  | cons event events ih =>
    rw [run_snd_cons, ih (h.perform event), within_perform_iff h, effective_cons,
      List.forall_mem_append, and_assoc]

/-! ## (3) Nesting -/

/-- The record at a position encloses those behind it that its skip pointer passes over: they are
all closed, and none of them ends later. -/
def Encloses (b : Builder) (i : Nat) (r : Record) : Prop :=
  ∃ j, r.next.toNat = Record.width * j ∧ i < j ∧ j ≤ b.records.length ∧
    ∀ k q, i < k → k < j → b.records[k]? = some q → k ∉ b.opened ∧ q.stop ≤ r.stop

/-- Records are in order of their starts, and each one that is closed has its range in order and
encloses those it skips. -/
structure Nested (b : Builder) : Prop extends b.Stacked where
  sorted : b.records.Pairwise fun a c => a.start ≤ c.start
  closed : ∀ i r, b.records[i]? = some r → i ∉ b.opened → r.start ≤ r.stop ∧ b.Encloses i r

/-- Without a record nothing has to be nested. -/
theorem nested_empty : empty.Nested := ⟨stacked_empty, .nil, fun _ _ h => nomatch h⟩

/-- What `Within` says about a record. -/
theorem Within.record {b : Builder} {bound : Offset} (h : b.Within bound) {i : Nat} {r : Record}
    (hr : b.records[i]? = some r) : r.start ≤ bound ∧ (i ∉ b.opened → r.stop ≤ bound) := by
  have hs : b.stays[i]? = some ⟨r.frame, r.start, if i ∈ b.opened then none else some r.stop⟩ := by
    rw [getElem?_stays, hr, Option.map_some]
  obtain ⟨hstart, hstop⟩ := h _ (List.mem_iff_getElem?.2 ⟨i, hs⟩)
  exact ⟨hstart, fun hi => hstop r.stop (if_neg hi)⟩

/-- A frame that is entered behind everything so far is nested in those that are open. -/
theorem Nested.enter {b : Builder} (h : b.Nested) {start : Offset} (hw : b.Within start)
    (frame : FrameId) : (b.enter frame start).Nested where
  toStacked := h.toStacked.enter frame start
  sorted := by
    refine List.pairwise_append.2 ⟨h.sorted, List.pairwise_singleton _ _, fun r hr q hq => ?_⟩
    obtain rfl := List.mem_singleton.1 hq
    obtain ⟨i, hi⟩ := List.mem_iff_getElem?.1 hr
    exact (hw.record hi).1
  closed := by
    -- the new record is open, and no closed one reaches as far as it
    intro i r hr hi
    simp only [Builder.enter, List.mem_cons, not_or] at hr hi
    have hlt : i < b.records.length := by
      have := (List.getElem?_eq_some_iff.1 hr).1
      simp only [List.length_append, List.length_singleton] at this
      omega
    rw [List.getElem?_append_left hlt] at hr
    obtain ⟨hrange, j, hnext, hij, hj, hskip⟩ := h.closed i r hr hi.2
    refine ⟨hrange, j, hnext, hij, by simp [Builder.enter]; omega, fun k q hik hkj hq => ?_⟩
    simp only [Builder.enter] at hq ⊢
    rw [List.getElem?_append_left (by omega)] at hq
    obtain ⟨hk, hle⟩ := hskip k q hik hkj hq
    exact ⟨by simp [hk]; omega, hle⟩

/-- Closing a record touches no other. -/
theorem getElem?_close_of_ne {rs : List Record} {p i : Nat} (h : p ≠ i) (stop : Offset) :
    (Builder.close rs p stop)[i]? = rs[i]? := by
  rw [Builder.close, List.getElem?_modify_ne _ _ h]

/-- Closing a record moves no start. -/
theorem map_start_close (rs : List Record) (p : Nat) (stop : Offset) :
    (Builder.close rs p stop).map (·.start) = rs.map (·.start) := by
  apply List.ext_getElem?
  intro i
  by_cases h : p = i
  · subst h
    simp only [Builder.close, List.getElem?_map, List.getElem?_modify_eq]
    cases rs[p]? <;> rfl
  · rw [List.getElem?_map, getElem?_close_of_ne h, List.getElem?_map]

/-- The record closed just now encloses everything behind it. -/
theorem encloses_close {b : Builder} (h : b.Stacked) {p : Nat} {opened : List Nat}
    (ho : b.opened = p :: opened) {stop : Offset} (hw : b.Within stop)
    (hlen : b.records.length < 2 ^ 30) {r : Record}
    (hr : (Builder.close b.records p stop)[p]? = some r) :
    r.start ≤ r.stop ∧ Encloses ⟨Builder.close b.records p stop, opened⟩ p r := by
  have hp : p < b.records.length := h.inside p (by simp [ho])
  have hsize : (Builder.close b.records p stop).length = b.records.length := by
    simp [Builder.close]
  simp only [Builder.close, List.getElem?_modify_eq, List.getElem?_eq_getElem hp, Option.map_eq_map,
    Option.map_some, Option.some.injEq] at hr
  subst hr
  refine ⟨(hw.record (List.getElem?_eq_getElem hp)).1, b.records.length, ?_, hp,
    Nat.le_of_eq hsize.symm, ?_⟩
  · exact UInt32.toNat_ofNat_of_lt' (by simp only [Record.width, UInt32.size]; omega)
  · intro k q hpk hkn hq
    have hk : k ∉ b.opened := by
      rw [ho]
      intro hm
      rcases List.mem_cons.1 hm with rfl | hm
      · omega
      · have := (h.lt_innermost ho).1 k hm
        omega
    simp only [getElem?_close_of_ne (Nat.ne_of_lt hpk)] at hq
    exact ⟨fun hm => hk (by simp [ho, hm]), (hw.record hq).2 hk⟩

/-- A frame that is left behind everything so far is the innermost one, and stays nested. -/
theorem Nested.leave {b : Builder} (h : b.Nested) {stop : Offset} (hw : b.Within stop)
    (hlen : b.records.length < 2 ^ 30) : (b.leave stop).2.Nested := by
  cases ho : b.opened with
  | nil => rwa [leave_of_opened_nil ho]
  | cons p opened =>
    refine ⟨h.toStacked.leave stop, ?_, ?_⟩
    · rw [leave_snd_of_opened ho]
      -- closing a record changes no start, so the order stays
      have hstarts := List.pairwise_map.2 h.sorted
      rw [← map_start_close b.records p stop] at hstarts
      exact List.pairwise_map.1 hstarts
    · rw [leave_snd_of_opened ho]
      intro i r hr hi
      by_cases hpi : p = i
      · subst hpi
        exact encloses_close h.toStacked ho hw hlen hr
      · -- what an older closed record skips was closed before it, so it is not the one closed now
        rw [getElem?_close_of_ne hpi] at hr
        obtain ⟨hrange, j, hnext, hij, hj, hskip⟩ :=
          h.closed i r hr (by simp [ho, Ne.symm hpi, hi])
        refine ⟨hrange, j, hnext, hij, by simpa [Builder.close] using hj, fun k q hik hkj hq => ?_⟩
        have hkp : p ≠ k := by
          rintro rfl
          have hpr : p < b.records.length := h.inside p (by simp [ho])
          exact (hskip p _ hik hkj (List.getElem?_eq_getElem hpr)).1 (by simp [ho])
        simp only [getElem?_close_of_ne hkp] at hq
        obtain ⟨hk, hle⟩ := hskip k q hik hkj hq
        exact ⟨fun hm => hk (by simp [ho, hm]), hle⟩

/-- An event at an offset behind which nothing happened keeps the nesting, and nothing has happened
behind the last of its offsets. -/
theorem Nested.perform {b : Builder} (h : b.Nested) {event : Event} {now : Offset}
    (hw : b.Within now) (hnow : ∀ o ∈ event.offsets, now ≤ o)
    (hlen : b.records.length + event.opens < 2 ^ 30) :
    (perform event b).2.Nested ∧
      ∃ now' ∈ now :: event.offsets, (perform event b).2.Within now' := by
  cases event with
  | enter frame start =>
    have hw' := hw.mono (hnow start (by simp [Event.offsets]))
    exact ⟨h.enter hw' frame, start, by simp [Event.offsets],
      within_enter_iff.2 ⟨hw', UInt32.le_refl _⟩⟩
  | leave stop =>
    have hw' := hw.mono (hnow stop (by simp [Event.offsets]))
    exact ⟨h.leave hw' hlen, stop, by simp [Event.offsets],
      (within_leave_iff h.toStacked).2 ⟨hw', .inr (UInt32.le_refl _)⟩⟩
  | inherit frames =>
    refine ⟨?_, now, by simp, within_inherit_iff.2 hw⟩
    cases frames with
    | nil => exact h
    | cons frame frames =>
      -- only at the start of the region can anything still be inherited
      have hzero : b.Within 0 := hw.mono (hnow 0 (by simp [Event.offsets]))
      clear hnow hlen hw
      generalize frame :: frames = frames
      induction frames generalizing b with
      | nil => exact h
      | cons frame frames ih =>
        exact ih (h.enter hzero frame) (within_enter_iff.2 ⟨hzero, UInt32.le_refl _⟩)

/-- **Events in order of their offsets nest.** -/
theorem nested_run {b : Builder} (h : b.Nested) {events : List Event} {now : Offset}
    (hw : b.Within now) (hord : (now :: offsets events).Pairwise (· ≤ ·))
    (hlen : b.records.length + opens events < 2 ^ 30) : (run events b).2.Nested := by
  induction events generalizing b now with
  | nil => exact h
  | cons event events ih =>
    simp only [offsets, List.flatMap_cons, ← List.cons_append] at hord
    obtain ⟨hhead, htail, hcross⟩ := List.pairwise_append.1 hord
    rw [opens] at hlen
    obtain ⟨h', now', hmem, hw'⟩ :=
      h.perform hw (List.pairwise_cons.1 hhead).1 (by omega)
    have hlen' : (perform event b).2.records.length + opens events < 2 ^ 30 := by
      rw [length_records_perform]
      omega
    exact ih h' hw' (List.pairwise_cons.2 ⟨hcross now' hmem, htail⟩) hlen'

/-! ## (4) The finished chain

Finishing leaves every open record at the end of the region. -/

/-- Finishing with something open is leaving it at the end of the region and finishing then. -/
theorem finish_of_opened {b : Builder} {p : Nat} {opened : List Nat} (ho : b.opened = p :: opened)
    (regionSize : Offset) : b.finish regionSize = (b.leave regionSize).2.finish regionSize := by
  rw [leave_snd_of_opened ho, finish, ho]
  rfl

/-- Finishing with nothing open keeps the records. -/
theorem finish_of_opened_nil {b : Builder} (ho : b.opened = []) (regionSize : Offset) :
    b.finish regionSize = ofRecords b.records := by
  rw [finish, ho]
  rfl

/-- With nothing open the stays are the ranges of the records. -/
theorem stays_of_opened_nil {b : Builder} (ho : b.opened = []) :
    b.stays = b.records.map fun r => ⟨r.frame, r.start, some r.stop⟩ := by
  apply List.ext_getElem?
  intro i
  simp [getElem?_stays, ho]

/-- Whether the innermost frame is left at the end of the region or is still open there makes no
difference. -/
theorem map_close_leave {b : Builder} (h : b.Stacked) {p : Nat} {opened : List Nat}
    (ho : b.opened = p :: opened) (regionSize : Offset) :
    (b.leave regionSize).2.stays.map (·.close regionSize)
      = b.stays.map (·.close regionSize) := by
  obtain ⟨s, hs, hopen⟩ := exists_stay_of_opened h ho
  rw [stays_leave_of_opened h ho]
  apply List.ext_getElem?
  intro i
  simp only [List.getElem?_map, List.getElem?_modify]
  by_cases hpi : p = i
  · subst hpi
    simp [hs, Stay.close, Stay.endAt, hopen]
  · cases b.stays[i]? <;> simp [hpi]

/-- A finished chain is that of a builder with nothing open, whose records are the stays, each ended
with the region if not before; and it is nested if nothing happened behind the end of the region. -/
theorem exists_finished {b : Builder} (h : b.Stacked) (regionSize : Offset) :
    ∃ last : Builder, last.opened = [] ∧ b.finish regionSize = ofRecords last.records ∧
      last.stays = b.stays.map (·.close regionSize) ∧
      (b.Nested → b.Within regionSize → b.records.length < 2 ^ 30 →
        last.Nested ∧ last.Within regionSize ∧ last.records.length < 2 ^ 30) := by
  induction ho : b.opened generalizing b with
  | nil =>
    refine ⟨b, ho, finish_of_opened_nil ho regionSize, ?_, fun hn hw hl => ⟨hn, hw, hl⟩⟩
    rw [stays_of_opened_nil ho, List.map_map]
    rfl
  | cons p opened ih =>
    have ho' : (b.leave regionSize).2.opened = opened := by rw [leave_snd_of_opened ho]
    have hsize : (b.leave regionSize).2.records.length = b.records.length := by
      rw [leave_snd_of_opened ho]; simp [Builder.close]
    obtain ⟨last, hlast, hfinish, hstays, hnested⟩ := ih (h.leave regionSize) ho'
    refine ⟨last, hlast, (finish_of_opened ho regionSize).trans hfinish,
      hstays.trans (map_close_leave h ho regionSize), fun hn hw hl => ?_⟩
    exact hnested (hn.leave hw hl) ((within_leave_iff h).2 ⟨hw, .inr (UInt32.le_refl _)⟩)
      (hsize ▸ hl)

section Finished

variable {b : Builder} (hb : b.Nested) (ho : b.opened = [])

include hb ho

/-- A nested chain is safe to walk at every offset: what a jump passes over has ended before. -/
theorem Nested.safeAt (offset : Nat) : (ofRecords b.records).SafeAt offset := by
  refine ⟨by simpa using hb.sorted, fun i r hr hended => ?_⟩
  rw [records_ofRecords] at hr
  obtain ⟨-, j, hnext, hij, -, hskip⟩ := hb.closed i r hr (by simp [ho])
  refine ⟨j, hnext, hij, fun k q hik hkj hq hactive => ?_⟩
  rw [records_ofRecords] at hq
  have hle := UInt32.le_iff_toNat_le.1 (hskip k q hik hkj hq).2
  have := hactive.2
  omega

/-- A nested chain passes the check for a region that contains its ranges. -/
theorem Nested.check {regionSize : Offset} (hw : b.Within regionSize) :
    (ofRecords b.records).check regionSize = .ok () := by
  refine check_eq_ok_iff.2 ⟨by simp [Record.width], fun i r hr => ?_, by simpa using hb.sorted⟩
  rw [records_ofRecords] at hr
  obtain ⟨hrange, j, hnext, hij, hj, -⟩ := hb.closed i r hr (by simp [ho])
  refine ⟨hrange, (hw.record hr).2 (by simp [ho]), ?_, ?_, ?_⟩
  · rw [hnext, Record.width]
    omega
  · rw [hnext, length_ofRecords, Record.width]
    omega
  · rw [hnext, Nat.mul_mod_right]

end Finished

/-- A chain that passes the check has all its ranges within the region. -/
theorem within_of_check {b : Builder} (ho : b.opened = []) {regionSize : Offset}
    (h : (ofRecords b.records).check regionSize = .ok ()) : b.Within regionSize := by
  intro s hs
  rw [stays_of_opened_nil ho] at hs
  obtain ⟨r, hr, rfl⟩ := List.mem_map.1 hs
  obtain ⟨i, hi⟩ := List.mem_iff_getElem?.1 hr
  have fits := (check_eq_ok_iff.1 h).2.1 i r (by rwa [records_ofRecords])
  refine ⟨UInt32.le_trans fits.start_le_stop fits.stop_le_size, fun o ho => ?_⟩
  obtain rfl : r.stop = o := by simpa using ho
  exact fits.stop_le_size

/-- Ending the open stays with the region makes no difference to what is active, nor to whether
something happened behind its end. -/
theorem within_close_iff {s : Stay} {regionSize : Offset} :
    (s.close regionSize).Within regionSize ↔ s.Within regionSize := by
  cases h : s.left <;> simp [Stay.Within, Stay.close, Stay.endAt, h]

/-- The frames of the records active at an offset are those of the stays that cover it. -/
theorem frames_filter_records {last : Builder} (ho : last.opened = []) {stays : List Stay}
    {regionSize : Offset} (h : last.stays = stays.map (·.close regionSize)) (offset : Nat) :
    ((last.records.filter fun r => r.Active offset).map (·.frame)) =
      (stays.filter fun s => s.Covers regionSize offset).map (·.frame) := by
  have hmap : (last.stays.filter fun s => s.Covers regionSize offset).map (·.frame) =
      (last.records.filter fun r => r.Active offset).map (·.frame) := by
    rw [stays_of_opened_nil ho, List.filter_map, List.map_map]
    rfl
  rw [← hmap, h, List.filter_map, List.map_map]
  rfl

/-- The builder after some events. -/
def after (events : List Event) : Builder := (run events empty).2

/-- Records are nested after events in order. -/
theorem nested_after {events : List Event} (hord : (offsets events).Pairwise (· ≤ ·))
    (hopens : opens events < 2 ^ 30) : (after events).Nested := by
  have hempty : empty.Within 0 := fun _ h => nomatch h
  exact nested_run nested_empty hempty (List.pairwise_cons.2 ⟨fun _ _ => UInt32.zero_le, hord⟩)
    (by simpa [empty] using hopens)

/-- **Built chains are exact.** Let events happen in order of their offsets and open fewer records
than a skip pointer can count, and finish for a region. The chain passes the check exactly if no
event changed anything behind the end of the region. Then a walk from the first word meets, at every
offset, the frames whose stay covers it, in the order in which they were entered. And a leave with
nothing open names no frame and might as well not have happened. -/
theorem check_and_frames_finish_run {events : List Event}
    (hord : (offsets events).Pairwise (· ≤ ·)) (hopens : opens events < 2 ^ 30)
    (regionSize : Offset) :
    (((after events).finish regionSize).check regionSize = .ok () ↔
        ∀ o ∈ effective events empty, o ≤ regionSize) ∧
      (((after events).finish regionSize).check regionSize = .ok () → ∀ offset,
        ((after events).finish regionSize).frames offset =
          .ok (((history events).filter fun s => s.Covers regionSize offset).map (·.frame))) ∧
      (∀ before stop behind, events = before ++ .leave stop :: behind →
        (after before).depth = 0 →
          ((after before).leave stop).1 = none ∧
            (after events).finish regionSize = (after (before ++ behind)).finish regionSize) := by
  have hstacked : (after events).Stacked := stacked_run stacked_empty events
  have hnested : (after events).Nested := nested_after hord hopens
  have hlength : (after events).records.length < 2 ^ 30 := by
    simpa [after, length_records_run, empty] using hopens
  have heffective : (after events).Within regionSize ↔
      ∀ o ∈ effective events empty, o ≤ regionSize :=
    (within_run_iff stacked_empty events).trans (and_iff_right fun _ h => nomatch h)
  -- finishing closes what is open at the end of the region; `last` is the builder then
  obtain ⟨last, ho, hfinish, hstays, hlast⟩ := exists_finished hstacked regionSize
  have hwithin : last.Within regionSize ↔ (after events).Within regionSize := by
    simp [Within, hstays, within_close_iff]
  rw [hfinish]
  have hcheck : (ofRecords last.records).check regionSize = .ok () →
      (after events).Within regionSize :=
    fun h => hwithin.1 (within_of_check ho h)
  refine ⟨⟨fun h => heffective.1 (hcheck h), fun h => ?_⟩, fun h offset => ?_, ?_⟩
  · have hw := heffective.2 h
    exact (hlast hnested hw hlength).1.check ho (hwithin.2 hw)
  · have hsafe := (hlast hnested (hcheck h) hlength).1.safeAt ho offset
    rw [frames_eq_of_safeAt hsafe, records_ofRecords, frames_filter_records ho hstays offset, after,
      stays_run]
  · -- a leave without an open record changes nothing, so the runs agree behind it
    rintro before stop behind rfl hdepth
    have hleave : (after before).leave stop = (none, after before) :=
      leave_of_opened_nil (List.length_eq_zero_iff.1 hdepth) stop
    refine ⟨by rw [hleave], ?_⟩
    rw [← hfinish, after, after, run_snd_append, run_snd_cons, run_snd_append]
    simp only [perform]
    rw [show (run before empty).2 = after before from rfl, hleave]

/-- A bridge that inherits a frame, nests two more, leaves once too often, and has a frame that
lasts up to the end of its region. -/
theorem check_and_frames_finish_bridge :
    let before : List Event :=
      [.inherit [9], .enter 4 0, .enter 2 100, .leave 300, .leave 400, .leave 450]
    let events := before ++ .leave 500 :: [.enter 5 500]
    (offsets events).Pairwise (· ≤ ·) ∧ opens events < 2 ^ 30 ∧ (after before).depth = 0 ∧
      ((after events).finish 600).check 600 = .ok () ∧
      ((after events).finish 499).check 499 ≠ .ok () ∧
      ((after events).finish 600).frames 200 = .ok [9, 4, 2] ∧
      ((after events).finish 600).frames 599 = .ok [5] ∧
      ((after before).leave 500).1 = none ∧
      (after events).finish 600 = (after (before ++ [.enter 5 500])).finish 600 := by
  intro before events
  have hord : (offsets events).Pairwise (· ≤ ·) := by decide
  have hopens : opens events < 2 ^ 30 := by decide
  have hdepth : (after before).depth = 0 := by decide
  have heffective : effective events empty = [0, 0, 100, 300, 400, 450, 500] := by decide
  obtain ⟨hcheck, hframes, hleave⟩ := check_and_frames_finish_run hord hopens 600
  have hpass := hcheck.2 (by simp [heffective])
  have hfail := mt (check_and_frames_finish_run hord hopens 499).1.1 (by simp [heffective])
  exact ⟨hord, hopens, hdepth, hpass, hfail, hframes hpass 200, hframes hpass 599,
    hleave before 500 [.enter 5 500] rfl hdepth⟩

end Builder

end Chain

end TraceAtlas
