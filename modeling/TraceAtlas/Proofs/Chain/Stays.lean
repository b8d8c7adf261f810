import TraceAtlas.Chain.Builder

/-! # The stays of frames

What a sequence of events says about its frames, without records: each frame that is entered stays
active until it is left, and a leave ends the latest stay that has not ended. A builder holds the
same stays, spread over its records and its stack of open positions. The first half of this file
tells the history of an event sequence, the second half reads the stays off a builder, and each
event changes both in the same way.

## Main definitions
* `Stay`, `Stay.Covers` : one frame's time on the stack, and the offsets it makes up.
* `Chain.Builder.history` : the stays of a sequence of events, in the order of the entries.
* `Chain.Builder.stays`, `Chain.Builder.Stacked` : the stays a builder holds, and the discipline of
  its stack.

## Main statements
* `Chain.Builder.stays_run` : a run of events leaves the builder with the stays of its history.
-/

namespace TraceAtlas

/-- The time that a frame is active: from the offset where it was entered to the one where it was
left, if it was. -/
structure Stay where
  frame : FrameId
  entered : Offset
  left : Option Offset
  deriving DecidableEq, Repr

namespace Stay

/-- The frame is active at an offset of a region. A stay that has not ended lasts as long as the
region. -/
def Covers (s : Stay) (regionSize : Offset) (offset : Nat) : Prop :=
  s.entered.toNat ≤ offset ∧ offset < (s.left.getD regionSize).toNat

instance (s : Stay) (regionSize : Offset) (offset : Nat) : Decidable (s.Covers regionSize offset) :=
  inferInstanceAs (Decidable (_ ∧ _))

/-- The stay begins, and ends if it has ended, at or before an offset. -/
def Within (s : Stay) (bound : Offset) : Prop :=
  s.entered ≤ bound ∧ ∀ o, s.left = some o → o ≤ bound

/-- The stay, ended at an offset. -/
def endAt (s : Stay) (stop : Offset) : Stay := { s with left := some stop }

/-- The stay, ended with the region if it has not ended before. -/
def close (s : Stay) (regionSize : Offset) : Stay := s.endAt (s.left.getD regionSize)

/-- A frame that is still open covers what it covers when it is closed at the end of the region. -/
@[simp] theorem covers_close {s : Stay} {regionSize : Offset} {offset : Nat} :
    (s.close regionSize).Covers regionSize offset ↔ s.Covers regionSize offset := Iff.rfl

/-- A stay that ends is within a bound if its start and its end are. -/
theorem within_endAt_iff {s : Stay} {stop bound : Offset} (h : s.left = none) :
    (s.endAt stop).Within bound ↔ s.Within bound ∧ stop ≤ bound := by
  simp [Within, endAt, h]

/-- What lies within a bound lies within every greater one. -/
theorem Within.mono {s : Stay} {a b : Offset} (h : s.Within a) (hab : a ≤ b) : s.Within b :=
  ⟨UInt32.le_trans h.1 hab, fun o ho => UInt32.le_trans (h.2 o ho) hab⟩

end Stay

namespace Chain

namespace Builder

/-! ## (1) The history of a sequence of events -/

/-- Ends the latest stay that has not ended; the latest is the first of the list. -/
def leaveLatest (stop : Offset) : List Stay → List Stay
  | [] => []
  | s :: earlier =>
    if s.left = none then s.endAt stop :: earlier else s :: leaveLatest stop earlier

/-- What an event adds to the stays before it, the latest first. -/
def Event.happen (past : List Stay) : Event → List Stay
  | .enter frame start => ⟨frame, start, none⟩ :: past
  | .leave stop => leaveLatest stop past
  | .inherit frames => frames.foldl (fun past frame => ⟨frame, 0, none⟩ :: past) past

/-- The stays of a sequence of events, in the order in which the frames were entered. -/
def history (events : List Event) : List Stay := (events.foldl Event.happen []).reverse

/-- Stays that have ended are passed over. -/
theorem leaveLatest_append {stop : Offset} {ended : List Stay} (h : ∀ s ∈ ended, s.left ≠ none)
    (past : List Stay) : leaveLatest stop (ended ++ past) = ended ++ leaveLatest stop past := by
  induction ended with
  | nil => rfl
  | cons s ended ih =>
    rw [List.cons_append, leaveLatest, if_neg (h s (by simp)),
      ih fun t ht => h t (List.mem_cons_of_mem s ht), List.cons_append]

/-- Where no stay is open, leaving changes nothing. -/
theorem leaveLatest_of_ended {stop : Offset} {past : List Stay} (h : ∀ s ∈ past, s.left ≠ none) :
    leaveLatest stop past = past := by
  simpa [leaveLatest] using leaveLatest_append h []

/-- The stay that ends is the one at a position behind which all have ended. -/
theorem leaveLatest_reverse {stop : Offset} {stays : List Stay} {p : Nat} {s : Stay}
    (hs : stays[p]? = some s) (hopen : s.left = none)
    (hlater : ∀ i t, p < i → stays[i]? = some t → t.left ≠ none) :
    leaveLatest stop stays.reverse = (stays.modify p (·.endAt stop)).reverse := by
  obtain ⟨before, t, behind, rfl, rfl, hmod⟩ :=
    List.exists_of_modify (·.endAt stop) (List.getElem?_eq_some_iff.1 hs).1
  obtain rfl : t = s := by simpa using hs
  have hended : ∀ t ∈ behind.reverse, t.left ≠ none := by
    intro t ht
    obtain ⟨i, hi⟩ := List.mem_iff_getElem?.1 (List.mem_reverse.1 ht)
    refine hlater (before.length + 1 + i) t (by omega) ?_
    rw [List.getElem?_append_right (by omega)]
    simpa [Nat.add_assoc, Nat.add_comm 1 i] using hi
  rw [hmod]
  simp only [List.reverse_append, List.reverse_cons, List.append_assoc, List.cons_append,
    List.nil_append]
  rw [leaveLatest_append hended, leaveLatest, if_pos hopen]

/-! ## (2) The stays that a builder holds -/

/-- The stays that a builder holds: one for each record, open as long as its position is. -/
def stays (b : Builder) : List Stay :=
  b.records.mapIdx fun i r => ⟨r.frame, r.start, if i ∈ b.opened then none else some r.stop⟩

/-- The open positions are positions of records, innermost first. -/
structure Stacked (b : Builder) : Prop where
  descending : b.opened.Pairwise (· > ·)
  inside : ∀ p ∈ b.opened, p < b.records.length

/-- Each record is a stay, which has an end unless the record is open. -/
theorem getElem?_stays (b : Builder) (i : Nat) :
    b.stays[i]? = b.records[i]?.map fun r =>
      ⟨r.frame, r.start, if i ∈ b.opened then none else some r.stop⟩ := by
  simp [stays]

/-- There is a stay for each record. -/
@[simp] theorem length_stays (b : Builder) : b.stays.length = b.records.length := by simp [stays]

/-- Without a record none is open. -/
theorem stacked_empty : empty.Stacked := ⟨.nil, fun _ h => nomatch h⟩

/-- A frame that is entered is on top of those that are open. -/
theorem Stacked.enter {b : Builder} (h : b.Stacked) (frame : FrameId) (start : Offset) :
    (b.enter frame start).Stacked := by
  refine ⟨List.pairwise_cons.2 ⟨h.inside, h.descending⟩, fun p hp => ?_⟩
  simp only [Builder.enter, List.length_append, List.length_singleton]
  rcases List.mem_cons.1 hp with rfl | hp
  · omega
  · have := h.inside p hp
    omega

/-- Entering a frame begins a stay behind all others. -/
theorem stays_enter (b : Builder) (frame : FrameId) (start : Offset) :
    (b.enter frame start).stays = b.stays ++ [⟨frame, start, none⟩] := by
  apply List.ext_getElem?
  intro i
  rw [getElem?_stays]
  simp only [Builder.enter, List.mem_cons]
  rcases Nat.lt_trichotomy i b.records.length with hi | rfl | hi
  · rw [List.getElem?_append_left hi, List.getElem?_append_left (by simpa using hi), getElem?_stays]
    simp [Nat.ne_of_lt hi]
  · simp
  · rw [List.getElem?_eq_none (by simp; omega), List.getElem?_eq_none (by simp; omega)]
    rfl

section Leave

variable {b : Builder} {p : Nat} {opened : List Nat}

/-- Leaving with something open, in terms of records: the innermost open one is patched. -/
theorem leave_snd_of_opened (ho : b.opened = p :: opened) (stop : Offset) :
    (b.leave stop).2 = ⟨Builder.close b.records p stop, opened⟩ := by
  simp [leave, ho]

/-- Leaving with nothing open changes nothing. -/
theorem leave_of_opened_nil (ho : b.opened = []) (stop : Offset) : b.leave stop = (none, b) := by
  simp [leave, ho]

/-- The innermost open position is behind all others that are open. -/
theorem Stacked.lt_innermost (h : b.Stacked) (ho : b.opened = p :: opened) :
    (∀ q ∈ opened, q < p) ∧ opened.Pairwise (· > ·) := by
  have hd := h.descending
  rw [ho] at hd
  exact List.pairwise_cons.1 hd

/-- The one that is left was on top. -/
theorem Stacked.leave (h : b.Stacked) (stop : Offset) : (b.leave stop).2.Stacked := by
  cases ho : b.opened with
  | nil => rwa [leave_of_opened_nil ho]
  | cons p opened =>
    rw [leave_snd_of_opened ho]
    refine ⟨(h.lt_innermost ho).2, fun q hq => ?_⟩
    simpa [Builder.close] using h.inside q (by simp [ho, hq])

/-- Leaving a frame ends the stay at the innermost open position. -/
theorem stays_leave_of_opened (h : b.Stacked) (ho : b.opened = p :: opened) (stop : Offset) :
    (b.leave stop).2.stays = b.stays.modify p (·.endAt stop) := by
  have hp : p ∉ opened := fun hm => Nat.lt_irrefl p ((h.lt_innermost ho).1 p hm)
  rw [leave_snd_of_opened ho]
  apply List.ext_getElem?
  intro i
  rw [getElem?_stays, List.getElem?_modify, getElem?_stays, ho]
  simp only [Builder.close, List.getElem?_modify, List.mem_cons]
  by_cases hi : p = i
  · subst hi
    cases b.records[p]? <;> simp [hp, Stay.endAt]
  · cases b.records[i]? <;> simp [hi, Ne.symm hi]

/-- At the innermost open position there is a stay that has not ended. -/
theorem exists_stay_of_opened (h : b.Stacked) (ho : b.opened = p :: opened) :
    ∃ s, b.stays[p]? = some s ∧ s.left = none := by
  have hp : p < b.records.length := h.inside p (by simp [ho])
  exact ⟨_, by rw [getElem?_stays, List.getElem?_eq_getElem hp]; rfl, by simp [ho]⟩

/-- Behind the innermost open position every stay has ended. -/
theorem ended_of_opened (h : b.Stacked) (ho : b.opened = p :: opened) {i : Nat} {s : Stay}
    (hpi : p < i) (hs : b.stays[i]? = some s) : s.left ≠ none := by
  have hi : i ∉ b.opened := by
    rw [ho]
    intro hm
    rcases List.mem_cons.1 hm with rfl | hm
    · omega
    · have := (h.lt_innermost ho).1 i hm
      omega
  rw [getElem?_stays] at hs
  obtain ⟨r, -, rfl⟩ := Option.map_eq_some_iff.1 hs
  simp [hi]

/-- A leave does to the stays of a builder what it does to a history. -/
theorem stays_leave (h : b.Stacked) (stop : Offset) :
    (b.leave stop).2.stays.reverse = leaveLatest stop b.stays.reverse := by
  cases ho : b.opened with
  | nil =>
    rw [leave_of_opened_nil ho, leaveLatest_of_ended]
    intro s hs
    obtain ⟨i, hi⟩ := List.mem_iff_getElem?.1 (List.mem_reverse.1 hs)
    rw [getElem?_stays] at hi
    obtain ⟨r, -, rfl⟩ := Option.map_eq_some_iff.1 hi
    simp [ho]
  | cons p opened =>
    obtain ⟨s, hs, hopen⟩ := exists_stay_of_opened h ho
    rw [stays_leave_of_opened h ho,
      leaveLatest_reverse hs hopen fun i t hpi ht => ended_of_opened h ho hpi ht]

end Leave

/-! ## (3) Runs of events -/

/-- Frames are inherited one after the other. -/
theorem inherit_cons (b : Builder) (frame : FrameId) (frames : List FrameId) :
    b.inherit (frame :: frames) = (b.enter frame 0).inherit frames := rfl

/-- Inherited frames are stacked like those that are entered. -/
theorem Stacked.inherit {b : Builder} (h : b.Stacked) (frames : List FrameId) :
    (b.inherit frames).Stacked := by
  induction frames generalizing b with
  | nil => exact h
  | cons frame frames ih => exact ih (h.enter frame 0)

/-- Every event keeps the open frames stacked. -/
theorem Stacked.perform {b : Builder} (h : b.Stacked) (event : Event) :
    (perform event b).2.Stacked := by
  cases event with
  | enter frame start => exact h.enter frame start
  | leave stop => exact h.leave stop
  | inherit frames => exact h.inherit frames

/-- An event does to the stays of a builder what it does to a history. -/
theorem stays_perform {b : Builder} (h : b.Stacked) (event : Event) :
    (perform event b).2.stays.reverse = Event.happen b.stays.reverse event := by
  cases event with
  | enter frame start => simp [perform, stays_enter, Event.happen]
  | leave stop => exact stays_leave h stop
  | inherit frames =>
    simp only [perform, Event.happen]
    induction frames generalizing b with
    | nil => rfl
    | cons frame frames ih =>
      rw [inherit_cons, ih (h.enter frame 0), stays_enter]
      simp

/-- The builder after a run, event by event. -/
theorem run_snd_cons (event : Event) (events : List Event) (b : Builder) :
    (run (event :: events) b).2 = (run events (perform event b).2).2 := rfl

/-- So do events in a row. -/
theorem stacked_run {b : Builder} (h : b.Stacked) (events : List Event) :
    (run events b).2.Stacked := by
  induction events generalizing b with
  | nil => exact h
  | cons event events ih => exact ih (h.perform event)

/-- The stays after some events are what happened to those before, one event after the other. -/
theorem stays_run_from {b : Builder} (h : b.Stacked) (events : List Event) :
    (run events b).2.stays.reverse = events.foldl Event.happen b.stays.reverse := by
  induction events generalizing b with
  | nil => rfl
  | cons event events ih =>
    rw [run_snd_cons, ih (h.perform event), stays_perform h, List.foldl_cons]

/-- **A builder holds its history**: after a run of events its stays are those of the events. -/
theorem stays_run (events : List Event) : (run events empty).2.stays = history events := by
  rw [history, ← List.reverse_inj, List.reverse_reverse]
  exact stays_run_from stacked_empty events

end Builder

end Chain

end TraceAtlas
