import TraceAtlas.Chain.Walk

/-! # What a walk meets

A walk jumps from record to record by their skip pointers. It meets exactly the records that are
active at its offset if no jump passes over one of them, and if it may stop at the first record that
starts behind the offset. Both are properties of the chain at that offset, and the walk needs
nothing else: neither the check nor the way the chain was made.

## Main definitions
* `Chain.SafeAt` : at an offset, jumps lead forward and pass over no active record.
* `Chain.activeFrom` : the frames active at an offset, from a record on.
* `Chain.SkipsOnly` : what can stop at nothing but a bad skip pointer.

## Main statements
* `Chain.frames_eq_of_safeAt` : a walk from the first word meets exactly the active frames.
-/

namespace TraceAtlas

namespace Chain

/-! ## (1) Records and words -/

/-- The record at a multiple of the width is the record of that number. -/
theorem recordAt?_width_mul (c : Chain) (i : Nat) :
    c.recordAt? (Record.width * i) = c.records[i]? := by
  obtain ⟨ws⟩ := c
  simp only [recordAt?, records]
  induction i generalizing ws with
  | zero => rcases ws with _ | ⟨_, _ | ⟨_, _ | ⟨_, _ | ⟨_, _⟩⟩⟩⟩ <;> rfl
  | succ i ih =>
    rcases ws with _ | ⟨_, _ | ⟨_, _ | ⟨_, _ | ⟨_, rest⟩⟩⟩⟩
    case cons.cons.cons.cons =>
      have := ih rest
      simpa [recordsOf, Record.width, Nat.mul_succ] using this
    all_goals simp [recordsOf, Record.width, Nat.mul_succ]

/-! ## (2) Safe jumps -/

/-- At an offset a walk may trust the chain: it may stop at a record that starts behind the offset,
and a jump from a record that has ended leads forward to a record, over none that is active. -/
structure SafeAt (c : Chain) (offset : Nat) : Prop where
  sorted : c.records.Pairwise fun a b => a.start ≤ b.start
  jump : ∀ i r, c.records[i]? = some r → r.stop.toNat ≤ offset →
    ∃ j, r.next.toNat = Record.width * j ∧ i < j ∧
      ∀ k q, i < k → k < j → c.records[k]? = some q → ¬q.Active offset

/-- Where skips are safe, records start in their order. -/
theorem SafeAt.start_le {c : Chain} {offset i k : Nat} {r q : Record} (hc : c.SafeAt offset)
    (hik : i < k) (hr : c.records[i]? = some r) (hq : c.records[k]? = some q) :
    r.start ≤ q.start := by
  obtain ⟨hi, rfl⟩ := List.getElem?_eq_some_iff.1 hr
  obtain ⟨hk, rfl⟩ := List.getElem?_eq_some_iff.1 hq
  exact List.pairwise_iff_getElem.1 hc.sorted i k hi hk hik

/-- The frames active at an offset, from record number `i` on. -/
def activeFrom (c : Chain) (offset i : Nat) : List FrameId :=
  ((c.records.drop i).filter fun r => r.Active offset).map (·.frame)

/-- Nothing is active if no record from there on is. -/
theorem activeFrom_eq_nil {c : Chain} {offset i : Nat}
    (h : ∀ k q, i ≤ k → c.records[k]? = some q → ¬q.Active offset) :
    c.activeFrom offset i = [] := by
  simp only [activeFrom, List.map_eq_nil_iff, List.filter_eq_nil_iff, decide_eq_true_eq]
  intro q hq
  obtain ⟨k, hk⟩ := List.mem_iff_getElem?.1 hq
  rw [List.getElem?_drop] at hk
  exact h (i + k) q (by omega) hk

/-- A record that is not active does not count. -/
theorem activeFrom_succ {c : Chain} {offset i : Nat}
    (h : ∀ q, c.records[i]? = some q → ¬q.Active offset) :
    c.activeFrom offset i = c.activeFrom offset (i + 1) := by
  cases hr : c.records[i]? with
  | none =>
    have hlen := List.getElem?_eq_none_iff.1 hr
    simp [activeFrom, List.drop_eq_nil_of_le hlen, List.drop_eq_nil_of_le (Nat.le_succ_of_le hlen)]
  | some r =>
    obtain ⟨hlt, rfl⟩ := List.getElem?_eq_some_iff.1 hr
    rw [activeFrom, List.drop_eq_getElem_cons hlt, List.filter_cons_of_neg (by simpa using h _ hr),
      activeFrom]

/-- Records between two places count for nothing if none of them is active. -/
theorem activeFrom_eq_of_le {c : Chain} {offset i j : Nat} (hij : i ≤ j)
    (h : ∀ k q, i ≤ k → k < j → c.records[k]? = some q → ¬q.Active offset) :
    c.activeFrom offset i = c.activeFrom offset j := by
  induction hij with
  | refl => rfl
  | step hij ih =>
    rw [ih fun k q hik hkj => h k q hik (by omega)]
    exact activeFrom_succ fun q => h _ q hij (by omega)

/-- An active record is the first to count. -/
theorem activeFrom_of_active {c : Chain} {offset i : Nat} {r : Record} (hr : c.records[i]? = some r)
    (ha : r.Active offset) : c.activeFrom offset i = r.frame :: c.activeFrom offset (i + 1) := by
  obtain ⟨hlt, rfl⟩ := List.getElem?_eq_some_iff.1 hr
  rw [activeFrom, List.drop_eq_getElem_cons hlt, List.filter_cons_of_pos (by simpa using ha),
    List.map_cons, activeFrom]

/-! ## (3) One search -/

/-- **What one search finds.** From a record on it misses if nothing is active there, and otherwise
finds the first active frame and stops behind its record. -/
theorem seek_of_safeAt {c : Chain} {offset : Nat} (hc : c.SafeAt offset) (cursor i : Nat) :
    c.activeFrom offset i = [] ∧
        c.seek offset cursor (Record.width * i) = .ok (none, cursor) ∨
      ∃ f j, i < j ∧ c.activeFrom offset i = f :: c.activeFrom offset j ∧
        c.seek offset cursor (Record.width * i) = .ok (some f, Record.width * j) := by
  -- by the number of records left, which every jump makes smaller
  induction hn : c.records.length - i using Nat.strongRecOn generalizing i with
  | ind n ih =>
    rw [seek_eq, recordAt?_width_mul]
    cases hr : c.records[i]? with
    | none =>
      refine .inl ⟨activeFrom_eq_nil fun k q hik hk => ?_, rfl⟩
      have := List.getElem?_eq_none_iff.1 hr
      have := (List.getElem?_eq_some_iff.1 hk).1
      omega
    | some r =>
      have hlen := (List.getElem?_eq_some_iff.1 hr).1
      by_cases hstart : offset < r.start.toNat
      · -- every later record starts behind the offset as well
        refine .inl ⟨activeFrom_eq_nil fun k q hik hk hq => ?_, if_pos hstart⟩
        rcases Nat.eq_or_lt_of_le hik with rfl | hik
        · obtain rfl : r = q := Option.some.inj (hr.symm.trans hk)
          exact absurd hq.1 (by omega)
        · have hle := UInt32.le_iff_toNat_le.1 (hc.start_le hik hr hk)
          exact absurd hq.1 (by omega)
      · by_cases hstop : offset < r.stop.toNat
        · refine .inr ⟨r.frame, i + 1, by omega, activeFrom_of_active hr ⟨by omega, hstop⟩, ?_⟩
          simp only [if_neg hstart, if_pos hstop]
          rfl
        · -- the record is over, and nothing that its skip pointer passes is active
          obtain ⟨j, hnext, hij, hskip⟩ := hc.jump i r hr (by omega)
          have hover : c.activeFrom offset i = c.activeFrom offset j := by
            refine activeFrom_eq_of_le (by omega) fun k q hik hkj hk hq => ?_
            rcases Nat.eq_or_lt_of_le hik with rfl | hik
            · obtain rfl : r = q := Option.some.inj (hr.symm.trans hk)
              exact hstop hq.2
            · exact hskip k q hik hkj hk hq
          have hahead : Record.width * i + Record.width ≤ r.next.toNat := by
            rw [hnext, ← Nat.mul_succ]
            exact Nat.mul_le_mul_left _ hij
          simp only [if_neg hstart, if_neg hstop, if_pos hahead]
          rw [hover, hnext]
          rcases ih (c.records.length - j) (by omega) j rfl with hmiss | ⟨f, k, hjk, hk⟩
          · exact .inl hmiss
          · exact .inr ⟨f, k, by omega, hk⟩

/-! ## (4) Whole walks -/

/-- A walk from a record on ends, and meets the active frames in the order of the records. -/
theorem walk_of_safeAt {c : Chain} {offset : Nat} (hc : c.SafeAt offset) (i : Nat) :
    ∃ steps, c.walk offset (Record.width * i) = .ok steps ∧
      steps.filterMap (·.1) = c.activeFrom offset i := by
  induction hl : c.activeFrom offset i generalizing i with
  | nil =>
    rcases seek_of_safeAt hc (Record.width * i) i with ⟨-, hmiss⟩ | ⟨f, j, -, hf, -⟩
    · exact ⟨_, by rw [walk_eq, nextFrame, hmiss], rfl⟩
    · rw [hl] at hf
      cases hf
  | cons f fs ih =>
    rcases seek_of_safeAt hc (Record.width * i) i with ⟨hnil, -⟩ | ⟨g, j, -, hg, hhit⟩
    · rw [hl] at hnil
      cases hnil
    · rw [hl] at hg
      obtain ⟨rfl, hfs⟩ := List.cons.inj hg
      obtain ⟨steps, hwalk, hsteps⟩ := ih j hfs.symm
      refine ⟨(some f, Record.width * j) :: steps, ?_, by simp [hsteps]⟩
      rw [walk_eq, nextFrame, hhit]
      simp only [hwalk, Except.map]

/-- **A walk meets exactly the active frames**, enclosing frames first, where jumps are safe. -/
theorem frames_eq_of_safeAt {c : Chain} {offset : Nat} (hc : c.SafeAt offset) :
    c.frames offset = .ok ((c.records.filter fun r => r.Active offset).map (·.frame)) := by
  obtain ⟨steps, hwalk, hsteps⟩ := walk_of_safeAt hc 0
  rw [Nat.mul_zero] at hwalk
  simp only [frames, hwalk, Except.map, hsteps, activeFrom, List.drop_zero]

/-! ## (5) Faults -/

/-- If this stops at a fault, it is a skip pointer that does not lead forward. -/
def SkipsOnly {α : Type} (x : Except Fault α) : Prop := ∀ e, x = .error e → e = .backwardSkip

namespace SkipsOnly

variable {α β : Type} {x : Except Fault α}

/-- A result is no fault. -/
theorem ok (a : α) : SkipsOnly (.ok a) := nofun

/-- A bad skip pointer is the one fault that is allowed. -/
theorem error {e : Fault} (he : e = .backwardSkip) : SkipsOnly (.error e : Except Fault α) := by
  rintro _ ⟨⟩
  exact he

/-- What is done with a result adds no fault. -/
theorem map (h : SkipsOnly x) (f : α → β) : SkipsOnly (x.map f) := by
  intro e he
  cases x with
  | error e' =>
    obtain rfl := Except.error.inj he
    exact h e' rfl
  | ok a => cases he

/-- Computations in a row stop at nothing else if none of them does. -/
theorem bind {f : α → Except Fault β} (h : SkipsOnly x) (hf : ∀ a, SkipsOnly (f a)) :
    SkipsOnly (x >>= f) := by
  cases x with
  | error e => exact .error (h e rfl)
  | ok a => exact hf a

end SkipsOnly

/-- A search stops at nothing but a bad skip pointer. -/
theorem skipsOnly_seek (c : Chain) (offset cursor index : Nat) :
    SkipsOnly (c.seek offset cursor index) := by
  fun_induction seek c offset cursor index with
  | case1 | case2 | case3 => exact .ok _
  | case4 _ _ _ _ _ _ ih => exact ih
  | case5 => exact .error rfl

/-- Nor does one from a record on. -/
theorem skipsOnly_nextFrame (c : Chain) (offset cursor : Nat) :
    SkipsOnly (c.nextFrame offset cursor) := c.skipsOnly_seek offset cursor cursor

/-- Nor does a walk. -/
theorem skipsOnly_walk (c : Chain) (offset cursor : Nat) : SkipsOnly (c.walk offset cursor) := by
  have hnext := c.skipsOnly_nextFrame offset
  fun_induction walk c offset cursor with
  | case1 cursor e he => exact .error (hnext cursor e he)
  | case2 => exact .ok _
  | case3 _ _ _ _ ih => exact ih.map _

/-- Nor does the list of all frames. -/
theorem skipsOnly_frames (c : Chain) (offset : Nat) : SkipsOnly (c.frames offset) :=
  (c.skipsOnly_walk offset 0).map _

/-- Nor does filling a buffer. -/
theorem skipsOnly_fill (c : Chain) (offset cursor : Nat) (buffer : List FrameId) :
    SkipsOnly (c.fill offset cursor buffer) := by
  induction buffer generalizing cursor with
  | nil => exact .ok _
  | cons old room ih =>
    rw [fill]
    split
    · exact .error (c.skipsOnly_nextFrame offset cursor _ ‹_›)
    · exact .ok _
    · exact (ih _).map _

/-- Nor do calls that are made one at a time. -/
theorem skipsOnly_pull (c : Chain) (offset cursor calls : Nat) :
    SkipsOnly (c.pull offset cursor calls) := by
  induction calls generalizing cursor with
  | zero => exact .ok _
  | succ calls ih =>
    rw [pull]
    split
    · exact .error (c.skipsOnly_nextFrame offset cursor _ ‹_›)
    · exact (ih _).map _

end Chain

end TraceAtlas
