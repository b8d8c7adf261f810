import TraceAtlas.Proofs.Index.Capacity
import TraceAtlas.Proofs.Session.Index
import TraceAtlas.Proofs.Session.Readers

/-! # When an index is full

In a session on an index, entries are removed while readers are held, and collections come at any
time. A removed entry keeps its slot until a collection finds no reader. So what a session has left
behind is told by the readers in use and the entries removed since the last such collection, and an
insertion is refused exactly if these entries and those that are there fill the plan.

## Main definitions
* `Leavings` : the readers in use, and the removed entries that wait.
* `Leavings.after` : what one event makes of them.

## Main statements
* `GatedIndex.insertion_refused_iff_full` : when an insertion is refused.
-/

namespace TraceAtlas

/-- The number of entries that an event removed from an index. -/
def Event.removals (e : Event IndexCall IndexReply) : Nat :=
  match e.step, e.answer with
  | .call (.remove _), .reply (.removed _) => 1
  | .call (.removeRange _ _), .reply (.entries removed) => removed.length
  | _, _ => 0

/-- What the events so far have left behind. -/
structure Leavings where
  /-- The names under which readers are held. -/
  readers : List String
  /-- The number of entries removed since a collection last found no reader. -/
  waiting : Nat

/-- What is left behind after one more event. -/
def Leavings.after (left : Leavings) (e : Event IndexCall IndexReply) : Leavings where
  readers := e.readers left.readers
  waiting :=
    match e.step with
    | .call .collect => if left.readers = [] then 0 else left.waiting
    | _ => left.waiting + e.removals

namespace GatedIndex

variable {t : Tuning} {plan : SlotPlan} {left : Leavings} {s s' : Session GatedIndex}
  {e : Event IndexCall IndexReply} {events : List (Event IndexCall IndexReply)}

instance : LawfulGated GatedIndex := ⟨fun _ _ => rfl, fun _ => rfl, fun _ _ _ => rfl⟩

/-- A session on an index that keeps to a plan has left behind just this: the readers are held by
these names, the gate counts them, and the slots of the removed entries that wait are retired. -/
structure LeavesUnder (plan : SlotPlan) (left : Leavings) (s : Session GatedIndex) : Prop where
  names : s.guards.map (·.1) = left.readers
  counts : s.Counts fun _ => 0
  stocked : s.subject.index.Stocked plan left.waiting

/-- Nothing has happened on a fresh index, whatever its plan. -/
theorem leavesUnder_start (t : Tuning) (slotBytes : Nat) :
    LeavesUnder (.ofTuning t slotBytes) ⟨[], 0⟩ (.start ⟨.new, .empty t slotBytes⟩) where
  names := rfl
  counts := ⟨rfl, .nil⟩
  stocked := Index.stocked_empty t slotBytes

/-- The plan is that for slots that hold a word. -/
abbrev Leaves (t : Tuning) : Leavings → Session GatedIndex → Prop :=
  LeavesUnder (.ofTuning t slotBytes)

/-- So it is with slots of the usual size. -/
theorem leaves_start (t : Tuning) : Leaves t ⟨[], 0⟩ (.start (empty t)) :=
  leavesUnder_start t slotBytes

/-- Nobody reads exactly if no name is in use. -/
theorem LeavesUnder.quiescent_iff (h : LeavesUnder plan left s) :
    s.subject.gate.Quiescent ↔ left.readers = [] := by
  rw [← h.names, List.map_eq_nil_iff, ← List.length_eq_zero_iff]
  exact iff_of_eq (congrArg (· = 0) h.counts.readers)

/-- The entries that a call removes wait, and a collection ends their waiting if nobody reads. -/
theorem LeavesUnder.call (h : LeavesUnder plan left s) {k : IndexCall} {reply : IndexReply}
    {x : GatedIndex} (hcall : (answer k s.subject).outcome = .ok (reply, x))
    (notices : List Notice) :
    x.index.Stocked plan (left.after ⟨.call k, .reply reply, notices⟩).waiting := by
  cases k with
  | insert key value =>
    obtain ⟨⟨result, ix⟩, hinsert, hlast⟩ := Traced.outcome_bind_eq_ok.1 hcall
    obtain ⟨rfl, rfl⟩ := Prod.mk.inj (Except.ok.inj hlast)
    exact (h.stocked.insert hinsert).1
  | remove key =>
    obtain ⟨⟨value, ix⟩, hremove, hlast⟩ := Traced.outcome_bind_eq_ok.1 hcall
    obtain ⟨rfl, rfl⟩ := Prod.mk.inj (Except.ok.inj hlast)
    obtain ⟨slot, hfind, rfl⟩ := Index.of_outcome_remove hremove
    exact (h.stocked.drop hfind).1
  | removeRange start length =>
    obtain ⟨rfl, rfl⟩ := Prod.mk.inj (Except.ok.inj hcall)
    exact (h.stocked.removeRange start length).1
  | collect =>
    have hcollect := Index.outcome_collect_eq s.subject.index s.subject.gate
    rw [answer, Traced.outcome_bind_of_ok hcollect] at hcall
    obtain ⟨rfl, rfl⟩ := Prod.mk.inj (Except.ok.inj hcall)
    simp only [Leavings.after, ← h.quiescent_iff]
    exact h.stocked.collected s.subject.gate
  | floor query | size | entries =>
    obtain ⟨rfl, rfl⟩ := Prod.mk.inj (Except.ok.inj hcall)
    exact h.stocked

/-- Every event leaves behind what is told of it. -/
theorem LeavesUnder.happens (h : LeavesUnder plan left s) (he : Session.Happens answer s e s') :
    LeavesUnder plan (left.after e) s' := by
  have hnames : s'.guards.map (·.1) = e.readers left.readers := he.names_eq.trans (h.names ▸ rfl)
  have hcounts : s'.Counts fun _ => 0 := by
    refine h.counts.happens he (fun _ _ => rfl) fun {k notices reply x n} hcall hreaders => ?_
    -- no call of an index touches the gate
    rw [← hreaders]
    exact congrArg Gate.readers (replies_of_outcome_answer (congrArg Traced.outcome hcall)).1
  refine ⟨hnames, hcounts, ?_⟩
  rcases he.call_or_withGate with ⟨k, reply, hstep, hanswer, -, hcall⟩ | ⟨hstep, -, g, hg⟩
  · obtain ⟨step, a, notices⟩ := e
    obtain rfl : step = .call k := hstep
    obtain rfl : a = .reply reply := hanswer
    exact h.call (congrArg Traced.outcome hcall) notices
  · have hwaiting : (left.after e).waiting = left.waiting := by
      obtain ⟨step, a, notices⟩ := e
      cases step with
      | call k => exact absurd rfl (hstep k)
      | _ => rfl
    rw [hwaiting, hg]
    exact h.stocked

/-- **When an insertion is refused.** At every moment of every session on a fresh index, each slot
that was handed out is that of an entry, retired or free; the retired ones are those of the entries
removed since a collection last found no reader, and no more slots are handed out than there may be.
Unless memory cannot be had, be it for another chunk or in the lists of slots, an insertion at an
address without an entry is refused exactly if the entries and these removed ones are as many as
there may be, and the refusal names the size of a slot. -/
theorem insertion_refused_iff_full (t : Tuning)
    (h : Session.Passes answer (.start (empty t)) events s) :
    let waiting := (events.foldl Leavings.after ⟨[], 0⟩).waiting
    let ix := s.subject.index
    (ix.slots.Partition ix.used ∧ ix.used.length = ix.contents.count ∧
      ix.slots.retired.length = waiting ∧
      ix.contents.count + waiting + ix.slots.free.length = ix.slots.handedOut ∧
      ix.slots.handedOut ≤ t.maxNodes.toNat) ∧
    ∀ key value, ix.contents key = none → ¬ix.slots.GrowthFails ix.plan →
      ¬ix.slots.ListsFail ix.plan →
      if ix.contents.count + waiting = t.maxNodes.toNat then
        (answer (.insert key value) s.subject).outcome =
          .ok (.inserted (.error ⟨UInt64.ofNat slotBytes⟩), s.subject)
      else ∃ x, (answer (.insert key value) s.subject).outcome = .ok (.inserted (.ok ()), x) := by
  intro waiting ix
  -- what is told of the events is what the index is left with
  have hleaves : Leaves t (events.foldl Leavings.after ⟨[], 0⟩) s :=
    h.foldl (leaves_start t) fun hs he => hs.happens he
  have hstocked : ix.Stocked (.ofTuning t slotBytes) waiting := hleaves.stocked
  obtain ⟨hpartition, hused⟩ := ix.partition_used
  have hsum := ix.size_add_retired_add_free
  rw [hstocked.retired] at hsum
  rw [← ix.size_eq_count]
  refine ⟨⟨hpartition, hused, hstocked.retired, hsum, hstocked.handedOut_le⟩,
    fun key value hkey hgrow hlists => ?_⟩
  have hinsert : if ix.size + waiting = t.maxNodes.toNat then _ else _ :=
    hstocked.outcome_insert hkey (hstocked.plan_eq ▸ hgrow) (hstocked.plan_eq ▸ hlists) value
  split
  · rename_i hfull
    rw [if_pos hfull] at hinsert
    rw [answer, Traced.outcome_bind_of_ok hinsert]
    rfl
  · rename_i hroom
    rw [if_neg hroom] at hinsert
    obtain ⟨ix', hinsert⟩ := hinsert
    refine ⟨{ s.subject with index := ix' }, ?_⟩
    rw [answer, Traced.outcome_bind_of_ok hinsert]
    rfl

/-- There may be two entries. One of them is removed while somebody reads, so that a collection is
of no use and a third entry is refused. -/
theorem insertion_refused_while_read :
    ∃ (events : List (Event IndexCall IndexReply)) (s : Session GatedIndex),
      Session.Passes answer (.start (empty { maxNodes := 2 })) events s ∧
      s.subject.index.contents.count = 1 ∧
      (answer (.insert 3 9) s.subject).outcome = .ok (.inserted (.error ⟨80⟩), s.subject) := by
  obtain ⟨events, s, h, -, hvalues⟩ := Session.exists_passes_of_trail answer
    (.start (empty { maxNodes := 2 }))
    [.call (.insert 1 7), .call (.insert 2 8), .read "g", .call (.remove 1), .call .collect]
    (by simp [Step.Plain])
    (fun p => ((p.1.foldl Leavings.after ⟨[], 0⟩).waiting, p.2.subject.index.size,
      p.2.subject.index.contents 3, p.2.subject.index.slots.handedOut,
      p.2.subject.index.plan.limit)) (1, 1, none, 2, 2) (by decide +kernel)
  simp only [Prod.mk.injEq] at hvalues
  obtain ⟨hwaiting, hsize, hkey, hhanded, hlimit⟩ := hvalues
  obtain ⟨-, hinsert⟩ := insertion_refused_iff_full { maxNodes := 2 } h
  have hcount : s.subject.index.contents.count = 1 := by rw [← s.subject.index.size_eq_count, hsize]
  have hnone : ¬s.subject.index.slots.handedOut < s.subject.index.plan.limit := by
    rw [hhanded, hlimit]
    exact Nat.lt_irrefl 2
  have hrefused := hinsert 3 9 hkey (fun hgrow => hnone hgrow.2.1) (fun hlists => hnone hlists.2.1)
  rw [if_pos (by rw [hcount, hwaiting]; rfl)] at hrefused
  exact ⟨events, s, h, hcount, hrefused⟩

end GatedIndex

end TraceAtlas
