import Mathlib.Data.List.Nodup
import TraceAtlas.Proofs.Gate
import TraceAtlas.Session.Basic

/-! # What happened in a session

A session may nest steps in mutations, but what happens in it happens in a row: setting the gate,
clearing it, taking, checking and dropping readers, and calls. An event is one of these with what it
answered and the notices it left. A session passes through its events one by one, so that a
statement about every passage is one about every moment of every session, also within a mutation.

## Main definitions
* `Event` : a step without nested ones, its answer and its notices.
* `Session.Happens` : what one event makes of a session, with a case for each kind of step.
* `Session.Passes` : what events in a row make of it.
* `Session.trail` : the events that steps come to, computed.

## Main statements
* `Session.happens_iff` : an event is what a step that is not nested comes to.
* `Session.Happens.call_or_withGate` : an event is a call, or it moves nothing but the gate.
* `Session.exists_passes_of_performAll`, `Session.Passes.performAll` : sessions are passages.
* `Session.Passes.invariant`, `Session.Passes.foldl` : what every event keeps, every passage keeps.
* `Session.exists_passes_of_trail` : a session that is computed is a passage.
-/

namespace TraceAtlas

/-- A gate that is put in place is the gate that is there, in place of the one before. -/
class LawfulGated (σ : Type) [Gated σ] : Prop where
  gate_withGate : ∀ (s : σ) (g : Gate), Gated.gate (Gated.withGate s g) = g
  withGate_gate : ∀ s : σ, Gated.withGate s (Gated.gate s) = s
  withGate_withGate : ∀ (s : σ) (g g' : Gate),
    Gated.withGate (Gated.withGate s g) g' = Gated.withGate s g'

instance : LawfulGated Gate := ⟨fun _ _ => rfl, fun _ => rfl, fun _ _ _ => rfl⟩

/-- Something that happened in a session. -/
structure Event (κ ρ : Type) where
  step : Step κ
  answer : Answer ρ
  notices : List Notice

namespace Step

variable {κ : Type}

/-- The step has no steps nested in it. -/
def Plain : Step κ → Prop
  | mutate _ | write _ => False
  | _ => True

mutual

/-- The plain steps that a step comes to. -/
def plain : Step κ → List (Step κ)
  | mutate body => setInvalid :: (plainAll body ++ [clearInvalid])
  | write bodies => plainEach bodies
  | step => [step]

/-- The plain steps of steps in a row. -/
def plainAll : List (Step κ) → List (Step κ)
  | [] => []
  | step :: steps => plain step ++ plainAll steps

/-- The plain steps of mutations in a row. -/
def plainEach : List (List (Step κ)) → List (Step κ)
  | [] => []
  | body :: bodies => setInvalid :: (plainAll body ++ clearInvalid :: plainEach bodies)

end

/-- A step that is not nested comes to itself. -/
theorem plain_of_plain {step : Step κ} (h : step.Plain) : step.plain = [step] := by
  cases step with
  | mutate body => exact h.elim
  | write bodies => exact h.elim
  | _ => simp [plain]

end Step

namespace Session

variable {κ ρ σ : Type} [Gated σ] {answer : κ → σ → Traced (ρ × σ)} {s s' s'' : Session σ}
  {e : Event κ ρ} {events events' : List (Event κ ρ)}

/-! ## (1) One event -/

/-- What an event makes of a session, if calls are answered by `answer`. -/
inductive Happens (answer : κ → σ → Traced (ρ × σ)) : Session σ → Event κ ρ → Session σ → Prop
  | setInvalid {s : Session σ} : ¬s.gate.Invalid →
      Happens answer s ⟨.setInvalid, .done, []⟩ (s.withGate s.gate.step)
  | clearInvalid {s : Session σ} : s.gate.Invalid →
      Happens answer s ⟨.clearInvalid, .done, []⟩ (s.withGate s.gate.step)
  | isInvalid (s : Session σ) :
      Happens answer s ⟨.isInvalid, .flag (decide s.gate.Invalid), []⟩ s
  | read (s : Session σ) (name : String) : Happens answer s
      ⟨.read name, .reader (decide ((s.read name).1.Valid (s.read name).2.gate)), []⟩
      (s.read name).2
  | validate {s : Session σ} {name : String} {guard : ReadGuard} : s.held? name = some guard →
      Happens answer s ⟨.validate name, .flag (decide (guard.Valid s.gate)), []⟩ s
  | validateUnheld {s : Session σ} {name : String} : s.held? name = none →
      Happens answer s ⟨.validate name, .unheld, []⟩ s
  | release {s : Session σ} {name : String} {guard : ReadGuard} : s.held? name = some guard →
      Happens answer s ⟨.release name, .done, []⟩ (s.drop name)
  | releaseUnheld {s : Session σ} {name : String} : s.held? name = none →
      Happens answer s ⟨.release name, .unheld, []⟩ s
  | call {s : Session σ} {k : κ} {reply : ρ} {notices : List Notice} {subject : σ} :
      answer k s.subject = ⟨notices, .ok (reply, subject)⟩ →
      Happens answer s ⟨.call k, .reply reply, notices⟩ { s with subject }

/-- An event is what a step that is not nested comes to. -/
theorem happens_iff : Happens answer s e s' ↔
    e.step.Plain ∧ perform answer e.step s = ⟨e.notices, .ok (e.answer, s')⟩ := by
  constructor
  · rintro (hgate | hgate | _ | _ | hheld | hheld | hheld | hheld | hcall)
    · refine ⟨trivial, ?_⟩
      rw [perform, Gate.setInvalid_eq_mk_ok.2 ⟨hgate, rfl, rfl⟩]
      rfl
    · refine ⟨trivial, ?_⟩
      rw [perform, Gate.clearInvalid_eq_mk_ok.2 ⟨hgate, rfl, rfl⟩]
      rfl
    · exact ⟨trivial, by rw [perform]; rfl⟩
    · exact ⟨trivial, by rw [perform]; rfl⟩
    · exact ⟨trivial, by simp only [perform, hheld]; rfl⟩
    · exact ⟨trivial, by simp only [perform, hheld]; rfl⟩
    · exact ⟨trivial, by simp only [perform, hheld]; rfl⟩
    · exact ⟨trivial, by simp only [perform, hheld]; rfl⟩
    · refine ⟨trivial, ?_⟩
      simp only [perform, hcall]
      simp [Traced.bind_def, Traced.andThen]
  · -- the step tells which event it is, and its outcome the rest
    rintro ⟨hplain, h⟩
    obtain ⟨step, a, notices⟩ := e
    cases step with
    | setInvalid =>
      rw [perform, Traced.bind_eq_mk_ok] at h
      obtain ⟨_, g, _, hgate, hlast, rfl⟩ := h
      obtain ⟨hclear, rfl, rfl⟩ := Gate.setInvalid_eq_mk_ok.1 hgate
      cases hlast
      exact .setInvalid hclear
    | clearInvalid =>
      rw [perform, Traced.bind_eq_mk_ok] at h
      obtain ⟨_, g, _, hgate, hlast, rfl⟩ := h
      obtain ⟨hset, rfl, rfl⟩ := Gate.clearInvalid_eq_mk_ok.1 hgate
      cases hlast
      exact .clearInvalid hset
    | isInvalid =>
      rw [perform] at h
      cases h
      exact .isInvalid s
    | read name =>
      rw [perform] at h
      cases h
      exact .read s name
    | validate name =>
      rw [perform] at h
      split at h
      · cases h
        exact .validateUnheld ‹_›
      · cases h
        exact .validate ‹_›
    | release name =>
      rw [perform] at h
      split at h
      · cases h
        exact .releaseUnheld ‹_›
      · cases h
        exact .release ‹_›
    | mutate body => exact hplain.elim
    | write bodies => exact hplain.elim
    | call k =>
      rw [perform, Traced.bind_eq_mk_ok] at h
      obtain ⟨before, ⟨reply, subject⟩, after, hcall, hlast, rfl⟩ := h
      cases hlast
      rw [List.append_nil]
      exact .call hcall

/-- Dropping a reader moves nothing but the gate. -/
theorem exists_subject_drop [LawfulGated σ] (s : Session σ) (name : String) :
    ∃ g, (s.drop name).subject = Gated.withGate s.subject g := by
  unfold drop
  split
  · exact ⟨s.gate, (LawfulGated.withGate_gate s.subject).symm⟩
  · exact ⟨s.gate.release, rfl⟩

/-- An event is a call, or it leaves what stands behind the gate alone. -/
theorem Happens.call_or_withGate [LawfulGated σ] (h : Happens answer s e s') :
    (∃ k reply, e.step = .call k ∧ e.answer = .reply reply ∧ s'.guards = s.guards ∧
      answer k s.subject = ⟨e.notices, .ok (reply, s'.subject)⟩) ∨
    (∀ k, e.step ≠ .call k) ∧ e.notices = [] ∧ ∃ g, s'.subject = Gated.withGate s.subject g := by
  have hsame : ∃ g, s.subject = Gated.withGate s.subject g :=
    ⟨s.gate, (LawfulGated.withGate_gate s.subject).symm⟩
  cases h with
  | call hcall => exact .inl ⟨_, _, rfl, rfl, rfl, hcall⟩
  | setInvalid _ | clearInvalid _ => exact .inr ⟨by simp, rfl, _, rfl⟩
  | isInvalid | validate _ | validateUnheld _ | releaseUnheld _ =>
    exact .inr ⟨by simp, rfl, hsame⟩
  | release _ => exact .inr ⟨by simp, rfl, s.exists_subject_drop _⟩
  | read name =>
    obtain ⟨g, hg⟩ := (s.withGate s.gate.read.2).exists_subject_drop name
    exact .inr ⟨by simp, rfl, g, hg.trans (LawfulGated.withGate_withGate _ _ _)⟩

/-! ## (2) Events in a row -/

/-- What events in a row make of a session. -/
inductive Passes (answer : κ → σ → Traced (ρ × σ)) :
    Session σ → List (Event κ ρ) → Session σ → Prop
  | nil (s : Session σ) : Passes answer s [] s
  | cons {s s₁ s₂ : Session σ} {e : Event κ ρ} {events : List (Event κ ρ)} :
      Happens answer s e s₁ → Passes answer s₁ events s₂ → Passes answer s (e :: events) s₂

/-- One event is events in a row. -/
theorem Happens.passes (h : Happens answer s e s') : Passes answer s [e] s' := .cons h (.nil _)

namespace Passes

/-- The first of events in a row leads to a session, and the others go on from it. -/
theorem exists_of_cons (h : Passes answer s (e :: events) s') :
    ∃ s₁, Happens answer s e s₁ ∧ Passes answer s₁ events s' := by
  cases h with
  | cons he hrest => exact ⟨_, he, hrest⟩

/-- Events in a row and then more of them are events in a row. -/
theorem append (h : Passes answer s events s') (h' : Passes answer s' events' s'') :
    Passes answer s (events ++ events') s'' := by
  induction h with
  | nil s => exact h'
  | cons he _ ih => exact .cons he (ih h')

/-- Between any two events there is a moment. -/
theorem exists_of_append (h : Passes answer s (events ++ events') s'') :
    ∃ s', Passes answer s events s' ∧ Passes answer s' events' s'' := by
  induction events generalizing s with
  | nil => exact ⟨s, .nil s, h⟩
  | cons e events ih =>
    obtain ⟨s₁, he, hrest⟩ := h.exists_of_cons
    obtain ⟨s', hpasses, hpasses'⟩ := ih hrest
    exact ⟨s', .cons he hpasses, hpasses'⟩

/-- What each of the events keeps, events in a row keep. -/
theorem invariant {I : Session σ → Prop} (h : Passes answer s events s') (hs : I s)
    (hkeep : ∀ {s e s'}, e ∈ events → I s → Happens answer s e s' → I s') : I s' := by
  induction h with
  | nil s => exact hs
  | cons he _ ih =>
    exact ih (hkeep List.mem_cons_self hs he) fun hmem => hkeep (List.mem_cons_of_mem _ hmem)

/-- A relation between the session and an account of the events so far is kept by events in a row if
every event keeps it. -/
theorem foldl {α : Type} {I : α → Session σ → Prop} {next : α → Event κ ρ → α} {a : α}
    (h : Passes answer s events s') (hs : I a s)
    (hkeep : ∀ {a s e s'}, I a s → Happens answer s e s' → I (next a e) s') :
    I (events.foldl next a) s' := by
  induction h generalizing a with
  | nil s => exact hs
  | cons he _ ih => exact ih (hkeep hs he)

/-- A session that performs the steps of events in a row passes through them. -/
theorem performAll (h : Passes answer s events s') :
    performAll answer (events.map (·.step)) s =
      ⟨events.flatMap (·.notices), .ok (events.map (·.answer), s')⟩ := by
  induction h with
  | nil s => rw [List.map_nil, Session.performAll]; rfl
  | cons he _ ih =>
    obtain ⟨-, hstep⟩ := happens_iff.1 he
    rw [List.map_cons, Session.performAll, hstep]
    simp [Traced.bind_def, Traced.andThen, ih]

end Passes

/-! ## (3) Nested steps -/

/-- A step that is not nested is one event. -/
theorem exists_passes_of_plain {step : Step κ} {a : Answer ρ} {notices : List Notice}
    (hplain : step.Plain) (h : perform answer step s = ⟨notices, .ok (a, s')⟩) :
    ∃ events, Passes answer s events s' ∧ events.map (·.step) = step.plain ∧
      events.flatMap (·.notices) = notices := by
  have hevent : Happens answer s ⟨step, a, notices⟩ s' := happens_iff.2 ⟨hplain, h⟩
  exact ⟨_, hevent.passes, by simp [Step.plain_of_plain hplain], by simp⟩

/-- A mutation around events sets the gate before them and clears it after them. -/
theorem Passes.inside (hclear : ¬s.gate.Invalid)
    (h : Passes answer (s.withGate s.gate.step) events s') (hset : s'.gate.Invalid) :
    Passes answer s (⟨.setInvalid, .done, []⟩ :: (events ++ [⟨.clearInvalid, .done, []⟩]))
      (s'.withGate s'.gate.step) :=
  .cons (.setInvalid hclear) (h.append (Happens.clearInvalid hset).passes)

mutual

/-- What a step comes to is events in a row. -/
theorem exists_passes_of_perform : ∀ (step : Step κ) {s s' : Session σ} {a : Answer ρ}
    {notices : List Notice}, perform answer step s = ⟨notices, .ok (a, s')⟩ →
    ∃ events, Passes answer s events s' ∧ events.map (·.step) = step.plain ∧
      events.flatMap (·.notices) = notices
  | .mutate body, s, s', a, notices, h => by
    simp only [perform, Traced.bind_eq_mk_ok] at h
    obtain ⟨_, g, _, hgate, ⟨inner, ⟨answers, s₁⟩, _, hbody, ⟨_, g', _, hgate', hlast, rfl⟩, rfl⟩,
      rfl⟩ := h
    -- the gate was clear before the body and is cleared behind it, which are two events more
    obtain ⟨hclear, rfl, rfl⟩ := Gate.setInvalid_eq_mk_ok.1 hgate
    obtain ⟨hset, rfl, rfl⟩ := Gate.clearInvalid_eq_mk_ok.1 hgate'
    cases hlast
    obtain ⟨events, hpasses, hsteps, hnotices⟩ := exists_passes_of_performAll body hbody
    exact ⟨_, hpasses.inside hclear hset, by simp [Step.plain, hsteps], by simp [hnotices]⟩
  | .write bodies, s, s', a, notices, h => by
    simp only [perform, Traced.bind_eq_mk_ok] at h
    obtain ⟨inner, ⟨answers, s₁⟩, _, hbodies, hlast, rfl⟩ := h
    cases hlast
    obtain ⟨events, hpasses, hsteps, hnotices⟩ := exists_passes_of_performEach bodies hbodies
    exact ⟨events, hpasses, by simp [Step.plain, hsteps], by simp [hnotices]⟩
  | .setInvalid, _, _, _, _, h => exists_passes_of_plain trivial h
  | .clearInvalid, _, _, _, _, h => exists_passes_of_plain trivial h
  | .isInvalid, _, _, _, _, h => exists_passes_of_plain trivial h
  | .read _, _, _, _, _, h => exists_passes_of_plain trivial h
  | .validate _, _, _, _, _, h => exists_passes_of_plain trivial h
  | .release _, _, _, _, _, h => exists_passes_of_plain trivial h
  | .call _, _, _, _, _, h => exists_passes_of_plain trivial h

/-- What steps in a row come to is events in a row. -/
theorem exists_passes_of_performAll : ∀ (steps : List (Step κ)) {s s' : Session σ}
    {answers : List (Answer ρ)} {notices : List Notice},
    performAll answer steps s = ⟨notices, .ok (answers, s')⟩ →
    ∃ events, Passes answer s events s' ∧ events.map (·.step) = Step.plainAll steps ∧
      events.flatMap (·.notices) = notices
  | [], s, s', answers, notices, h => by
    rw [performAll] at h
    cases h
    exact ⟨[], .nil s, by simp [Step.plainAll], rfl⟩
  | step :: steps, s, s', answers, notices, h => by
    simp only [performAll, Traced.bind_eq_mk_ok] at h
    obtain ⟨_, ⟨a, s₁⟩, _, hstep, ⟨_, ⟨rest, s₂⟩, _, hsteps, hlast, rfl⟩, rfl⟩ := h
    cases hlast
    obtain ⟨events, hpasses, hplain, rfl⟩ := exists_passes_of_perform step hstep
    obtain ⟨events', hpasses', hplain', rfl⟩ := exists_passes_of_performAll steps hsteps
    exact ⟨_, hpasses.append hpasses', by simp [Step.plainAll, hplain, hplain'], by simp⟩

/-- What mutations in a row come to is events in a row. -/
theorem exists_passes_of_performEach : ∀ (bodies : List (List (Step κ))) {s s' : Session σ}
    {answers : List (Answer ρ)} {notices : List Notice},
    performEach answer bodies s = ⟨notices, .ok (answers, s')⟩ →
    ∃ events, Passes answer s events s' ∧ events.map (·.step) = Step.plainEach bodies ∧
      events.flatMap (·.notices) = notices
  | [], s, s', answers, notices, h => by
    rw [performEach] at h
    cases h
    exact ⟨[], .nil s, by simp [Step.plainEach], rfl⟩
  | body :: bodies, s, s', answers, notices, h => by
    simp only [performEach, Traced.bind_eq_mk_ok] at h
    obtain ⟨_, g, _, hgate, ⟨_, ⟨first, s₁⟩, _, hbody, ⟨_, g', _, hgate', ⟨_, ⟨rest, s₂⟩, _,
      hbodies, hlast, rfl⟩, rfl⟩, rfl⟩, rfl⟩ := h
    obtain ⟨hclear, rfl, rfl⟩ := Gate.setInvalid_eq_mk_ok.1 hgate
    obtain ⟨hset, rfl, rfl⟩ := Gate.clearInvalid_eq_mk_ok.1 hgate'
    cases hlast
    obtain ⟨events, hpasses, hplain, rfl⟩ := exists_passes_of_performAll body hbody
    obtain ⟨events', hpasses', hplain', rfl⟩ := exists_passes_of_performEach bodies hbodies
    refine ⟨_, (hpasses.inside hclear hset).append hpasses', ?_, by simp⟩
    simp [Step.plainEach, hplain, hplain']

end

/-! ## (4) Histories that are computed -/

/-- The events that steps come to, none of them nested, and the session after them; nothing if one
of the steps is a fault. -/
def trail (answer : κ → σ → Traced (ρ × σ)) :
    List (Step κ) → Session σ → Option (List (Event κ ρ) × Session σ)
  | [], s => some ([], s)
  | step :: steps, s =>
    match perform answer step s with
    | ⟨notices, .ok (a, s')⟩ =>
      (trail answer steps s').map fun p => (⟨step, a, notices⟩ :: p.1, p.2)
    | ⟨_, .error _⟩ => none

/-- A session passes through the events of a trail of steps that are not nested. -/
theorem passes_of_trail {steps : List (Step κ)} (hplain : ∀ step ∈ steps, step.Plain)
    (h : trail answer steps s = some (events, s')) : Passes answer s events s' := by
  induction steps generalizing s events with
  | nil =>
    cases h
    exact .nil _
  | cons step steps ih =>
    rw [trail] at h
    split at h
    · rename_i notices a s₁ hstep
      obtain ⟨⟨rest, last⟩, hrest, heq⟩ := Option.map_eq_some_iff.1 h
      obtain ⟨rfl, rfl⟩ := Prod.mk.inj heq
      obtain ⟨hfirst, hplain⟩ := List.forall_mem_cons.1 hplain
      have he : Happens answer s ⟨step, a, notices⟩ s₁ := happens_iff.2 ⟨hfirst, hstep⟩
      exact .cons he (ih hplain hrest)
    · cases h

/-- There is an event for each step of a trail. -/
theorem map_step_of_trail {steps : List (Step κ)} (h : trail answer steps s = some (events, s')) :
    events.map (·.step) = steps := by
  induction steps generalizing s events with
  | nil =>
    cases h
    rfl
  | cons step steps ih =>
    rw [trail] at h
    split at h
    · obtain ⟨⟨rest, last⟩, hrest, heq⟩ := Option.map_eq_some_iff.1 h
      obtain ⟨rfl, rfl⟩ := Prod.mk.inj heq
      exact congrArg (step :: ·) (ih hrest)
    · cases h

/-- What is read off a trail is read off a passage. -/
theorem exists_passes_of_trail {α : Type} (answer : κ → σ → Traced (ρ × σ)) (s : Session σ)
    (steps : List (Step κ)) (hplain : ∀ step ∈ steps, step.Plain)
    (f : List (Event κ ρ) × Session σ → α) (a : α) (h : (trail answer steps s).map f = some a) :
    ∃ events s', Passes answer s events s' ∧ events.map (·.step) = steps ∧ f (events, s') = a := by
  obtain ⟨⟨events, s'⟩, htrail, ha⟩ := Option.map_eq_some_iff.1 h
  exact ⟨events, s', passes_of_trail hplain htrail, map_step_of_trail htrail, ha⟩

end Session

end TraceAtlas
