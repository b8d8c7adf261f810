import TraceAtlas.Proofs.Gate
import TraceAtlas.Session.Basic

/-! # Sessions that keep to a law

What a session answers is often said in terms of something simpler than the subject behind the gate.
A law says of each call what it may reply and what it makes of that simpler thing, and when it may
be a fault. It extends to whole sessions: steps on the gate and on held readers pass it by, nested
steps count one after the other. If every call on the subject keeps to the law, every session does.

## Main definitions
* `CallLaw` : what calls may do.
* `CallLaw.Performs`, `CallLaw.Faults` : what a step may come to, nested steps included.
* `CallLaw.Conforms` : what a list of steps may come to, up to the first fault.
* `CallLaw.Abstracts` : each call on a subject keeps to the law.

## Main statements
* `CallLaw.Abstracts.conforms_run` : then so does every session.
-/

namespace TraceAtlas

/-- What calls may do to something: `reply m call r m'` says that `call` may reply `r` and make `m'`
of `m`, and `fault m call e` that it may stop at the fault `e`. -/
structure CallLaw (κ ρ μ : Type) where
  reply : μ → κ → ρ → μ → Prop
  fault : μ → κ → Fault → Prop

namespace CallLaw

variable {κ ρ μ : Type} (L : CallLaw κ ρ μ)

mutual

/-- What a step may answer, and make of what the law is about and of the gate, which is set or
clear. -/
inductive Performs : μ → Bool → Step κ → Answer ρ → μ → Bool → Prop
  | setInvalid (m : μ) : Performs m false .setInvalid .done m true
  | clearInvalid (m : μ) : Performs m true .clearInvalid .done m false
  | isInvalid (m : μ) (b : Bool) : Performs m b .isInvalid (.flag b) m b
  | read (m : μ) (b valid : Bool) (name : String) :
      Performs m b (.read name) (.reader valid) m b
  | validate (m : μ) (b valid : Bool) (name : String) :
      Performs m b (.validate name) (.flag valid) m b
  | validateUnheld (m : μ) (b : Bool) (name : String) :
      Performs m b (.validate name) .unheld m b
  | release (m : μ) (b : Bool) (name : String) : Performs m b (.release name) .done m b
  | releaseUnheld (m : μ) (b : Bool) (name : String) : Performs m b (.release name) .unheld m b
  | mutate {m m' : μ} {body : List (Step κ)} {answers : List (Answer ρ)} :
      PerformsAll m true body answers m' true →
      Performs m false (.mutate body) (.all answers) m' false
  | write {m m' : μ} {b b' : Bool} {bodies : List (List (Step κ))} {answers : List (Answer ρ)} :
      PerformsEach m b bodies answers m' b' → Performs m b (.write bodies) (.all answers) m' b'
  | call {m m' : μ} {b : Bool} {k : κ} {r : ρ} :
      L.reply m k r m' → Performs m b (.call k) (.reply r) m' b

/-- What steps in a row may answer. -/
inductive PerformsAll : μ → Bool → List (Step κ) → List (Answer ρ) → μ → Bool → Prop
  | nil (m : μ) (b : Bool) : PerformsAll m b [] [] m b
  | cons {m₀ m₁ m₂ : μ} {b₀ b₁ b₂ : Bool} {step : Step κ} {steps : List (Step κ)} {a : Answer ρ}
      {answers : List (Answer ρ)} :
      Performs m₀ b₀ step a m₁ b₁ → PerformsAll m₁ b₁ steps answers m₂ b₂ →
      PerformsAll m₀ b₀ (step :: steps) (a :: answers) m₂ b₂

/-- What mutations in a row may answer. -/
inductive PerformsEach : μ → Bool → List (List (Step κ)) → List (Answer ρ) → μ → Bool → Prop
  | nil (m : μ) (b : Bool) : PerformsEach m b [] [] m b
  | cons {m₀ m₁ m₂ : μ} {b : Bool} {body : List (Step κ)} {bodies : List (List (Step κ))}
      {answers rest : List (Answer ρ)} :
      PerformsAll m₀ true body answers m₁ true → PerformsEach m₁ false bodies rest m₂ b →
      PerformsEach m₀ false (body :: bodies) (.all answers :: rest) m₂ b

end

mutual

/-- The faults that a step may stop at. -/
inductive Faults : μ → Bool → Step κ → Fault → Prop
  | setInvalid (m : μ) : Faults m true .setInvalid .gateAlreadySet
  | clearInvalid (m : μ) : Faults m false .clearInvalid .gateNotSet
  | mutate {m : μ} {b : Bool} {body : List (Step κ)} {e : Fault} :
      FaultsInside m b body e → Faults m b (.mutate body) e
  | write {m : μ} {b : Bool} {bodies : List (List (Step κ))} {e : Fault} :
      FaultsEach m b bodies e → Faults m b (.write bodies) e
  | call {m : μ} {b : Bool} {k : κ} {e : Fault} : L.fault m k e → Faults m b (.call k) e

/-- The faults that steps in a row may stop at: one of them is the first. -/
inductive FaultsAll : μ → Bool → List (Step κ) → Fault → Prop
  | head {m : μ} {b : Bool} {step : Step κ} {steps : List (Step κ)} {e : Fault} :
      Faults m b step e → FaultsAll m b (step :: steps) e
  | tail {m m' : μ} {b b' : Bool} {step : Step κ} {steps : List (Step κ)} {a : Answer ρ}
      {e : Fault} : L.Performs m b step a m' b' → FaultsAll m' b' steps e →
      FaultsAll m b (step :: steps) e

/-- The faults that a mutation around some steps may stop at. -/
inductive FaultsInside : μ → Bool → List (Step κ) → Fault → Prop
  | set (m : μ) (body : List (Step κ)) : FaultsInside m true body .gateAlreadySet
  | body {m : μ} {body : List (Step κ)} {e : Fault} :
      FaultsAll m true body e → FaultsInside m false body e
  | clear {m m' : μ} {body : List (Step κ)} {answers : List (Answer ρ)} :
      L.PerformsAll m true body answers m' false → FaultsInside m false body .gateNotSet

/-- The faults that mutations in a row may stop at. -/
inductive FaultsEach : μ → Bool → List (List (Step κ)) → Fault → Prop
  | head {m : μ} {b : Bool} {body : List (Step κ)} {bodies : List (List (Step κ))} {e : Fault} :
      FaultsInside m b body e → FaultsEach m b (body :: bodies) e
  | tail {m m' : μ} {body : List (Step κ)} {bodies : List (List (Step κ))}
      {answers : List (Answer ρ)} {e : Fault} : L.PerformsAll m true body answers m' true →
      FaultsEach m' false bodies e → FaultsEach m false (body :: bodies) e

end

/-- What a list of steps may come to: an outcome for each, up to the first fault. -/
inductive Conforms : μ → Bool → List (Step κ) → List (Traced (Answer ρ)) → Prop
  | nil (m : μ) (b : Bool) : Conforms m b [] []
  | ok {m m' : μ} {b b' : Bool} {step : Step κ} {steps : List (Step κ)} {out : Traced (Answer ρ)}
      {outs : List (Traced (Answer ρ))} {a : Answer ρ} : out.outcome = .ok a →
      L.Performs m b step a m' b' → Conforms m' b' steps outs →
      Conforms m b (step :: steps) (out :: outs)
  | fault {m : μ} {b : Bool} {step : Step κ} {steps : List (Step κ)} {out : Traced (Answer ρ)}
      {e : Fault} : out.outcome = .error e → L.Faults m b step e →
      Conforms m b (step :: steps) [out]

/-! ## Subjects whose calls keep to a law -/

/-- Each call on a subject keeps to the law, as far as the subject is what the law is about, and
leaves the gate as it was; and only calls matter to it. -/
structure Abstracts {σ : Type} [Gated σ] (answer : κ → σ → Traced (ρ × σ)) (R : σ → μ → Prop) :
    Prop where
  gate_withGate : ∀ (s : σ) (g : Gate), Gated.gate (Gated.withGate s g) = g
  withGate : ∀ {s : σ} {m : μ} (g : Gate), R s m → R (Gated.withGate s g) m
  reply : ∀ {s s' : σ} {m : μ} {k : κ} {r : ρ}, R s m → (answer k s).outcome = .ok (r, s') →
    ((Gated.gate s').Invalid ↔ (Gated.gate s).Invalid) ∧ ∃ m', L.reply m k r m' ∧ R s' m'
  fault : ∀ {s : σ} {m : μ} {k : κ} {e : Fault}, R s m → (answer k s).outcome = .error e →
    L.fault m k e

end CallLaw

namespace Session

variable {σ : Type} [Gated σ]

/-- The gate is set. -/
def isSet (s : Session σ) : Bool := decide s.gate.Invalid

end Session

namespace CallLaw

variable {κ ρ μ σ α β : Type} [Gated σ]

/-- What was performed on a session came to what is allowed: to an answer with what the law is about
and the gate in a state that goes with it, or to a fault. -/
def Meets (R : σ → μ → Prop) (answers : α → μ → Bool → Prop) (faults : Fault → Prop) :
    Except Fault (α × Session σ) → Prop
  | .ok (a, s) => ∃ m, answers a m s.isSet ∧ R s.subject m
  | .error e => faults e

/-- What comes first meets its part, and what follows meets the whole from there. -/
theorem Meets.bind {R : σ → μ → Prop} {P : α → μ → Bool → Prop} {Q : β → μ → Bool → Prop}
    {F G : Fault → Prop} {x : Traced (α × Session σ)} {f : α × Session σ → Traced (β × Session σ)}
    (hx : Meets R P F x.outcome) (herr : ∀ e, F e → G e)
    (hf : ∀ a s m, P a m s.isSet → R s.subject m → Meets R Q G (f (a, s)).outcome) :
    Meets R Q G (x >>= f).outcome := by
  cases h : x.outcome with
  | error e =>
    rw [h] at hx
    rw [Traced.outcome_bind_of_error h]
    exact herr e hx
  | ok p =>
    obtain ⟨a, s⟩ := p
    rw [h] at hx
    obtain ⟨m, hP, hR⟩ := hx
    rw [Traced.outcome_bind_of_ok h]
    exact hf a s m hP hR

namespace Abstracts

variable {L : CallLaw κ ρ μ} {answer : κ → σ → Traced (ρ × σ)} {R : σ → μ → Prop}
  {Q : β → μ → Bool → Prop} {G : Fault → Prop}

/-- The state of the gate is what a step on it makes of it. -/
theorem isSet_withGate (h : L.Abstracts answer R) (s : Session σ) (g : Gate) :
    (s.withGate g).isSet = decide g.Invalid := by
  rw [Session.isSet, Session.gate, Session.withGate, h.gate_withGate]

/-- Setting the gate is a fault if it is set, and else goes on with a set gate. -/
theorem meets_setInvalid (h : L.Abstracts answer R) {s : Session σ} {m : μ} (hR : R s.subject m)
    {f : Gate → Traced (β × Session σ)} (hset : s.isSet = true → G .gateAlreadySet)
    (hclear : ∀ g, s.isSet = false → (s.withGate g).isSet = true → R (s.withGate g).subject m →
      Meets R Q G (f g).outcome) :
    Meets R Q G (s.gate.setInvalid >>= f).outcome := by
  by_cases hs : s.gate.Invalid
  · rw [Traced.outcome_bind_of_error (by rw [Gate.outcome_setInvalid, if_pos hs])]
    exact hset (decide_eq_true hs)
  · rw [Traced.outcome_bind_of_ok (by rw [Gate.outcome_setInvalid, if_neg hs])]
    refine hclear _ (decide_eq_false hs) ?_ (h.withGate _ hR)
    rw [h.isSet_withGate]
    exact decide_eq_true (Gate.invalid_step_iff.2 hs)

/-- Clearing the gate is a fault if it is clear, and else goes on with a clear gate. -/
theorem meets_clearInvalid (h : L.Abstracts answer R) {s : Session σ} {m : μ} (hR : R s.subject m)
    {f : Gate → Traced (β × Session σ)} (hclear : s.isSet = false → G .gateNotSet)
    (hset : ∀ g, s.isSet = true → (s.withGate g).isSet = false → R (s.withGate g).subject m →
      Meets R Q G (f g).outcome) :
    Meets R Q G (s.gate.clearInvalid >>= f).outcome := by
  by_cases hs : s.gate.Invalid
  · rw [Traced.outcome_bind_of_ok (by rw [Gate.outcome_clearInvalid, if_pos hs])]
    refine hset _ (decide_eq_true hs) ?_ (h.withGate _ hR)
    rw [h.isSet_withGate]
    exact decide_eq_false fun hn => Gate.invalid_step_iff.1 hn hs
  · rw [Traced.outcome_bind_of_error (by rw [Gate.outcome_clearInvalid, if_neg hs])]
    exact hclear (decide_eq_false hs)

/-- Dropping a reader changes neither the gate's state nor what the law is about. -/
theorem drop (h : L.Abstracts answer R) {s : Session σ} {m : μ} (hR : R s.subject m)
    (name : String) : (s.drop name).isSet = s.isSet ∧ R (s.drop name).subject m := by
  unfold Session.drop
  split
  · exact ⟨rfl, hR⟩
  · exact ⟨h.isSet_withGate s _, h.withGate _ hR⟩

/-- Taking a reader changes neither the gate's state nor what the law is about. -/
theorem read (h : L.Abstracts answer R) {s : Session σ} {m : μ} (hR : R s.subject m)
    (name : String) : (s.read name).2.isSet = s.isSet ∧ R (s.read name).2.subject m := by
  have hread : (s.withGate s.gate.read.2).isSet = s.isSet := h.isSet_withGate s _
  obtain ⟨hset, hR'⟩ := h.drop (s := s.withGate s.gate.read.2) (h.withGate _ hR) name
  exact ⟨hset.trans hread, hR'⟩

mutual

/-- A step meets what the law allows for it. -/
theorem perform (h : L.Abstracts answer R) : ∀ (step : Step κ) {s : Session σ} {m : μ},
    R s.subject m → Meets R (L.Performs m s.isSet step) (L.Faults m s.isSet step)
      (Session.perform answer step s).outcome
  | .setInvalid, s, m, hR => by
    rw [Session.perform]
    refine h.meets_setInvalid hR (fun hs => hs ▸ .setInvalid m) fun g hs hg hR' => ⟨m, ?_, hR'⟩
    rw [hs, hg]
    exact .setInvalid m
  | .clearInvalid, s, m, hR => by
    rw [Session.perform]
    refine h.meets_clearInvalid hR (fun hs => hs ▸ .clearInvalid m) fun g hs hg hR' => ⟨m, ?_, hR'⟩
    rw [hs, hg]
    exact .clearInvalid m
  | .isInvalid, s, m, hR => by
    rw [Session.perform]
    exact ⟨m, .isInvalid m s.isSet, hR⟩
  | .read name, s, m, hR => by
    obtain ⟨hset, hR'⟩ := h.read hR name
    rw [Session.perform]
    refine ⟨m, ?_, hR'⟩
    rw [hset]
    exact .read m _ _ name
  | .validate name, s, m, hR => by
    rw [Session.perform]
    split
    · exact ⟨m, .validateUnheld m _ name, hR⟩
    · exact ⟨m, .validate m _ _ name, hR⟩
  | .release name, s, m, hR => by
    rw [Session.perform]
    split
    · exact ⟨m, .releaseUnheld m _ name, hR⟩
    · obtain ⟨hset, hR'⟩ := h.drop hR name
      refine ⟨m, ?_, hR'⟩
      rw [hset]
      exact .release m _ name
  | .mutate body, s, m, hR => by
    rw [Session.perform]
    -- a fault comes from setting the gate, from the steps inside or from clearing the gate again
    refine h.meets_setInvalid hR (fun hs => hs ▸ .mutate (.set m body)) fun g hs hg hR₁ => ?_
    refine (h.performAll body hR₁).bind (fun e he => ?_) fun answers s₂ m₂ hP hR₂ => ?_
    · rw [hs]
      exact .mutate (.body (hg ▸ he))
    · rw [hg] at hP
      refine h.meets_clearInvalid hR₂ (fun hs₂ => ?_) fun g₂ hs₂ hg₂ hR₃ => ⟨m₂, ?_, hR₃⟩
      · rw [hs]
        exact .mutate (.clear (hs₂ ▸ hP))
      · rw [hs, hg₂]
        exact .mutate (hs₂ ▸ hP)
  | .write bodies, s, m, hR => by
    rw [Session.perform]
    refine (h.performEach bodies hR).bind (fun e he => .write he) fun answers s' m' hP hR' => ?_
    exact ⟨m', .write hP, hR'⟩
  | .call k, s, m, hR => by
    rw [Session.perform]
    cases hk : (answer k s.subject).outcome with
    | error e =>
      rw [Traced.outcome_bind_of_error hk]
      exact .call (h.fault hR hk)
    | ok p =>
      obtain ⟨hgate, m', hL, hR'⟩ := h.reply hR hk
      rw [Traced.outcome_bind_of_ok hk]
      refine ⟨m', ?_, hR'⟩
      have hset : Session.isSet { s with subject := p.2 } = s.isSet := decide_eq_decide.2 hgate
      exact hset.symm ▸ .call hL

/-- Steps in a row meet what the law allows for them. -/
theorem performAll (h : L.Abstracts answer R) : ∀ (steps : List (Step κ)) {s : Session σ} {m : μ},
    R s.subject m → Meets R (L.PerformsAll m s.isSet steps) (L.FaultsAll m s.isSet steps)
      (Session.performAll answer steps s).outcome
  | [], s, m, hR => by
    rw [Session.performAll]
    exact ⟨m, .nil m _, hR⟩
  | step :: steps, s, m, hR => by
    rw [Session.performAll]
    refine (h.perform step hR).bind (fun e he => .head he) fun a s₁ m₁ hP hR₁ => ?_
    refine (h.performAll steps hR₁).bind (fun e he => .tail hP he) fun answers s₂ m₂ hPs hR₂ => ?_
    exact ⟨m₂, .cons hP hPs, hR₂⟩

/-- Mutations in a row meet what the law allows for them. -/
theorem performEach (h : L.Abstracts answer R) : ∀ (bodies : List (List (Step κ)))
    {s : Session σ} {m : μ}, R s.subject m →
      Meets R (L.PerformsEach m s.isSet bodies) (L.FaultsEach m s.isSet bodies)
        (Session.performEach answer bodies s).outcome
  | [], s, m, hR => by
    rw [Session.performEach]
    exact ⟨m, .nil m _, hR⟩
  | body :: bodies, s, m, hR => by
    rw [Session.performEach]
    refine h.meets_setInvalid hR (fun hs => hs ▸ .head (.set m body)) fun g hs hg hR₁ => ?_
    refine (h.performAll body hR₁).bind (fun e he => ?_) fun answers s₂ m₂ hP hR₂ => ?_
    · rw [hs]
      exact .head (.body (hg ▸ he))
    · rw [hg] at hP
      refine h.meets_clearInvalid hR₂ (fun hs₂ => ?_) fun g₂ hs₂ hg₂ hR₃ => ?_
      · rw [hs]
        exact .head (.clear (hs₂ ▸ hP))
      · rw [hs₂] at hP
        refine (h.performEach bodies hR₃).bind (fun e he => ?_) fun rest s₄ m₄ hPs hR₄ => ?_
        · rw [hs]
          exact .tail hP (hg₂ ▸ he)
        · rw [hs]
          exact ⟨m₄, .cons hP (hg₂ ▸ hPs), hR₄⟩

end

/-- **Sessions keep to the law that calls keep to**: the outcomes of a list of steps, up to the
first fault, are among those the law allows. -/
theorem conforms_run (h : L.Abstracts answer R) (steps : List (Step κ)) {s : Session σ} {m : μ}
    (hR : R s.subject m) :
    L.Conforms m s.isSet steps (Traced.run (Session.perform answer) steps s) := by
  induction steps generalizing s m with
  | nil => exact .nil m _
  | cons step steps ih =>
    have hstep := h.perform step hR
    rw [Traced.run]
    cases hout : (Session.perform answer step s).outcome with
    | error e =>
      rw [hout] at hstep
      exact .fault rfl hstep
    | ok p =>
      rw [hout] at hstep
      obtain ⟨m', hP, hR'⟩ := hstep
      exact .ok rfl hP (ih hR')

end Abstracts

end CallLaw

end TraceAtlas
