import Mathlib
import TraceAtlas.Proofs.Coupling
import TraceAtlas.Proofs.Session.History

/-! # Sessions side by side

A session is compared with another one that performs the same steps, or the same steps without some
of them. What is known of single steps, that those in both sessions are coupled and that those in
the first alone keep the relation, extends to nested steps and to whole sessions: the second session
answers as the first does where the answers to the steps that are left out are left out as well. If
the first one stops at a fault of a step that is left out, the second one goes on.

## Main definitions
* `Step.without`, `Step.kept` : a step and its answer without the nested steps that are left out.
* `Step.keptOutcomes` : what is left of the outcomes of steps.
* `Session.Accompanies` : single steps keep a relation between two sessions.
* `Session.outcomes` : what steps come to, one after the other.

## Main statements
* `Session.Accompanies.outcomes_eq` : then whole sessions answer alike.
* `Session.Accompanies.outcomes_eq_of_none` : sessions that perform the same steps.
-/

namespace TraceAtlas

/-! ## (1) Leaving steps out -/

namespace Step

section Without

variable {κ ρ : Type} (drops : Step κ → Bool)

mutual

/-- A step without the nested steps that are left out. -/
def without : Step κ → Step κ
  | mutate body => mutate (withoutAll body)
  | write bodies => write (withoutEach bodies)
  | step => step

/-- Steps in a row without those that are left out. -/
def withoutAll : List (Step κ) → List (Step κ)
  | [] => []
  | step :: steps => if drops step then withoutAll steps else without step :: withoutAll steps

/-- Mutations in a row without the steps that are left out. -/
def withoutEach : List (List (Step κ)) → List (List (Step κ))
  | [] => []
  | body :: bodies => withoutAll body :: withoutEach bodies

end

mutual

/-- The answer of a step without those of the nested steps that are left out. -/
def kept : Step κ → Answer ρ → Answer ρ
  | mutate body, .all answers => .all (keptAll body answers)
  | write bodies, .all answers => .all (keptEach bodies answers)
  | _, a => a

/-- The answers of steps in a row without those of the steps that are left out. -/
def keptAll : List (Step κ) → List (Answer ρ) → List (Answer ρ)
  | step :: steps, a :: answers =>
    if drops step then keptAll steps answers else kept step a :: keptAll steps answers
  | _, answers => answers

/-- The answers of mutations in a row without those of the steps that are left out. -/
def keptEach : List (List (Step κ)) → List (Answer ρ) → List (Answer ρ)
  | body :: bodies, .all answers :: rest => .all (keptAll body answers) :: keptEach bodies rest
  | _ :: bodies, a :: rest => a :: keptEach bodies rest
  | _, answers => answers

end

/-- What is left of the outcomes of steps: neither the answers of steps that are left out, nor a
fault that is lost. -/
def keptOutcomes (lost : Fault → Prop) [DecidablePred lost] :
    List (Step κ) → List (Except Fault (Answer ρ)) → List (Except Fault (Answer ρ))
  | step :: steps, .ok a :: outs =>
    if drops step then keptOutcomes lost steps outs
    else .ok (step.kept drops a) :: keptOutcomes lost steps outs
  | _ :: steps, .error e :: outs =>
    if lost e then keptOutcomes lost steps outs else .error e :: keptOutcomes lost steps outs
  | _, _ => []

/-- Nothing is left of no outcomes. -/
theorem keptOutcomes_nil (lost : Fault → Prop) [DecidablePred lost] (steps : List (Step κ)) :
    keptOutcomes drops lost steps ([] : List (Except Fault (Answer ρ))) = [] := by
  cases steps <;> rfl

/-- Of mutations in a row, each keeps its own answers. -/
theorem keptEach_cons (body : List (Step κ)) (bodies : List (List (Step κ))) (a : Answer ρ)
    (rest : List (Answer ρ)) : keptEach drops (body :: bodies) (a :: rest) =
      kept drops (mutate body) a :: keptEach drops bodies rest := by
  cases a <;> simp [keptEach, kept]

/-- A step that is not nested keeps its answer. -/
theorem kept_of_plain {step : Step κ} (h : step.Plain) (a : Answer ρ) : step.kept drops a = a := by
  cases step with
  | mutate body => exact h.elim
  | write bodies => exact h.elim
  | _ => simp [kept]

/-- A step that is not nested has no steps to be deleted in it. -/
theorem without_of_plain {step : Step κ} (h : step.Plain) : step.without drops = step := by
  cases step with
  | mutate body => exact h.elim
  | write bodies => exact h.elim
  | _ => simp [without]

end Without

/-! Where nothing is left out, everything stays. -/

section Nothing

variable {κ ρ : Type}

mutual

/-- Where no step is deleted, a step stays as it is. -/
theorem without_none : ∀ step : Step κ, step.without (fun _ => false) = step
  | mutate body => by rw [without, withoutAll_none body]
  | write bodies => by rw [without, withoutEach_none bodies]
  | setInvalid | clearInvalid | isInvalid | read _ | validate _ | release _ | call _ => by
    simp [without]

/-- So do steps in a row. -/
theorem withoutAll_none : ∀ steps : List (Step κ), withoutAll (fun _ => false) steps = steps
  | [] => by simp [withoutAll]
  | step :: steps => by simp [withoutAll, without_none step, withoutAll_none steps]

/-- So do mutations in a row. -/
theorem withoutEach_none : ∀ bodies : List (List (Step κ)),
    withoutEach (fun _ => false) bodies = bodies
  | [] => by simp [withoutEach]
  | body :: bodies => by simp [withoutEach, withoutAll_none body, withoutEach_none bodies]

end

mutual

/-- Where no step is deleted, an answer stays as it is. -/
theorem kept_none : ∀ (step : Step κ) (a : Answer ρ), step.kept (fun _ => false) a = a
  | mutate body, a => by
    cases a with
    | all answers => rw [kept, keptAll_none body]
    | _ => simp [kept]
  | write bodies, a => by
    cases a with
    | all answers => rw [kept, keptEach_none bodies]
    | _ => simp [kept]
  | setInvalid, _ | clearInvalid, _ | isInvalid, _ | read _, _ | validate _, _ | release _, _
  | call _, _ => by simp [kept]

/-- So do answers in a row. -/
theorem keptAll_none : ∀ (steps : List (Step κ)) (answers : List (Answer ρ)),
    keptAll (fun _ => false) steps answers = answers
  | [], _ => by simp [keptAll]
  | _ :: _, [] => by simp [keptAll]
  | step :: steps, a :: answers => by simp [keptAll, kept_none step, keptAll_none steps]

/-- So do the answers of mutations in a row. -/
theorem keptEach_none : ∀ (bodies : List (List (Step κ))) (answers : List (Answer ρ)),
    keptEach (fun _ => false) bodies answers = answers
  | [], _ => by simp [keptEach]
  | _ :: _, [] => by simp [keptEach]
  | body :: bodies, a :: rest => by
    rw [keptEach_cons, kept_none (mutate body), keptEach_none bodies]

end

/-- Where no step is deleted and no fault is lost, all outcomes are left. -/
theorem keptOutcomes_none {steps : List (Step κ)} {outs : List (Except Fault (Answer ρ))}
    (h : outs.length ≤ steps.length) :
    keptOutcomes (fun _ => false) (fun _ => False) steps outs = outs := by
  induction steps generalizing outs with
  | nil =>
    rw [List.eq_nil_of_length_eq_zero (Nat.le_zero.1 h)]
    rfl
  | cons step steps ih =>
    cases outs with
    | nil => rfl
    | cons out outs =>
      have hrest := ih (Nat.le_of_succ_le_succ h)
      cases out <;> simp [keptOutcomes, kept_none, hrest]

end Nothing

end Step

/-! ## (2) Single steps and nested ones -/

namespace Session

variable {κ ρ σ : Type} [Gated σ] {answer : κ → σ → Traced (ρ × σ)} {drops : Step κ → Bool}
  {cost : Step κ → Nat} {lost : Fault → Prop} {Q : Nat → Session σ → Session σ → Prop}

/-- A mutation sets the gate, performs its steps and clears the gate. -/
theorem perform_mutate (answer : κ → σ → Traced (ρ × σ)) (body : List (Step κ)) (s : Session σ) :
    perform answer (.mutate body) s = do
      let (_, s) ← perform answer .setInvalid s
      let (answers, s) ← performAll answer body s
      let (_, s) ← perform answer .clearInvalid s
      return (.all answers, s) := by
  simp [perform]

/-- Mutations in a row are performed one after the other. -/
theorem performEach_cons (answer : κ → σ → Traced (ρ × σ)) (body : List (Step κ))
    (bodies : List (List (Step κ))) (s : Session σ) :
    performEach answer (body :: bodies) s = do
      let (first, s) ← perform answer (.mutate body) s
      let (rest, s) ← performEach answer bodies s
      return (first :: rest, s) := by
  simp [perform, performEach]

/-- What steps in a row cost, nested ones included. -/
def costs (cost : Step κ → Nat) (steps : List (Step κ)) : Nat :=
  ((Step.plainAll steps).map cost).sum

/-- No steps cost nothing. -/
theorem costs_nil (cost : Step κ → Nat) : costs cost [] = 0 := by
  simp [costs, Step.plainAll]

/-- Steps in a row cost what the first costs and the others do. -/
theorem costs_cons (cost : Step κ → Nat) (step : Step κ) (steps : List (Step κ)) :
    costs cost (step :: steps) = costs cost steps + (step.plain.map cost).sum := by
  simp only [costs, Step.plainAll, List.map_append, List.sum_append]
  omega

/-- A step that is not nested costs what it costs by itself. -/
theorem cost_of_plain (cost : Step κ → Nat) {step : Step κ} (h : step.Plain) :
    (step.plain.map cost).sum = cost step := by
  rw [Step.plain_of_plain h, List.map_singleton, List.sum_singleton]

/-- A relation between two sessions that single steps keep. It grants a number of further steps, in
terms of what they cost. Steps that are left out are performed by the first session alone; the
others are coupled. -/
structure Accompanies (answer : κ → σ → Traced (ρ × σ)) (drops : Step κ → Bool)
    (cost : Step κ → Nat) (lost : Fault → Prop) (Q : Nat → Session σ → Session σ → Prop) :
    Prop where
  opens : drops .setInvalid = false
  closes : drops .clearInvalid = false
  plain : ∀ {step : Step κ}, drops step = true → step.Plain
  dropped : ∀ (step : Step κ) {n : Nat} {s s' : Session σ}, drops step = true →
    Q (n + cost step) s s' →
      Traced.Coupled lost (fun p _ => Q n p.2 s') (perform answer step s) (pure ())
  kept : ∀ (step : Step κ) {n : Nat} {s s' : Session σ}, step.Plain → drops step = false →
    Q (n + cost step) s s' →
      Traced.Coupled lost (fun p q => p.1 = q.1 ∧ Q n p.2 q.2) (perform answer step s)
        (perform answer step s')

namespace Accompanies

/-- A step that is not nested is kept as it is. -/
theorem perform_of_plain (h : Accompanies answer drops cost lost Q) {step : Step κ} {n : Nat}
    {s s' : Session σ} (hplain : step.Plain) (hdrops : drops step = false)
    (hQ : Q (n + (step.plain.map cost).sum) s s') :
    Traced.Coupled lost (fun p q => step.kept drops p.1 = q.1 ∧ Q n p.2 q.2)
      (Session.perform answer step s) (Session.perform answer (step.without drops) s') := by
  rw [cost_of_plain cost hplain] at hQ
  rw [Step.without_of_plain drops hplain]
  refine (h.kept step hplain hdrops hQ).mono fun p q hpq => ?_
  rwa [Step.kept_of_plain drops hplain]

/-- A mutation is coupled with what is left of it if the steps in it are. -/
theorem perform_mutate_of (h : Accompanies answer drops cost lost Q) {body : List (Step κ)}
    {n : Nat} {s s' : Session σ}
    (hbody : ∀ {m : Nat} {s s' : Session σ}, Q (m + costs cost body) s s' →
      Traced.Coupled lost (fun p q => Step.keptAll drops body p.1 = q.1 ∧ Q m p.2 q.2)
        (performAll answer body s) (performAll answer (Step.withoutAll drops body) s'))
    (hQ : Q (n + cost .clearInvalid + costs cost body + cost .setInvalid) s s') :
    Traced.Coupled lost
      (fun p q => Step.kept drops (.mutate body) p.1 = q.1 ∧ Q n p.2 q.2)
      (Session.perform answer (.mutate body) s)
      (Session.perform answer (.mutate (Step.withoutAll drops body)) s') := by
  rw [perform_mutate, perform_mutate]
  -- what the mutation costs is used up step by step
  refine (h.kept .setInvalid trivial h.opens hQ).bind ?_
  rintro ⟨_, s₁⟩ ⟨_, s₁'⟩ ⟨-, h₁⟩
  refine (hbody h₁).bind ?_
  rintro ⟨answers, s₂⟩ ⟨_, s₂'⟩ ⟨rfl, h₂⟩
  refine (h.kept .clearInvalid trivial h.closes h₂).bind ?_
  rintro ⟨_, s₃⟩ ⟨_, s₃'⟩ ⟨-, h₃⟩
  exact Traced.coupled_pure ⟨by rw [Step.kept], h₃⟩

mutual

/-- A step is coupled with what is left of it. -/
theorem perform (h : Accompanies answer drops cost lost Q) :
    ∀ (step : Step κ) {n : Nat} {s s' : Session σ}, drops step = false →
      Q (n + (step.plain.map cost).sum) s s' →
      Traced.Coupled lost (fun p q => step.kept drops p.1 = q.1 ∧ Q n p.2 q.2)
        (Session.perform answer step s) (Session.perform answer (step.without drops) s')
  | .mutate body, n, s, s', _, hQ => by
    -- a mutation costs what its body costs, and the two steps of the gate around it
    have hcost : n + ((Step.mutate body).plain.map cost).sum =
        n + cost .clearInvalid + costs cost body + cost .setInvalid := by
      simp only [Step.plain, costs, List.map_cons, List.map_append, List.map_nil, List.sum_cons,
        List.sum_append, List.sum_nil]
      omega
    rw [hcost] at hQ
    rw [Step.without]
    exact h.perform_mutate_of (h.performAll body) hQ
  | .write bodies, n, s, s', _, hQ => by
    rw [Step.plain] at hQ
    rw [Step.without, Session.perform, Session.perform]
    refine (h.performEach bodies hQ).bind ?_
    rintro ⟨answers, s₁⟩ ⟨_, s₁'⟩ ⟨rfl, h₁⟩
    exact Traced.coupled_pure ⟨by rw [Step.kept], h₁⟩
  | .setInvalid, _, _, _, hdrops, hQ => h.perform_of_plain trivial hdrops hQ
  | .clearInvalid, _, _, _, hdrops, hQ => h.perform_of_plain trivial hdrops hQ
  | .isInvalid, _, _, _, hdrops, hQ => h.perform_of_plain trivial hdrops hQ
  | .read _, _, _, _, hdrops, hQ => h.perform_of_plain trivial hdrops hQ
  | .validate _, _, _, _, hdrops, hQ => h.perform_of_plain trivial hdrops hQ
  | .release _, _, _, _, hdrops, hQ => h.perform_of_plain trivial hdrops hQ
  | .call _, _, _, _, hdrops, hQ => h.perform_of_plain trivial hdrops hQ

/-- Steps in a row are coupled with what is left of them. -/
theorem performAll (h : Accompanies answer drops cost lost Q) :
    ∀ (steps : List (Step κ)) {n : Nat} {s s' : Session σ}, Q (n + costs cost steps) s s' →
      Traced.Coupled lost (fun p q => Step.keptAll drops steps p.1 = q.1 ∧ Q n p.2 q.2)
        (Session.performAll answer steps s)
        (Session.performAll answer (Step.withoutAll drops steps) s')
  | [], n, s, s', hQ => by
    rw [Step.withoutAll, Session.performAll, Session.performAll]
    exact Traced.coupled_pure ⟨by rw [Step.keptAll]; simp, hQ⟩
  | step :: steps, n, s, s', hQ => by
    rw [costs_cons, ← Nat.add_assoc] at hQ
    rw [Step.withoutAll, Session.performAll]
    by_cases hdrops : drops step = true
    · -- the first session takes this step alone, and goes on to the same steps
      rw [cost_of_plain cost (h.plain hdrops)] at hQ
      rw [if_pos hdrops, ← pure_bind () fun _ =>
        Session.performAll answer (Step.withoutAll drops steps) s']
      refine (h.dropped step hdrops hQ).bind ?_
      rintro ⟨a, s₁⟩ _ h₁
      rw [← bind_pure (Session.performAll answer (Step.withoutAll drops steps) s')]
      refine (h.performAll steps h₁).bind ?_
      rintro ⟨answers, s₂⟩ ⟨_, s₂'⟩ ⟨rfl, h₂⟩
      exact Traced.coupled_pure ⟨by rw [Step.keptAll, if_pos hdrops], h₂⟩
    · rw [if_neg hdrops, Session.performAll]
      rw [Bool.not_eq_true] at hdrops
      refine (h.perform step hdrops hQ).bind ?_
      rintro ⟨a, s₁⟩ ⟨_, s₁'⟩ ⟨rfl, h₁⟩
      refine (h.performAll steps h₁).bind ?_
      rintro ⟨answers, s₂⟩ ⟨_, s₂'⟩ ⟨rfl, h₂⟩
      exact Traced.coupled_pure ⟨by simp [Step.keptAll, hdrops], h₂⟩

/-- Mutations in a row are coupled with what is left of them. -/
theorem performEach (h : Accompanies answer drops cost lost Q) :
    ∀ (bodies : List (List (Step κ))) {n : Nat} {s s' : Session σ},
      Q (n + ((Step.plainEach bodies).map cost).sum) s s' →
      Traced.Coupled lost (fun p q => Step.keptEach drops bodies p.1 = q.1 ∧ Q n p.2 q.2)
        (Session.performEach answer bodies s)
        (Session.performEach answer (Step.withoutEach drops bodies) s')
  | [], n, s, s', hQ => by
    rw [Step.withoutEach, Session.performEach, Session.performEach]
    rw [Step.plainEach] at hQ
    exact Traced.coupled_pure ⟨by simp [Step.keptEach], hQ⟩
  | body :: bodies, n, s, s', hQ => by
    have hcost : n + ((Step.plainEach (body :: bodies)).map cost).sum =
        n + ((Step.plainEach bodies).map cost).sum + cost .clearInvalid + costs cost body +
          cost .setInvalid := by
      simp only [Step.plainEach, costs, List.map_cons, List.map_append, List.sum_cons,
        List.sum_append]
      omega
    rw [hcost] at hQ
    rw [Step.withoutEach, performEach_cons, performEach_cons]
    refine (h.perform_mutate_of (h.performAll body) hQ).bind ?_
    rintro ⟨first, s₁⟩ ⟨_, s₁'⟩ ⟨rfl, h₁⟩
    refine (h.performEach bodies h₁).bind ?_
    rintro ⟨rest, s₂⟩ ⟨_, s₂'⟩ ⟨rfl, h₂⟩
    exact Traced.coupled_pure ⟨Step.keptEach_cons drops body bodies first rest, h₂⟩

end

end Accompanies

/-! ## (3) Whole sessions -/

/-- What steps come to, one after the other, up to the first fault. -/
def outcomes (answer : κ → σ → Traced (ρ × σ)) (steps : List (Step κ)) (s : Session σ) :
    List (Except Fault (Answer ρ)) :=
  (Traced.run (perform answer) steps s).map (·.outcome)

section Outcomes

variable {step : Step κ} {steps : List (Step κ)} {s s₁ : Session σ} {a : Answer ρ} {e : Fault}

/-- A fault is the last outcome. -/
theorem outcomes_cons_of_error (h : (perform answer step s).outcome = .error e) :
    outcomes answer (step :: steps) s = [.error e] := by
  rw [outcomes, Traced.run, h]
  rfl

/-- After a step that ends well come the outcomes of the others. -/
theorem outcomes_cons_of_ok (h : (perform answer step s).outcome = .ok (a, s₁)) :
    outcomes answer (step :: steps) s = .ok a :: outcomes answer steps s₁ := by
  rw [outcomes, Traced.run, h]
  rfl

/-- There is an outcome for each step at most. -/
theorem length_outcomes_le (answer : κ → σ → Traced (ρ × σ)) (steps : List (Step κ))
    (s : Session σ) : (outcomes answer steps s).length ≤ steps.length := by
  induction steps generalizing s with
  | nil => exact Nat.le_refl 0
  | cons step steps ih =>
    cases hout : (perform answer step s).outcome with
    | error e =>
      rw [outcomes_cons_of_error hout]
      exact Nat.succ_le_succ (Nat.zero_le _)
    | ok p =>
      rw [outcomes_cons_of_ok hout]
      exact Nat.succ_le_succ (ih p.2)

end Outcomes

namespace Accompanies

/-- **Sessions answer alike** if single steps do: the outcomes of the second session begin with what
is left of those of the first, and if no fault is lost they are all there is. What steps cost counts
as far as they are performed. -/
theorem outcomes_eq [DecidablePred lost] (h : Accompanies answer drops cost lost Q)
    (steps : List (Step κ)) {n : Nat} {s s' : Session σ}
    (hQ : Q (n + costs cost (steps.take (outcomes answer steps s).length)) s s') :
    ∃ rest, outcomes answer (Step.withoutAll drops steps) s' =
        Step.keptOutcomes drops lost steps (outcomes answer steps s) ++ rest ∧
      ((∀ e, .error e ∈ outcomes answer steps s → ¬lost e) → rest = []) := by
  induction steps generalizing s s' with
  | nil => exact ⟨[], by rw [Step.withoutAll]; rfl, fun _ => rfl⟩
  | cons step steps ih =>
    cases hout : (Session.perform answer step s).outcome with
    | error e =>
      rw [outcomes_cons_of_error hout] at hQ ⊢
      by_cases he : lost e
      · -- the second session goes on where the first one stopped
        refine ⟨outcomes answer (Step.withoutAll drops (step :: steps)) s', ?_, fun hkept => ?_⟩
        · rw [Step.keptOutcomes, if_pos he, Step.keptOutcomes_nil, List.nil_append]
        · exact absurd he (hkept e (by simp))
      · -- a fault that is not lost comes from a step that both sessions take
        have hQ : Q (n + (step.plain.map cost).sum) s s' := by
          simpa [costs_cons, costs_nil] using hQ
        have hdrops : drops step = false := by
          refine Bool.eq_false_iff.2 fun hdrops => he ?_
          rw [cost_of_plain cost (h.plain hdrops)] at hQ
          exact ((h.dropped step hdrops hQ).of_outcome_error hout).resolve_right nofun
        have hout' := ((h.perform step hdrops hQ).of_outcome_error hout).resolve_left he
        refine ⟨[], ?_, fun _ => rfl⟩
        rw [Step.withoutAll, hdrops, if_neg Bool.false_ne_true, outcomes_cons_of_error hout',
          Step.keptOutcomes, if_neg he, Step.keptOutcomes_nil]
        rfl
    | ok p =>
      obtain ⟨a, s₁⟩ := p
      rw [outcomes_cons_of_ok hout] at hQ ⊢
      rw [List.length_cons, List.take_succ_cons, costs_cons, ← Nat.add_assoc] at hQ
      have hkept {rest : List (Except Fault (Answer ρ))}
          (hrest : (∀ e, .error e ∈ outcomes answer steps s₁ → ¬lost e) → rest = [])
          (hall : ∀ e, .error e ∈ .ok a :: outcomes answer steps s₁ → ¬lost e) : rest = [] :=
        hrest fun e he => hall e (List.mem_cons_of_mem _ he)
      by_cases hdrops : drops step = true
      · -- the first session takes this step alone
        rw [cost_of_plain cost (h.plain hdrops)] at hQ
        obtain ⟨_, -, h₁⟩ := (h.dropped step hdrops hQ).exists_of_ok hout
        obtain ⟨rest, hrest, hend⟩ := ih h₁
        refine ⟨rest, ?_, hkept hend⟩
        rw [Step.withoutAll, if_pos hdrops, Step.keptOutcomes, if_pos hdrops, hrest]
      · -- both sessions take this step
        obtain ⟨⟨_, s₁'⟩, hout', rfl, h₁⟩ :=
          (h.perform step (Bool.not_eq_true _ ▸ hdrops) hQ).exists_of_ok hout
        obtain ⟨rest, hrest, hend⟩ := ih h₁
        refine ⟨rest, ?_, hkept hend⟩
        rw [Step.withoutAll, if_neg hdrops, outcomes_cons_of_ok hout', Step.keptOutcomes,
          if_neg hdrops, hrest]
        rfl

/-- Sessions that perform the same steps come to the same. -/
theorem outcomes_eq_of_none
    (h : Accompanies answer (fun _ => false) (fun _ => 0) (fun _ => False) Q)
    (steps : List (Step κ)) {s s' : Session σ} (hQ : Q 0 s s') :
    outcomes answer steps s' = outcomes answer steps s := by
  have hcosts (steps : List (Step κ)) : costs (fun _ => 0) steps = 0 := by simp [costs]
  obtain ⟨rest, hrest, hend⟩ := h.outcomes_eq steps (n := 0) (by rwa [hcosts])
  rw [hend fun _ _ => not_false, List.append_nil, Step.withoutAll_none] at hrest
  rw [hrest, Step.keptOutcomes_none (length_outcomes_le answer steps s)]

end Accompanies

end Session

end TraceAtlas
