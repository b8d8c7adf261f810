import TraceAtlas.Proofs.Gate

/-! # Computations side by side

Two runs that differ in something nobody should notice are compared step by step. Their states need
not look alike; what they have in common is a relation that every step keeps, while both answer the
same and stop at the same faults. A coupling is such a relation. Faults that only the first of the
two can come to are lost: nothing is said of what the second makes of them.

## Main definitions
* `Traced.Coupled` : the second of two computations keeps up with the first.
* `Gate.Coupling` : a relation between gates that keeps them set and clear together.

## Main statements
* `Traced.Coupled.bind` : sequences are coupled if their parts are.
* `Gate.Coupling.mutate` : mutations are coupled if their bodies are.
-/

namespace TraceAtlas

/-! ## (1) Computations -/

namespace Traced

variable {α β γ δ : Type} {lost : Fault → Prop} {R R' : α → β → Prop} {S : γ → δ → Prop}
  {x : Traced α} {y : Traced β} {a : α} {b : β}

/-- The second of two computations keeps up with the first. If the first ends well so does the
second, with a value that goes with that of the first; and where the first stops at a fault the
second stops at the same one, unless the fault is lost. -/
def Coupled (lost : Fault → Prop) (R : α → β → Prop) (x : Traced α) (y : Traced β) : Prop :=
  match x.outcome with
  | .ok a => ∃ b, y.outcome = .ok b ∧ R a b
  | .error e => lost e ∨ y.outcome = .error e

namespace Coupled

/-- Computations that end well with related values are coupled. -/
theorem of_ok (hx : x.outcome = .ok a) (hy : y.outcome = .ok b) (h : R a b) :
    Coupled lost R x y := by
  rw [Coupled, hx]
  exact ⟨b, hy, h⟩

/-- Computations that stop at the same fault are coupled. -/
theorem of_error {e : Fault} (hx : x.outcome = .error e) (hy : y.outcome = .error e) :
    Coupled lost R x y := by
  rw [Coupled, hx]
  exact .inr hy

/-- A computation that stops at a lost fault is coupled with any other. -/
theorem of_lost {e : Fault} (hx : x.outcome = .error e) (he : lost e) : Coupled lost R x y := by
  rw [Coupled, hx]
  exact .inl he

/-- Computations are compared by their outcomes alone. -/
theorem of_outcome_eq {x' : Traced α} {y' : Traced β} (h : Coupled lost R x y)
    (hx : x'.outcome = x.outcome) (hy : y'.outcome = y.outcome) : Coupled lost R x' y' := by
  rwa [Coupled, hx, hy]

/-- What is coupled with a computation that ends well ends well. -/
theorem exists_of_ok (h : Coupled lost R x y) (hx : x.outcome = .ok a) :
    ∃ b, y.outcome = .ok b ∧ R a b := by
  rwa [Coupled, hx] at h

/-- What is coupled with one that stops stops at the same fault, unless it is lost. -/
theorem of_outcome_error {e : Fault} (h : Coupled lost R x y) (hx : x.outcome = .error e) :
    lost e ∨ y.outcome = .error e := by
  rwa [Coupled, hx] at h

/-- Computations stay coupled when less is asked of their values. -/
theorem mono (h : Coupled lost R x y) (hR : ∀ a b, R a b → R' a b) : Coupled lost R' x y := by
  cases hx : x.outcome with
  | error e =>
    rw [Coupled, hx]
    exact h.of_outcome_error hx
  | ok a =>
    obtain ⟨b, hy, hab⟩ := h.exists_of_ok hx
    exact of_ok hx hy (hR a b hab)

/-- What comes first is coupled, and what follows is coupled from there. -/
theorem bind {f : α → Traced γ} {g : β → Traced δ} (h : Coupled lost R x y)
    (hfg : ∀ a b, R a b → Coupled lost S (f a) (g b)) : Coupled lost S (x >>= f) (y >>= g) := by
  cases hx : x.outcome with
  | error e =>
    rcases h.of_outcome_error hx with he | hy
    · exact of_lost (outcome_bind_of_error hx f) he
    · exact of_error (outcome_bind_of_error hx f) (outcome_bind_of_error hy g)
  | ok a =>
    obtain ⟨b, hy, hab⟩ := h.exists_of_ok hx
    exact (hfg a b hab).of_outcome_eq (outcome_bind_of_ok hx f) (outcome_bind_of_ok hy g)

end Coupled

/-- Related values are coupled. -/
theorem coupled_pure (h : R a b) : Coupled lost R (pure a) (pure b) := ⟨b, rfl, h⟩

/-- What leaves no notice is coupled with itself. -/
theorem coupled_lift (x : Except Fault α) : Coupled lost Eq (lift x) (lift x) := by
  cases x with
  | error e => exact .inr rfl
  | ok a => exact ⟨a, rfl, rfl⟩

/-- Faults are coupled with themselves. -/
theorem coupled_fault (e : Fault) : Coupled lost R (fault e) (fault e) := .inr rfl

/-- Notices are not compared. -/
theorem coupled_note_bind {n n' : Notice} {f : Unit → Traced α} {g : Unit → Traced β}
    (h : Coupled lost R (f ()) (g ())) : Coupled lost R (note n >>= f) (note n' >>= g) :=
  h.of_outcome_eq (outcome_note_bind n f) (outcome_note_bind n' g)

end Traced

/-! ## (2) Gates -/

/-- A relation between gates with the same number, kept by every step of both. -/
structure Gate.Coupling where
  Rel : Gate → Gate → Prop
  sequence : ∀ {g g' : Gate}, Rel g g' → g'.sequence = g.sequence
  step : ∀ {g g' : Gate}, Rel g g' → Rel g.step g'.step

namespace Gate.Coupling

variable {α β γ δ : Type} {lost : Fault → Prop} {R : α → β → Prop} {S : γ → δ → Prop}
  {G : Gate.Coupling} {g g' : Gate}

/-- Gates that are the same. -/
def same : Gate.Coupling where
  Rel g g' := g' = g
  sequence h := congrArg Gate.sequence h
  step h := congrArg Gate.step h

/-- Gates with the same number, whoever reads behind them. -/
def sequences : Gate.Coupling where
  Rel g g' := g'.sequence = g.sequence
  sequence h := h
  step h := congrArg (· + 1) h

/-- Coupled gates are set and clear together. -/
theorem invalid_iff (h : G.Rel g g') : g'.Invalid ↔ g.Invalid := by
  rw [Gate.Invalid, Gate.Invalid, G.sequence h]

/-- Setting coupled gates is coupled. -/
theorem setInvalid (h : G.Rel g g') : Traced.Coupled lost G.Rel g.setInvalid g'.setInvalid := by
  have hout := g.outcome_setInvalid
  have hout' := g'.outcome_setInvalid
  simp only [invalid_iff h] at hout'
  by_cases hg : g.Invalid
  · rw [if_pos hg] at hout hout'
    exact .of_error hout hout'
  · rw [if_neg hg] at hout hout'
    exact .of_ok hout hout' (G.step h)

/-- So is clearing them. -/
theorem clearInvalid (h : G.Rel g g') :
    Traced.Coupled lost G.Rel g.clearInvalid g'.clearInvalid := by
  have hout := g.outcome_clearInvalid
  have hout' := g'.outcome_clearInvalid
  simp only [invalid_iff h] at hout'
  by_cases hg : g.Invalid
  · rw [if_pos hg] at hout hout'
    exact .of_ok hout hout' (G.step h)
  · rw [if_neg hg] at hout hout'
    exact .of_error hout hout'

/-- Mutations are coupled if their bodies are. -/
theorem mutate (h : G.Rel g g') {body : Traced α} {body' : Traced β}
    (hbody : Traced.Coupled lost R body body') :
    Traced.Coupled lost (fun p q => R p.1 q.1 ∧ G.Rel p.2 q.2) (g.mutate body)
      (g'.mutate body') := by
  refine (setInvalid h).bind fun g₁ g₁' h₁ => hbody.bind fun a b hab => ?_
  refine (clearInvalid h₁).bind fun g₂ g₂' h₂ => ?_
  exact Traced.coupled_pure ⟨hab, h₂⟩

end Gate.Coupling

end TraceAtlas
