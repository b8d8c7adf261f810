import TraceAtlas.Notice

/-! # Traced computations

A step of an atlas leaves notices behind and either ends with a value or stops at a fault. The
notices before a fault remain; nothing after it happens.

## Main definitions
* `Traced` : the notices and the outcome, a lawful monad.
* `Traced.note`, `Traced.fault`, `Traced.lift` : one notice, a fault, a computation without notices.
* `Traced.run` : a list of steps on a state, each with its own outcome, up to the first fault.
-/

namespace TraceAtlas

/-- What happened, and how it ended. -/
structure Traced (α : Type) where
  notices : List Notice
  outcome : Except Fault α

namespace Traced

variable {α β σ : Type}

/-! ## (1) The monad -/

/-- Goes on with the value of `x`, if there is one. -/
def andThen (x : Traced α) (f : α → Traced β) : Traced β :=
  match x.outcome with
  | .error e => ⟨x.notices, .error e⟩
  | .ok a => ⟨x.notices ++ (f a).notices, (f a).outcome⟩

instance : Monad Traced where
  pure a := ⟨[], .ok a⟩
  bind := andThen

/-- A value leaves no notice. -/
@[simp] theorem notices_pure (a : α) : (pure a : Traced α).notices = [] := rfl

/-- A value ends well. -/
@[simp] theorem outcome_pure (a : α) : (pure a : Traced α).outcome = .ok a := rfl

/-- What it means to go on with what a computation yields. -/
theorem bind_def (x : Traced α) (f : α → Traced β) : (x >>= f) = x.andThen f := rfl

/-- A sequence ends well exactly if both parts do. -/
theorem outcome_bind_eq_ok {x : Traced α} {f : α → Traced β} {b : β} :
    (x >>= f).outcome = .ok b ↔ ∃ a, x.outcome = .ok a ∧ (f a).outcome = .ok b := by
  rw [bind_def, andThen]
  cases x.outcome <;> simp

/-- What follows a computation that ends well decides how the whole ends. -/
theorem outcome_bind_of_ok {x : Traced α} {a : α} (h : x.outcome = .ok a) (f : α → Traced β) :
    (x >>= f).outcome = (f a).outcome := by
  rw [bind_def, andThen, h]

/-- A fault ends the whole. -/
theorem outcome_bind_of_error {x : Traced α} {e : Fault} (h : x.outcome = .error e)
    (f : α → Traced β) : (x >>= f).outcome = .error e := by
  rw [bind_def, andThen, h]

/-- What a sequence that ends well comes to is what its parts come to, with their notices in a row.
-/
theorem bind_eq_mk_ok {x : Traced α} {f : α → Traced β} {notices : List Notice} {b : β} :
    x >>= f = ⟨notices, .ok b⟩ ↔ ∃ before a after, x = ⟨before, .ok a⟩ ∧ f a = ⟨after, .ok b⟩ ∧
      before ++ after = notices := by
  obtain ⟨before, outcome⟩ := x
  rw [bind_def, andThen]
  cases outcome with
  | error e => simp
  | ok a =>
    constructor
    · intro h
      obtain ⟨hnotices, houtcome⟩ := Traced.mk.inj h
      exact ⟨before, a, (f a).notices, rfl, by rw [← houtcome], hnotices⟩
    · rintro ⟨before, a, after, hx, hf, rfl⟩
      obtain ⟨rfl, ha⟩ := Traced.mk.inj hx
      obtain rfl := Except.ok.inj ha
      simp only [hf]

/-- What is read off the outcome of a step that ended well is read off its value. -/
theorem exists_of_map_eq_ok {x : Traced α} {f : α → β} {b : β} (h : x.outcome.map f = .ok b) :
    ∃ a, x.outcome = .ok a ∧ f a = b := by
  cases hx : x.outcome with
  | error e =>
    rw [hx] at h
    cases h
  | ok a =>
    rw [hx] at h
    exact ⟨a, rfl, Except.ok.inj h⟩

/-- Doing nothing with what a computation yields leaves it as it is. -/
private theorem id_map_traced (x : Traced α) : id <$> x = x := by
  obtain ⟨ns, o⟩ := x
  cases o <;> simp [Functor.map, andThen]

/-- It does not matter how computations in a row are bracketed. -/
private theorem bind_assoc_traced {γ : Type} (x : Traced α) (f : α → Traced β) (g : β → Traced γ) :
    x >>= f >>= g = x >>= fun a => f a >>= g := by
  obtain ⟨ns, o⟩ := x
  cases o with
  | error e => rfl
  | ok a =>
    simp only [Bind.bind, andThen]
    cases h : (f a).outcome <;> simp [List.append_assoc]

instance : LawfulMonad Traced :=
  LawfulMonad.mk' Traced id_map_traced (fun _ _ => rfl) bind_assoc_traced

/-! ## (2) Single steps -/

/-- Leaves one notice behind. -/
def note (n : Notice) : Traced Unit := ⟨[n], .ok ()⟩

/-- Stops at a fault. -/
def fault (e : Fault) : Traced α := ⟨[], .error e⟩

/-- A computation that leaves no notice. -/
def lift (x : Except Fault α) : Traced α := ⟨[], x⟩

/-- A notice changes no outcome. -/
@[simp] theorem outcome_note_bind (n : Notice) (f : Unit → Traced β) :
    (note n >>= f).outcome = (f ()).outcome := rfl

/-- What ends well behind a notice does so with the notice in front. -/
theorem note_bind_eq_mk_ok {n : Notice} {f : Unit → Traced β} {notices : List Notice} {b : β} :
    note n >>= f = ⟨notices, .ok b⟩ ↔ ∃ after, f () = ⟨after, .ok b⟩ ∧ n :: after = notices := by
  rw [bind_eq_mk_ok]
  constructor
  · rintro ⟨_, ⟨⟩, after, hnote, hf, hnotices⟩
    cases hnote
    exact ⟨after, hf, hnotices⟩
  · rintro ⟨after, hf, hnotices⟩
    exact ⟨[n], (), after, rfl, hf, hnotices⟩

/-- The log lines of what happened. -/
def lines (x : Traced α) : List String := x.notices.map Notice.line

/-! ## (3) Runs -/

/-- Performs calls one after the other on a state, and gives what each of them left behind. A fault
is the last thing that happens. -/
def run {κ : Type} (perform : κ → σ → Traced (α × σ)) : List κ → σ → List (Traced α)
  | [], _ => []
  | call :: calls, s =>
    let step := perform call s
    match step.outcome with
    | .error e => [⟨step.notices, .error e⟩]
    | .ok (a, s') => ⟨step.notices, .ok a⟩ :: run perform calls s'

end Traced

end TraceAtlas
