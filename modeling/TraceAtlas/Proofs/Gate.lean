import TraceAtlas.Gate

/-! # What the gate does to its sequence number

Setting and clearing add one each, so the number is odd exactly between the two, also where it wraps
around. A mutation that ends well adds two and leaves the readers alone.

## Main statements
* `Gate.invalid_step_iff` : one step turns a clear gate into a set one and back.
* `Gate.outcome_setInvalid`, `Gate.outcome_clearInvalid`, `Gate.outcome_mutate` : the writer's side.
* `Gate.valid_read_iff` : the readers' side.
-/

namespace TraceAtlas

namespace Gate

variable {α : Type}

/-- The gate with its sequence number one further. -/
def step (g : Gate) : Gate := { g with sequence := g.sequence + 1 }

/-- A gate is set exactly if its number is odd. -/
theorem invalid_iff {g : Gate} : g.Invalid ↔ g.sequence.toNat % 2 = 1 := by
  rw [Invalid, ← UInt64.toNat_inj, UInt64.toNat_mod]
  rfl

/-- One step turns a clear gate into a set one and back. -/
@[simp] theorem invalid_step_iff {g : Gate} : g.step.Invalid ↔ ¬g.Invalid := by
  rw [invalid_iff, invalid_iff, step, UInt64.toNat_add, UInt64.toNat_one]
  omega

/-- A gate that was clear is clear again after two steps. -/
theorem not_invalid_step_step {g : Gate} (h : ¬g.Invalid) : ¬g.step.step.Invalid := by
  rwa [invalid_step_iff, invalid_step_iff, Decidable.not_not]

/-- Setting the gate is a fault exactly if it is set. -/
theorem outcome_setInvalid (g : Gate) :
    g.setInvalid.outcome = if g.Invalid then .error .gateAlreadySet else .ok g.step := by
  unfold setInvalid
  split <;> rfl

/-- Clearing it is a fault exactly if it is clear. -/
theorem outcome_clearInvalid (g : Gate) :
    g.clearInvalid.outcome = if g.Invalid then .ok g.step else .error .gateNotSet := by
  unfold clearInvalid
  split <;> rfl

/-- A gate that is set was clear, and moves one step. -/
theorem setInvalid_eq_mk_ok {g g' : Gate} {notices : List Notice} :
    g.setInvalid = ⟨notices, .ok g'⟩ ↔ ¬g.Invalid ∧ notices = [] ∧ g' = g.step := by
  unfold setInvalid
  split
  · simp [Traced.fault, *]
  · simp [pure, step, *, eq_comm]

/-- A gate that is cleared was set, and moves one step. -/
theorem clearInvalid_eq_mk_ok {g g' : Gate} {notices : List Notice} :
    g.clearInvalid = ⟨notices, .ok g'⟩ ↔ g.Invalid ∧ notices = [] ∧ g' = g.step := by
  unfold clearInvalid
  split
  · simp [pure, step, *, eq_comm]
  · simp [Traced.fault, *]

/-- A mutation behind a clear gate ends as its body does. -/
theorem outcome_mutate {g : Gate} (h : ¬g.Invalid) (body : Traced α) :
    (g.mutate body).outcome = body.outcome.map fun a => (a, g.step.step) := by
  have hset : g.setInvalid.outcome = .ok g.step := by rw [outcome_setInvalid, if_neg h]
  have hclear : g.step.clearInvalid.outcome = .ok g.step.step := by
    rw [outcome_clearInvalid, if_pos (invalid_step_iff.2 h)]
  rw [mutate, Traced.outcome_bind_of_ok hset]
  cases hbody : body.outcome with
  | error e => rw [Traced.outcome_bind_of_error hbody]; rfl
  | ok a => rw [Traced.outcome_bind_of_ok hbody, Traced.outcome_bind_of_ok hclear]; rfl

/-- A mutation behind a set gate does not begin. -/
theorem outcome_mutate_of_invalid {g : Gate} (h : g.Invalid) (body : Traced α) :
    (g.mutate body).outcome = .error .gateAlreadySet := by
  have hset : g.setInvalid.outcome = .error .gateAlreadySet := by rw [outcome_setInvalid, if_pos h]
  rw [mutate, Traced.outcome_bind_of_error hset]

/-- A mutation that ends well found the gate clear, and its body ended well. -/
theorem of_outcome_mutate {g g' : Gate} {body : Traced α} {a : α}
    (h : (g.mutate body).outcome = .ok (a, g')) : ¬g.Invalid ∧ body.outcome = .ok a := by
  by_cases hg : g.Invalid
  · rw [outcome_mutate_of_invalid hg] at h
    cases h
  · rw [outcome_mutate hg] at h
    cases hbody : body.outcome with
    | error e =>
      rw [hbody] at h
      cases h
    | ok b =>
      rw [hbody] at h
      exact ⟨hg, congrArg Except.ok (congrArg Prod.fst (Except.ok.inj h))⟩

/-- A mutation that ends well leaves the notices of its body, and the gate two steps further. -/
theorem mutate_eq_mk_ok {g g' : Gate} {body : Traced α} {a : α} {notices : List Notice} :
    g.mutate body = ⟨notices, .ok (a, g')⟩ ↔
      ¬g.Invalid ∧ body = ⟨notices, .ok a⟩ ∧ g' = g.step.step := by
  unfold mutate
  constructor
  · intro h
    simp only [Traced.bind_eq_mk_ok, setInvalid_eq_mk_ok, clearInvalid_eq_mk_ok] at h
    obtain ⟨_, _, _, ⟨hclear, rfl, rfl⟩,
      ⟨_, _, _, hbody, ⟨_, _, _, ⟨-, rfl, rfl⟩, hlast, rfl⟩, rfl⟩, rfl⟩ := h
    cases hlast
    refine ⟨hclear, ?_, rfl⟩
    simpa using hbody
  · rintro ⟨hclear, rfl, rfl⟩
    simp only [Traced.bind_eq_mk_ok, setInvalid_eq_mk_ok, clearInvalid_eq_mk_ok]
    exact ⟨[], g.step, notices, ⟨hclear, rfl, rfl⟩, ⟨notices, a, [], rfl,
      ⟨[], g.step.step, [], ⟨invalid_step_iff.2 hclear, rfl, rfl⟩, rfl, rfl⟩, by simp⟩, rfl⟩

/-- A reader that starts now is valid exactly if the gate is clear. -/
theorem valid_read_iff {g : Gate} : g.read.1.Valid g.read.2 ↔ ¬g.Invalid := by
  have hzero : g.sequence % 2 = 0 ↔ g.sequence.toNat % 2 = 0 := by
    rw [← UInt64.toNat_inj, UInt64.toNat_mod]
    rfl
  have hvalid : g.read.1.Valid g.read.2 ↔ g.sequence % 2 = 0 := and_iff_left rfl
  rw [hvalid, hzero, invalid_iff]
  omega

end Gate

end TraceAtlas
