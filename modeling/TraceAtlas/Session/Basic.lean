import TraceAtlas.Gate

/-! # Sessions

A session is a sequence of steps on something behind a gate. Readers taken in it are held under
names until they are released, so a step may check or drop a reader that an earlier step registered.
Steps may be nested in a mutation.

## Main definitions
* `Gated` : what stands behind a gate.
* `Step` : a step on the gate, a mutation around further steps, or a call of what the gate guards.
* `Answer` : what a step yields.
* `Session.perform` : a step, given how calls are answered.
-/

namespace TraceAtlas

/-- Something that stands behind a gate. -/
class Gated (σ : Type) where
  /-- The gate. -/
  gate : σ → Gate
  /-- The same thing behind a gate in another state. -/
  withGate : σ → Gate → σ

instance : Gated Gate := ⟨id, fun _ g => g⟩

/-- A step of a session; `κ` are the calls of what the gate guards. -/
inductive Step (κ : Type) where
  /-- Sets the gate. -/
  | setInvalid
  /-- Clears the gate. -/
  | clearInvalid
  /-- Asks whether the gate is set. -/
  | isInvalid
  /-- Takes a reader and holds it under a name. -/
  | read (name : String)
  /-- Asks whether the reader of a name is still valid. -/
  | validate (name : String)
  /-- Drops the reader of a name. -/
  | release (name : String)
  /-- Performs steps with the gate set. -/
  | mutate (body : List (Step κ))
  /-- Performs several mutations in a row as one writer. -/
  | write (bodies : List (List (Step κ)))
  /-- Calls what the gate guards. -/
  | call (k : κ)

/-- What a step yields; `ρ` are the replies to calls. -/
inductive Answer (ρ : Type) where
  | done
  | flag (b : Bool)
  /-- A reader was taken, valid or not. -/
  | reader (valid : Bool)
  /-- The answers of nested steps. -/
  | all (answers : List (Answer ρ))
  | reply (r : ρ)
  /-- No reader is held under the name. -/
  | unheld

/-- Something behind a gate, and the readers that are held by name. -/
structure Session (σ : Type) where
  subject : σ
  guards : List (String × ReadGuard)

namespace Session

variable {κ ρ σ : Type} [Gated σ]

/-- A session without readers. -/
def start (subject : σ) : Session σ := ⟨subject, []⟩

/-- The state of the gate. -/
def gate (s : Session σ) : Gate := Gated.gate s.subject

/-- The session with its gate in another state. -/
def withGate (s : Session σ) (g : Gate) : Session σ :=
  { s with subject := Gated.withGate s.subject g }

/-- The reader held under a name. -/
def held? (s : Session σ) (name : String) : Option ReadGuard := s.guards.lookup name

/-- Drops the reader held under a name, if there is one. -/
def drop (s : Session σ) (name : String) : Session σ :=
  match s.held? name with
  | none => s
  | some _ => { s.withGate s.gate.release with guards := s.guards.filter (·.1 != name) }

/-- Takes a reader and holds it under a name; one held under it before is dropped afterwards. -/
def read (s : Session σ) (name : String) : ReadGuard × Session σ :=
  let (guard, gate) := s.gate.read
  -- the new reader is there before the old one goes, so the gate is never without one in between
  let s := (s.withGate gate).drop name
  (guard, { s with guards := (name, guard) :: s.guards })

mutual

/-- Performs a step; `answer` says how calls are answered. -/
def perform (answer : κ → σ → Traced (ρ × σ)) :
    Step κ → Session σ → Traced (Answer ρ × Session σ)
  | .setInvalid, s => do
    let g ← s.gate.setInvalid
    return (.done, s.withGate g)
  | .clearInvalid, s => do
    let g ← s.gate.clearInvalid
    return (.done, s.withGate g)
  | .isInvalid, s => return (.flag (decide s.gate.Invalid), s)
  | .read name, s =>
    let (guard, s) := s.read name
    return (.reader (decide (guard.Valid s.gate)), s)
  | .validate name, s =>
    match s.held? name with
    | none => return (.unheld, s)
    | some guard => return (.flag (decide (guard.Valid s.gate)), s)
  | .release name, s =>
    match s.held? name with
    | none => return (.unheld, s)
    | some _ => return (.done, s.drop name)
  | .mutate body, s => do
    let g ← s.gate.setInvalid
    let (answers, s) ← performAll answer body (s.withGate g)
    -- the steps inside may have read, so it is the gate that they left that is cleared
    let g ← s.gate.clearInvalid
    return (.all answers, s.withGate g)
  | .write bodies, s => do
    let (answers, s) ← performEach answer bodies s
    return (.all answers, s)
  | .call k, s => do
    let (reply, subject) ← answer k s.subject
    return (.reply reply, { s with subject })

/-- Performs steps one after the other. -/
def performAll (answer : κ → σ → Traced (ρ × σ)) :
    List (Step κ) → Session σ → Traced (List (Answer ρ) × Session σ)
  | [], s => return ([], s)
  | step :: steps, s => do
    let (a, s) ← perform answer step s
    let (as, s) ← performAll answer steps s
    return (a :: as, s)

/-- Performs mutations one after the other. -/
def performEach (answer : κ → σ → Traced (ρ × σ)) :
    List (List (Step κ)) → Session σ → Traced (List (Answer ρ) × Session σ)
  | [], s => return ([], s)
  | body :: bodies, s => do
    let g ← s.gate.setInvalid
    let (answers, s) ← performAll answer body (s.withGate g)
    let g ← s.gate.clearInvalid
    let (rest, s) ← performEach answer bodies (s.withGate g)
    return (.all answers :: rest, s)

end

end Session

end TraceAtlas
