import TraceAtlas.Session.Shared

/-! # One registry for a process

Nobody has to know whether the process-wide registry is there. As long as only readers have called,
there is none, and they find nothing. The first writer or the first one who sets it up brings it
into being, and from then on the process is a session on that one registry: every call is a step of
it, setting up again is refused, and no call can tell that the registry was not always there.

## Main definitions
* `SharedCall.idle?` : what a call yields without a registry, unless it creates one.
* `SharedCall.step?` : the step that a call is where there is a registry.
* `SharedCall.replies` : the replies of calls from the answers of the registry to their steps.
* `SharedSession.expected` : what the calls of a process yield.

## Main statements
* `SharedSession.answer_of` : one call where there is a registry.
* `SharedSession.run_eq_expected` : whole processes.
-/

namespace TraceAtlas

/-! ## (1) Calls -/

/-- The reply that carries an answer of the registry. -/
def SharedReply.ofAnswer : Answer RegistryReply → SharedReply
  | .flag b => .flag b
  | .reply .done => .done
  | .reply (.added result) => .added result
  | .reply (.region view) => .region view
  | .reply (.depth d) => .depth d
  | .reply (.handle reply) => .handle reply
  | answer => .registry (some answer)

namespace SharedCall

/-- What a call yields in a process without a registry, unless it creates one. -/
def idle? : SharedCall → Option SharedReply
  | isSetUp | isInvalid => some (.flag false)
  | find _ _ => some (.region none)
  | depthAt _ => some (.depth none)
  | handle _ _ => some (.handle .unheld)
  | registry _ => some (.registry none)
  | setUp _ | registerCode _ _ _ | unregisterCode _ | addBlock _ _ _ | clearBlocks _ _
  | freeBlock _ _ => none

/-- The step that a call is where there is a registry. Setting up, and asking whether that is done,
have nothing to do with it any more. -/
def step? : SharedCall → Option (Step RegistryCall)
  | setUp _ | isSetUp => none
  | registerCode start size chain => some (.call (.registerCode start size chain))
  | unregisterCode start => some (.call (.unregisterCode start))
  | addBlock start size depth => some (.call (.addBlock start size depth))
  | clearBlocks start size => some (.call (.clearBlocks start size))
  | freeBlock start stop => some (.call (.freeBlock start stop))
  | find a keepAs => some (.call (.find a keepAs))
  | depthAt a => some (.call (.depthAt a))
  | isInvalid => some .isInvalid
  | handle name call => some (.call (.handle name call))
  | registry step => some step

/-- The reply to a call, given the answer to its step. -/
def reply : SharedCall → Answer RegistryReply → SharedReply
  | registry _, answer => .registry (some answer)
  | _, answer => .ofAnswer answer

/-- The replies to calls where there is a registry, given the answers of the registry to their
steps. Setting up is refused, and that it is done is known. A fault is the last thing that happens.
-/
def replies (given : Surroundings) :
    List SharedCall → List (Traced (Answer RegistryReply)) → List (Traced SharedReply)
  | setUp settings :: calls, answers =>
    match (Tuning.standard given).override settings with
    | .error e => [Traced.fault e]
    | .ok _ => pure (.setUp (.error .alreadySetUp)) :: replies given calls answers
  | isSetUp :: calls, answers => pure (.flag true) :: replies given calls answers
  | call :: calls, answer :: answers =>
    call.reply <$> answer :: match answer.outcome with
      | .error _ => []
      | .ok _ => replies given calls answers
  | _, _ => []

end SharedCall

namespace SharedSession

open SharedCall

variable {given : Surroundings}

/-- A process whose registry, handles and readers are those of a session. -/
def of (w : Session Workbench) : SharedSession :=
  ⟨⟨some w.subject.registry⟩, w.subject.handles, w.guards⟩

/-- What the calls of a process yield in given surroundings: nothing is found until one of them
creates the registry, be it with given settings or with the standard ones, and from then on they
yield what a session on it does. -/
def expected (given : Surroundings) : List SharedCall → List (Traced SharedReply)
  | [] => []
  | .setUp settings :: calls =>
    match (Tuning.standard given).override settings with
    | .error e => [Traced.fault e]
    | .ok t => ⟨[.settingUp t], .ok (.setUp (.ok ()))⟩ ::
        replies given calls (Workbench.run t (calls.filterMap step?))
  | call :: calls =>
    match call.idle? with
    | some reply => pure reply :: expected given calls
    | none => replies given (call :: calls)
        (Workbench.run (.standard given) ((call :: calls).filterMap step?))

/-! ## (2) One call -/

/-- A writer does where there is a registry what he does with the registry. -/
theorem write_of (w : Session Workbench) (f : Registry → Traced Registry) :
    (of w).write given f =
    (fun p => (SharedReply.ofAnswer (.reply p.1), of { w with subject := p.2 })) <$>
      w.subject.write f := by
  simp only [write, SharedRegistry.write, Workbench.write, map_eq_pure_bind, bind_assoc, pure_bind]
  rfl

/-- So does one who adds something. -/
theorem add_of (w : Session Workbench)
    (f : Registry → Traced (Except OutOfMemory Unit × Registry)) : (of w).add given f =
    (fun p => (SharedReply.ofAnswer (.reply p.1), of { w with subject := p.2 })) <$>
      w.subject.add f := by
  simp only [add, SharedRegistry.write, Workbench.add, map_eq_pure_bind, bind_assoc, pure_bind]
  rfl

/-- The gate of the process is that of the registry. -/
theorem invalid_of_iff (w : Session Workbench) : (of w).shared.Invalid ↔ w.gate.Invalid := by
  simp only [SharedRegistry.Invalid, of, Option.some.injEq, exists_eq_left']
  rfl

/-- A call of the registry is a step without anything around it. -/
theorem map_perform_call {β : Type} (k : RegistryCall) (w : Session Workbench)
    (f : Answer RegistryReply × Session Workbench → β) :
    f <$> Session.perform Workbench.answer (.call k) w =
      (fun p => f (.reply p.1, { w with subject := p.2 })) <$> Workbench.answer k w.subject := by
  simp only [Session.perform, map_eq_pure_bind, bind_assoc, pure_bind]

/-- Where there is a registry, a call that is a step of it does what the step does. -/
theorem answer_of {call : SharedCall} {step : Step RegistryCall} (h : call.step? = some step)
    (w : Session Workbench) : answer given call (of w) =
      (fun p => (call.reply p.1, of p.2)) <$> Session.perform Workbench.answer step w := by
  cases call with
  | setUp | isSetUp => cases h
  -- calls that go to the one registry are calls of the session on it
  | registerCode | addBlock =>
    obtain rfl := Option.some.inj h
    rw [map_perform_call]
    exact add_of w _
  | unregisterCode | clearBlocks | freeBlock =>
    obtain rfl := Option.some.inj h
    rw [map_perform_call]
    exact write_of w _
  | find | handle =>
    obtain rfl := Option.some.inj h
    rw [map_perform_call]
    simp only [answer, Workbench.answer, map_eq_pure_bind, bind_assoc, pure_bind]
    rfl
  | depthAt =>
    obtain rfl := Option.some.inj h
    rfl
  | isInvalid =>
    obtain rfl := Option.some.inj h
    simp only [answer, Session.perform, map_pure, decide_eq_decide.2 (invalid_of_iff w)]
    rfl
  | registry step =>
    obtain rfl := Option.some.inj h
    simp only [answer, map_eq_pure_bind]
    rfl

/-- Settings that are at fault are no settings for anybody. -/
theorem answer_setUp_of_error {settings : Tuning.Overrides} {e : Fault}
    (h : (Tuning.standard given).override settings = .error e) (s : SharedSession) :
    answer given (.setUp settings) s = Traced.fault e := by
  simp only [answer, h]
  rfl

/-- Where there is a registry, setting it up is refused and changes nothing. -/
theorem answer_setUp_of {settings : Tuning.Overrides} {t : Tuning}
    (h : (Tuning.standard given).override settings = .ok t) (w : Session Workbench) :
    answer given (.setUp settings) (of w) = pure (.setUp (.error .alreadySetUp), of w) := by
  simp only [answer, h]
  rfl

/-- Where there is none, it creates one with the settings. -/
theorem answer_setUp_start {settings : Tuning.Overrides} {t : Tuning}
    (h : (Tuning.standard given).override settings = .ok t) :
    answer given (.setUp settings) SharedSession.start =
      ⟨[.settingUp t], .ok (.setUp (.ok ()), of (.start (.start t)))⟩ := by
  simp only [answer, h]
  rfl

/-- A first writer finds what he would find if the standard registry had always been there. -/
theorem answer_start_of_writer (given : Surroundings) {call : SharedCall}
    (hidle : call.idle? = none) (hstep : call.step? ≠ none) :
    answer given call SharedSession.start =
      answer given call (of (.start (.start (.standard given)))) := by
  cases call with
  | registerCode | unregisterCode | addBlock | clearBlocks | freeBlock => rfl
  | setUp => exact absurd rfl hstep
  | isSetUp | find | depthAt | isInvalid | handle | registry => cases hidle

/-- Without a registry a call that does not create it finds nothing and changes nothing. -/
theorem answer_start_of_idle {call : SharedCall} {reply : SharedReply}
    (h : call.idle? = some reply) :
    answer given call SharedSession.start = pure (reply, SharedSession.start) := by
  cases call with
  | isSetUp | isInvalid | find | depthAt | handle | registry =>
    obtain rfl := Option.some.inj h
    rfl
  | registerCode | unregisterCode | addBlock | clearBlocks | freeBlock | setUp => cases h

/-! ## (3) Whole processes -/

/-- The reply to a call that is a step carries the answer to it. -/
theorem replies_cons_of_step {call : SharedCall} {step : Step RegistryCall}
    (h : call.step? = some step) (calls : List SharedCall) (answer : Traced (Answer RegistryReply))
    (answers : List (Traced (Answer RegistryReply))) :
    replies given (call :: calls) (answer :: answers) = call.reply <$> answer ::
      match answer.outcome with
      | .error _ => []
      | .ok _ => replies given calls answers := by
  cases call with
  | setUp | isSetUp => cases h
  | _ => rfl

/-- The calls of a process with a registry are a session on it. -/
theorem run_of (calls : List SharedCall) (w : Session Workbench) :
    Traced.run (answer given) calls (of w) =
      replies given calls
        (Traced.run (Session.perform Workbench.answer) (calls.filterMap step?) w) := by
  induction calls generalizing w with
  | nil => rfl
  | cons call calls ih =>
    cases hstep : call.step? with
    | some step =>
      rw [List.filterMap_cons_some hstep, Traced.run, Traced.run, answer_of hstep]
      generalize Session.perform Workbench.answer step w = performed
      obtain ⟨notices, outcome⟩ := performed
      cases outcome with
      | error e =>
        -- the fault is the last thing that happens, be there further answers or none
        rw [replies_cons_of_step hstep]
        rfl
      | ok p =>
        rw [replies_cons_of_step hstep]
        simp only [← ih p.2]
        rfl
    | none =>
      rw [List.filterMap_cons_none hstep, Traced.run]
      cases call with
      | setUp settings =>
        rw [replies]
        cases hsettings : (Tuning.standard given).override settings with
        | error e =>
          rw [answer_setUp_of_error hsettings]
          rfl
        | ok t =>
          rw [answer_setUp_of hsettings]
          simp only [← ih w]
          rfl
      | isSetUp =>
        rw [replies, ← ih w]
        rfl
      | _ => cases hstep

/-- **A process is a session on one registry.** Whatever calls arrive in whatever order, and
whatever the surroundings make of a seed and grant in memory: before the first writer and the first
one who sets the registry up there is none, and readers find nothing and create nothing. Whoever
comes first of those creates it, the writer with the standard settings. From then on all calls yield
what the same calls yield as a session on a fresh registry with these settings, down to the notices
and up to the first fault, and setting up fails and leaves no trace in what follows. -/
theorem run_eq_expected (given : Surroundings) (calls : List SharedCall) :
    run calls given = expected given calls := by
  rw [run]
  induction calls with
  | nil => rfl
  | cons call calls ih =>
    rw [Traced.run]
    -- there is no registry yet, and this call creates it or leaves that to the later ones
    cases hidle : call.idle? with
    | some reply =>
      have hexpected : expected given (call :: calls) = pure reply :: expected given calls := by
        cases call with
        | setUp => cases hidle
        | _ => simp only [expected, hidle]
      rw [hexpected, ← ih, answer_start_of_idle hidle]
      rfl
    | none =>
      cases hstep : call.step? with
      | some step =>
        have hexpected : expected given (call :: calls) = replies given (call :: calls)
            (Workbench.run (.standard given) ((call :: calls).filterMap step?)) := by
          cases call with
          | setUp => cases hstep
          | _ => simp only [expected, hidle]
        have hwriter := answer_start_of_writer given hidle (by rw [hstep]; exact nofun)
        rw [hexpected, Workbench.run, ← run_of, Traced.run, hwriter]
      | none =>
        cases call with
        | setUp settings =>
          rw [expected]
          cases hsettings : (Tuning.standard given).override settings with
          | error e =>
            rw [answer_setUp_of_error hsettings]
            rfl
          | ok t =>
            rw [answer_setUp_start hsettings]
            simp only [Workbench.run, ← run_of]
        | isSetUp => cases hidle
        | _ => cases hstep

/-- A writer creates the registry, be there nothing for him to clear, and setting up comes too late.
-/
example : run [.isSetUp, .clearBlocks 0x1000 0, .isSetUp, .setUp { maxNodes := some 1 }] =
    [pure (.flag false), pure .done, pure (.flag true), pure (.setUp (.error .alreadySetUp))] := rfl

end SharedSession

end TraceAtlas
