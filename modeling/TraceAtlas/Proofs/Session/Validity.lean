import TraceAtlas.Proofs.Session.Workbench

/-! # Until when a reader is valid

A reader compares the sequence number of the gate with the one it started at. The gate moves one
step when a section begins and one when it ends, and nowhere else. So the number is the old one as
long as no section has begun since, and never again before it has gone once around. Here it is
counted how many sections each event begins. Notices tell of them, but for one case: a region for
which the list of removed regions has no room is announced like any other, and then turned away in
front of the gate.

## Main definitions
* `RegistryCall.Begins` : the calls that begin a section, unless they are turned away.
* `Workbench.TurnsAway` : the calls that are.
* `Workbench.sections`, `Event.sections` : the number of sections that a call or an event begins.
* `Workbench.Spans` : what events in a row make of a session, and how many sections they begin.

## Main statements
* `Workbench.sections_pos_iff` : which calls begin sections.
* `Workbench.Spans.exists_advance` : how far the gate moves.
* `Workbench.valid_iff_no_section_since` : until when readers and handles are valid.
-/

namespace TraceAtlas

/-! ## (1) Calls -/

namespace RegistryCall

/-- A call begins at least one section, whatever its reply, unless it is turned away. -/
def Begins : RegistryCall → Prop
  | registerCode _ _ _ | addRegion _ _ _ | unregisterCode _ | addBlock _ _ _ => True
  | clearRegions _ size | clearBlocks _ size => size ≠ 0
  | registerDepths start stop positions depths =>
    Registry.pieces (stop - start) positions depths ≠ []
  | freeBlock start stop => Address.distance start stop ≠ 0
  | find _ _ | depthAt _ | traceback _ | tracebackInto _ _ | sizes | gate | handle _ _ => False

/-- A call adds a region. -/
def AddsRegion : RegistryCall → Bool
  | registerCode _ _ _ | addRegion _ _ _ => true
  | _ => false

variable {k : RegistryCall} {reply : RegistryReply} {ms : List Mutation}

/-- A call consists of mutations exactly if it is one of those that begin a section. -/
theorem Performs.ne_nil_iff (h : k.Performs reply ms) : ms ≠ [] ↔ k.Begins := by
  cases h.mutating with
  | region hk | turnedAway hk =>
    refine iff_of_true (List.cons_ne_nil _ _) ?_
    rcases hk with rfl | rfl <;> trivial
  | removal | block => exact iff_of_true (List.cons_ne_nil _ _) trivial
  | regions => simp [Mutation.clearingRegions, Begins]
  | blocks => simp [Mutation.clearingBlocks, Begins]
  | pieces => simp [Begins]
  | rollback hn =>
    exact iff_of_true (by simp) (List.ne_nil_of_length_pos (Nat.zero_lt_of_lt hn))
  | code => simp [Mutation.clearingRegions, Mutation.clearingBlocks, Begins]
  | look hk =>
    refine iff_of_false (fun hne => hne rfl) ?_
    cases k <;> first | exact hk.elim | exact id

/-- All mutations of a call set the gate, or it is a region that is turned away. -/
theorem Performs.setsGate_or (h : k.Performs reply ms) :
    (∀ m ∈ ms, m.setsGate = true) ∨ k.AddsRegion = true ∧ ms = [.turnedAway] := by
  have hregions (start size : Address) :
      ∀ m ∈ Mutation.clearingRegions start size, m.setsGate = true := by
    unfold Mutation.clearingRegions
    split <;> simp [Mutation.setsGate]
  have hblocks (start size : Address) :
      ∀ m ∈ Mutation.clearingBlocks start size, m.setsGate = true := by
    unfold Mutation.clearingBlocks
    split <;> simp [Mutation.setsGate]
  have hadding (start : Address) (pieces : List Piece) : ∀ m ∈ pieces.map (fun piece =>
      Mutation.blocks (some (Registry.addPiece start piece))), m.setsGate = true :=
    List.forall_mem_map.2 fun _ _ => rfl
  cases h.mutating with
  | region | removal | block => exact .inl (by simp [Mutation.setsGate])
  | turnedAway hk =>
    refine .inr ⟨?_, rfl⟩
    rcases hk with rfl | rfl <;> rfl
  | regions => exact .inl (hregions _ _)
  | blocks => exact .inl (hblocks _ _)
  | pieces => exact .inl (hadding _ _)
  | rollback =>
    refine .inl (List.forall_mem_append.2 ⟨?_, hblocks _ _⟩)
    exact List.forall_mem_append.2 ⟨hadding _ _, by simp [Mutation.setsGate]⟩
  | code => exact .inl (List.forall_mem_append.2 ⟨hblocks _ _, hregions _ _⟩)
  | look => exact .inl (List.forall_mem_nil _)

end RegistryCall

namespace Workbench

variable {w w' : Workbench} {k : RegistryCall} {reply : RegistryReply} {notices : List Notice}
  {s s' s'' : Session Workbench} {e : Event RegistryCall RegistryReply}
  {events : List (Event RegistryCall RegistryReply)} {n : Nat}

/-- A call adds a region, and the list of removed regions has no room for it. -/
def TurnsAway (w : Workbench) (k : RegistryCall) : Prop :=
  k.AddsRegion = true ∧ w.registry.regions.ListFails

instance (w : Workbench) (k : RegistryCall) : Decidable (w.TurnsAway k) :=
  inferInstanceAs (Decidable (_ ∧ _))

/-- The number of sections that a call begins if it leaves some notices: those they tell of, unless
it is turned away. -/
def sections (w : Workbench) (k : RegistryCall) (notices : List Notice) : Nat :=
  if w.TurnsAway k then 0 else Notice.sectionsIn notices

/-- The workbench after a call that was turned away, which has asked in vain. -/
def afterTurningAway (w : Workbench) : Workbench :=
  { w with registry.regions.asked := w.registry.regions.asked + 1 }

/-- A call that is turned away is refused without a size, and all it leaves is that it asked. -/
theorem outcome_answer_of_turnsAway (h : w.TurnsAway k) :
    (answer k w).outcome = .ok (.added (.error .ofReservation), w.afterTurningAway) := by
  obtain ⟨hadds, hlist⟩ := h
  have hadd (start : Address) (size : UInt32) (chain : Chain) :
      (w.registry.addRegion start size chain).outcome =
        .ok (.error .ofReservation, w.afterTurningAway.registry) := by
    rw [Registry.addRegion, Regions.add_of_listFails hlist]
    rfl
  cases k with
  | registerCode start size chain =>
    have hregister := Registry.outcome_registerCode w.registry start size ⟨chain⟩
    exact Traced.outcome_bind_of_ok (hregister.trans (hadd _ _ _)) _
  | addRegion start size chain => exact Traced.outcome_bind_of_ok (hadd start size ⟨chain⟩) _
  | _ => cases hadds

/-- A call begins as many sections as it consists of mutations, and none if it is turned away. The
gate moves two steps for each. -/
theorem exists_performs_of_answer (h : answer k w = ⟨notices, .ok (reply, w')⟩) :
    ∃ ms, k.Performs reply ms ∧
      w.sections k notices = (if w.TurnsAway k then 0 else ms.length) ∧
      w'.registry.gate.sequence =
        w.registry.gate.sequence + UInt64.ofNat (2 * w.sections k notices) := by
  unfold sections
  split
  · rename_i haway
    have houtcome := outcome_answer_of_turnsAway haway
    rw [h] at houtcome
    obtain ⟨rfl, rfl⟩ := Prod.mk.inj (Except.ok.inj houtcome)
    -- it was turned away in front of the gate, and leaves the notice of a mutation all the same
    refine ⟨[.turnedAway], ?_, rfl, by simp [afterTurningAway]⟩
    cases k with
    | registerCode | addRegion => exact .inr ⟨rfl, rfl⟩
    | _ => cases haway.1
  · rename_i hroom
    by_cases hk : k.Looks
    · obtain ⟨rfl, hlooked⟩ := looked_of_answer hk h
      obtain ⟨readers, hsame⟩ := hlooked.exists_readers
      exact ⟨[], hk.performs reply, rfl, by simp [hsame, Notice.sectionsIn]⟩
    · obtain ⟨-, ms, hms, hworks⟩ := works_of_answer hk h
      have hsets : ∀ m ∈ ms, m.setsGate = true := by
        refine hms.setsGate_or.resolve_right fun ⟨hadds, hturned⟩ => hroom ⟨hadds, ?_⟩
        exact (hturned ▸ hworks.undergoes).listFails
      refine ⟨ms, hms, hworks.sections, ?_⟩
      rw [hworks.undergoes.gate, hworks.sections, List.countP_eq_length.2 hsets]

/-- **Which calls begin sections**: exactly those that change a map or try to, unless they are
turned away. -/
theorem sections_pos_iff (h : answer k w = ⟨notices, .ok (reply, w')⟩) :
    0 < w.sections k notices ↔ k.Begins ∧ ¬w.TurnsAway k := by
  obtain ⟨ms, hms, hsections, -⟩ := exists_performs_of_answer h
  rw [hsections]
  split
  · rename_i haway
    exact iff_of_false (Nat.lt_irrefl 0) fun hbegins => hbegins.2 haway
  · rename_i hroom
    rw [List.length_pos_iff, hms.ne_nil_iff, and_iff_left hroom]

/-- A call that finds the gate clear leaves it clear. -/
theorem clear_of_answer (h : answer k w = ⟨notices, .ok (reply, w')⟩)
    (hclear : ¬w.registry.gate.Invalid) : ¬w'.registry.gate.Invalid := by
  obtain ⟨ms, -, -, hsequence⟩ := exists_performs_of_answer h
  rw [Gate.invalid_iff] at hclear ⊢
  rw [hsequence, UInt64.toNat_add, UInt64.toNat_ofNat']
  omega

end Workbench

/-! ## (2) How far the gate moves -/

/-- The number of sections that an event begins on a workbench: one where the gate is set by hand,
and those of its call otherwise. -/
def Event.sections (w : Workbench) (e : Event RegistryCall RegistryReply) : Nat :=
  match e.step with
  | .setInvalid => 1
  | .call k => w.sections k e.notices
  | _ => 0

namespace Workbench

variable {s s' : Session Workbench} {e : Event RegistryCall RegistryReply}
  {events : List (Event RegistryCall RegistryReply)} {n : Nat}

/-- The gate moves two steps for each section, apart from a section that was begun before or is not
ended yet. -/
theorem exists_advance_of_happens (h : Session.Happens answer s e s') :
    ∃ n, s'.gate.sequence = s.gate.sequence + UInt64.ofNat n ∧
      n + s'.gate.sequence.toNat % 2
        = 2 * e.sections s.subject + s.gate.sequence.toNat % 2 := by
  cases h with
  | setInvalid hclear =>
    refine ⟨1, by rw [Session.gate_withGate]; rfl, ?_⟩
    rw [Gate.invalid_iff] at hclear
    rw [Session.gate_withGate, Gate.step, UInt64.toNat_add, UInt64.toNat_one]
    show 1 + _ = 2 * 1 + _
    omega
  | clearInvalid hset =>
    refine ⟨1, by rw [Session.gate_withGate]; rfl, ?_⟩
    rw [Gate.invalid_iff] at hset
    rw [Session.gate_withGate, Gate.step, UInt64.toNat_add, UInt64.toNat_one]
    show 1 + _ = 2 * 0 + _
    omega
  | isInvalid | validate _ | validateUnheld _ | releaseUnheld _ =>
    exact ⟨0, by simp, by simp [Event.sections]⟩
  | release _ =>
    exact ⟨0, by simp [Session.sequence_drop], by simp [Event.sections, Session.sequence_drop]⟩
  | read name =>
    exact ⟨0, by simp [Session.sequence_read], by simp [Event.sections, Session.sequence_read]⟩
  | call hcall =>
    obtain ⟨ms, -, -, hsequence⟩ := exists_performs_of_answer hcall
    refine ⟨_, hsequence, ?_⟩
    -- an even number of steps keeps the gate set or clear, also where the number wraps around
    simp only [Session.gate, Gated.gate, Event.sections, hsequence, UInt64.toNat_add,
      UInt64.toNat_ofNat']
    omega

/-- Events in a row lead from one session to another and begin some number of sections. -/
inductive Spans : Session Workbench → List (Event RegistryCall RegistryReply) → Nat →
    Session Workbench → Prop
  | nil (s : Session Workbench) : Spans s [] 0 s
  | cons {s s₁ s₂ : Session Workbench} {e : Event RegistryCall RegistryReply}
      {events : List (Event RegistryCall RegistryReply)} {n : Nat} :
      Session.Happens answer s e s₁ → Spans s₁ events n s₂ →
      Spans s (e :: events) (e.sections s.subject + n) s₂

namespace Spans

/-- A span is a passage. -/
theorem passes (h : Spans s events n s') : Session.Passes answer s events s' := by
  induction h with
  | nil s => exact .nil s
  | cons he _ ih => exact .cons he ih

/-- The gate moves two steps for each section of a span. -/
theorem exists_advance (h : Spans s events n s') :
    ∃ m, s'.gate.sequence = s.gate.sequence + UInt64.ofNat m ∧
      m + s'.gate.sequence.toNat % 2 = 2 * n + s.gate.sequence.toNat % 2 := by
  induction h with
  | nil s => exact ⟨0, by simp, by simp⟩
  | cons he _ ih =>
    obtain ⟨m, hfirst, hcount⟩ := exists_advance_of_happens he
    obtain ⟨m', hrest, hcount'⟩ := ih
    refine ⟨m + m', ?_, ?_⟩
    · rw [hrest, hfirst, UInt64.add_assoc, UInt64.ofNat_add]
    · omega

/-- A guard that was taken at some moment is valid later exactly if the gate was clear and no
section has begun, unless there were so many that the number has gone once around. -/
theorem valid_iff {guard : ReadGuard} (hguard : guard.sequence = s.gate.sequence)
    (h : Spans s events n s') (hfew : n < 2 ^ 63) :
    guard.Valid s'.gate ↔ ¬s.gate.Invalid ∧ n = 0 := by
  obtain ⟨m, hsequence, hcount⟩ := h.exists_advance
  rw [ReadGuard.Valid, hguard, Gate.invalid_iff]
  have heven : s.gate.sequence % 2 = 0 ↔ s.gate.sequence.toNat % 2 = 0 := by
    rw [← UInt64.toNat_inj, UInt64.toNat_mod]
    rfl
  have hmoved : s'.gate.sequence = s.gate.sequence ↔ m % 2 ^ 64 = 0 := by
    rw [hsequence, ← UInt64.toNat_inj, UInt64.toNat_add, UInt64.toNat_ofNat']
    have := s.gate.sequence.toNat_lt
    omega
  rw [heven, hmoved]
  omega

end Spans

/-- Every passage is a span. -/
theorem exists_spans_of_passes (h : Session.Passes answer s events s') :
    ∃ n, Spans s events n s' := by
  induction h with
  | nil s => exact ⟨0, .nil s⟩
  | cons he _ ih =>
    obtain ⟨n, hspans⟩ := ih
    exact ⟨_, .cons he hspans⟩

/-- What the list of removed regions has room for is decided from the start. -/
theorem list_of_passes (h : Session.Passes answer s events s') :
    s'.subject.registry.regions.list = s.subject.registry.regions.list := by
  refine h.invariant (I := fun s' => s'.subject.registry.regions.list =
    s.subject.registry.regions.list) rfl ?_
  intro s₁ e s₂ _ hsame he
  rcases cases_of_happens he with ⟨k, reply, ms, -, -, -, -, hworks, -⟩ |
    ⟨k, reply, -, -, -, -, hlooked, -⟩ | ⟨-, -, g, hg⟩
  · exact hworks.undergoes.list_eq.trans hsame
  · obtain ⟨readers, hregistry⟩ := hlooked.exists_readers
    rw [hregistry, hsame]
  · rw [hg]
    exact hsame

/-! ## (3) Readers and handles -/

/-- **Until when readers and handles are valid.** A session, with the steps that are nested in its
mutations, is events in a row, and these begin some number of sections. Take any two moments of it.
A reader that was taken at the first moment and is still held at the second is valid exactly if the
gate was clear when it was taken and no section has begun since, unless there were so many sections
that the number of the gate has gone once around; and a handle that was kept is consistent exactly
then. Each call begins as many sections as it consists of mutations, and moves the gate two steps
for each of them: none if it looks, clears an empty range or frees an empty block, and one at least
otherwise. Only a region for which the list of removed regions has no room is turned away without
one: it is refused without a size, and all that is left of it is that it was asked for. A call that
finds the gate clear leaves it clear, whatever it replies. -/
theorem valid_iff_no_section_since {s₁ : Session Workbench}
    {opening : Event RegistryCall RegistryReply}
    {later : List (Event RegistryCall RegistryReply)}
    (hopening : Session.Happens answer s opening s₁) (hlater : Spans s₁ later n s')
    (hfew : n < 2 ^ 63) :
    (∀ name, opening.step = .read name →
      (∀ e ∈ later, e.step ≠ .read name ∧ e.step ≠ .release name) →
      ∃ valid, Session.perform answer (.validate name) s' = ⟨[], .ok (.flag valid, s')⟩ ∧
        (valid = true ↔ ¬s.gate.Invalid ∧ n = 0)) ∧
    (∀ a name view, opening.step = .call (.find a (some name)) →
      opening.answer = .reply (.region (some view)) → (∀ e ∈ later, ¬e.TakesHandle name) →
      ∃ consistent, Session.perform answer (.call (.handle name .isConsistent)) s' =
          ⟨[], .ok (.reply (.handle (.consistent consistent)), s')⟩ ∧
        (consistent = true ↔ ¬s.gate.Invalid ∧ n = 0)) ∧
    (∀ k w notices reply w', answer k w = ⟨notices, .ok (reply, w')⟩ →
      (∃ ms, k.Performs reply ms ∧
        w.sections k notices = (if w.TurnsAway k then 0 else ms.length) ∧
        w'.registry.gate.sequence =
          w.registry.gate.sequence + UInt64.ofNat (2 * w.sections k notices)) ∧
      (0 < w.sections k notices ↔ k.Begins ∧ ¬w.TurnsAway k) ∧
      (w.TurnsAway k → reply = .added (.error .ofReservation) ∧ w' = w.afterTurningAway) ∧
      (¬w.registry.gate.Invalid → ¬w'.registry.gate.Invalid)) ∧
    ∀ steps notices answers s₀ s₁,
      Session.performAll answer steps s₀ = ⟨notices, .ok (answers, s₁)⟩ →
      ∃ events n, Spans s₀ events n s₁ ∧ events.map (·.step) = Step.plainAll steps ∧
        events.flatMap (·.notices) = notices := by
  -- the session goes on from the number that the reader started at
  have hvalid (hsame : s₁.gate.sequence = s.gate.sequence) :
      ReadGuard.Valid ⟨s.gate.sequence⟩ s'.gate ↔ ¬s.gate.Invalid ∧ n = 0 := by
    have hgate : s₁.gate.Invalid ↔ s.gate.Invalid := by rw [Gate.Invalid, Gate.Invalid, hsame]
    rw [← hgate]
    exact hlater.valid_iff hsame.symm hfew
  refine ⟨?_, ?_, ?_, ?_⟩
  · intro name hstep hkept
    obtain ⟨step, a, notices⟩ := opening
    subst hstep
    cases hopening
    have hheld : s'.held? name = some ⟨s.gate.sequence⟩ := by
      rw [hlater.passes.held?_eq hkept]
      exact s.held?_read name
    refine ⟨decide (ReadGuard.Valid ⟨s.gate.sequence⟩ s'.gate), ?_, ?_⟩
    · simp only [Session.perform, hheld]
      rfl
    · rw [decide_eq_true_iff]
      exact hvalid (s.sequence_read name)
  · intro a name view hstep hanswer hkept
    -- a handle answers with the reader that its lookup registered
    obtain ⟨start, region, -, -, -, -, hfound⟩ := found_of_happens hopening hstep hanswer
    have hheld := (handle_of_passes hlater.passes hkept).trans hfound
    have hsame : s₁.gate.sequence = s.gate.sequence := by
      rcases cases_of_happens hopening with ⟨k, -, -, hk, -, hwrites, -⟩ |
        ⟨k, reply, -, -, -, -, hlooked, -⟩ | ⟨hother, -⟩
      · rw [hstep] at hk
        cases hk
        exact absurd trivial hwrites
      · obtain ⟨readers, hregistry⟩ := hlooked.exists_readers
        exact congrArg (·.gate.sequence) hregistry
      · exact absurd hstep (hother _)
    refine ⟨decide (ReadGuard.Valid ⟨s.gate.sequence⟩ s'.gate), ?_, ?_⟩
    · rw [Session.perform]
      simp only [answer, Handles.answer, hheld]
      rfl
    · rw [decide_eq_true_iff]
      exact hvalid hsame
  · intro k w notices reply w' hanswer
    refine ⟨exists_performs_of_answer hanswer, sections_pos_iff hanswer, fun haway => ?_,
      clear_of_answer hanswer⟩
    have houtcome := outcome_answer_of_turnsAway haway
    rw [hanswer] at houtcome
    exact Prod.mk.inj (Except.ok.inj houtcome)
  · intro steps notices answers s₀ s₁ hsteps
    obtain ⟨events, hpasses, hplain, hnotices⟩ := Session.exists_passes_of_performAll steps hsteps
    obtain ⟨n, hspans⟩ := exists_spans_of_passes hpasses
    exact ⟨events, n, hspans, hplain, hnotices⟩

/-- There is no room for any region in the list of removed ones. A reader outlasts the clear of an
empty range and a region that is turned away, and is no longer valid once a block was added. -/
theorem invalid_after_block_added :
    ∃ (opening : Event RegistryCall RegistryReply) (s₁ : Session Workbench)
      (later : List (Event RegistryCall RegistryReply)) (s : Session Workbench),
      Session.Happens answer (.start (start { regionList := fun _ => false })) opening s₁ ∧
      opening.step = .read "g" ∧ Spans s₁ later 1 s ∧
      later.map (·.step) = [.call (.clearRegions 0x1000 0), .call (.addRegion 0x1000 16 []),
        .call (.addBlock 0x1000 16 2)] ∧
      Session.perform answer (.validate "g") s = ⟨[], .ok (.flag false, s)⟩ := by
  obtain ⟨events, s, h, hsteps, hnotices⟩ := Session.exists_passes_of_trail answer
    (.start (start { regionList := fun _ => false }))
    [.read "g", .call (.clearRegions 0x1000 0), .call (.addRegion 0x1000 16 []),
      .call (.addBlock 0x1000 16 2)]
    (by simp [Step.Plain]) (fun p => p.1.map fun e => Notice.sectionsIn e.notices) [0, 0, 1, 1]
    (by decide +kernel)
  obtain ⟨opening, later, rfl, hopening, hlater⟩ := List.map_eq_cons_iff.1 hsteps
  obtain ⟨clear, rest, rfl, hclear, hrest⟩ := List.map_eq_cons_iff.1 hlater
  obtain ⟨region, rest, rfl, hregion, hrest⟩ := List.map_eq_cons_iff.1 hrest
  obtain ⟨block, rest, rfl, hblock, hrest⟩ := List.map_eq_cons_iff.1 hrest
  obtain rfl := List.map_eq_nil_iff.1 hrest
  simp only [List.map_cons, List.map_nil, List.cons.injEq, and_true] at hnotices
  obtain ⟨-, hnone, -, hone⟩ := hnotices
  obtain ⟨s₁, hfirst, hpasses⟩ := h.exists_of_cons
  obtain ⟨s₂, hcleared, hpasses₂⟩ := hpasses.exists_of_cons
  obtain ⟨s₃, hturned, hpasses₃⟩ := hpasses₂.exists_of_cons
  obtain ⟨s₄, hadded, hpasses₄⟩ := hpasses₃.exists_of_cons
  cases hpasses₄
  -- the list of removed regions has no room, so the second call is turned away
  have hlist : s₂.subject.registry.regions.list = fun _ => false :=
    list_of_passes (.cons hfirst (.cons hcleared (.nil _)))
  have hidle : clear.sections s₁.subject = 0 := by
    simp [Event.sections, hclear, sections, TurnsAway, RegistryCall.AddsRegion, hnone]
  have haway : region.sections s₂.subject = 0 := by
    simp [Event.sections, hregion, sections, TurnsAway, RegistryCall.AddsRegion,
      Regions.ListFails, hlist]
  have hbegun : block.sections s₃.subject = 1 := by
    simp [Event.sections, hblock, sections, TurnsAway, RegistryCall.AddsRegion, hone]
  have hspans : Spans s₁ [clear, region, block]
      (clear.sections s₁.subject + (region.sections s₂.subject + (block.sections s₃.subject + 0)))
      s := .cons hcleared (.cons hturned (.cons hadded (.nil s)))
  rw [hidle, haway, hbegun] at hspans
  obtain ⟨hreader, -⟩ := valid_iff_no_section_since hfirst hspans (by decide)
  have hkept : ∀ e ∈ [clear, region, block], e.step ≠ .read "g" ∧ e.step ≠ .release "g" := by
    simp [hclear, hregion, hblock]
  obtain ⟨valid, hperform, hvalid⟩ := hreader "g" hopening hkept
  have hfalse : valid = false := by
    rw [← Bool.not_eq_true, hvalid]
    exact fun hnone => absurd hnone.2 (by decide)
  exact ⟨opening, s₁, _, s, hfirst, hopening, hspans, hlater, hfalse ▸ hperform⟩

/-- There are refusals without a section. A region that is turned away leaves a reader valid. And
the pieces behind one that is refused begin none: of three pieces the second is refused, and the
gate has moved by the two steps of the first, of the second and of the clear that undoes it. -/
theorem refused_without_section :
    (run { regionList := fun _ => false } [.read "g", .call (.addRegion 0x1000 16 []),
      .validate "g"]).map (·.outcome) =
        [.ok (.reader true), .ok (.reply (.added (.error ⟨0⟩))), .ok (.flag true)] ∧
    (Registry.pieces 64 [0, 16, 32] [1, 2, 3]).length = 3 ∧
    (match (answer (.registerDepths 0 64 [0, 16, 32] [1, 2, 3])
        (start { maxNodes := 1 })).outcome with
      | .ok (.added (.error e), w) => some (e.bytes, w.registry.gate.sequence)
      | _ => none) = some (80, 2 + 2 + 2) :=
  ⟨rfl, rfl, by decide +kernel⟩

end Workbench

end TraceAtlas
