import TraceAtlas.Proofs.Session.Workbench

/-! # What becomes of chains

A chain is registered once, with a number of its own. From then on it is kept, as that of a live
region or of a removed one, until it is freed. Nothing is lost between two moments: what was kept
and what was added is what is kept and what was freed. Chains are freed only while nobody reads, so
that a handle can rely on the chain of its region as long as it is held.

## Main definitions
* `Regions.kept` : the regions whose chains are not freed.
* `Regions.Turns` : what was added and what was freed between two moments.
* `Regions.Accounts` : each registration is that of a kept chain or of a freed one.

## Main statements
* `Regions.MutatedBy.turns`, `Registry.Undergoes.turns` : nothing is lost.
* `Workbench.chains_accounted_for` : readers, chains and handles in any session.
-/

namespace TraceAtlas

/-! ## (1) Keeping and freeing -/

/-- The number of chains that a mutation registers. -/
def Mutation.registrations : Mutation → Nat
  | regions (some e) => e.additions.length
  | regions none | blocks _ | turnedAway => 0

namespace Regions

variable {m m' m'' : Regions} {added added' freed freed' : List Region}

/-- The regions whose chains are not freed: the live ones and the retired ones. -/
def kept (m : Regions) : List Region := m.index.toList.map (·.2) ++ m.retired

/-- The numbers of the live regions. -/
def live (m : Regions) : List Nat := m.index.toList.map (·.2.serial)

/-- The numbers of the retired regions. -/
def waiting (m : Regions) : List Nat := m.retired.map (·.serial)

/-- Each live region has a number. -/
theorem length_live (m : Regions) : m.live.length = m.index.contents.count := by
  rw [live, List.length_map, m.index.toList_spec.length_eq]

/-- A region is kept if it is live or retired. -/
theorem mem_kept_iff {region : Region} : region ∈ m.kept ↔
    (∃ start, m.index.contents start = some region) ∨ region ∈ m.retired := by
  simp [kept, m.index.toList_spec.2]

/-- Between two moments some regions were added and the chains of some were freed. All others are
kept, and the added ones have the next numbers. -/
structure Turns (m : Regions) (added freed : List Region) (m' : Regions) : Prop where
  kept : (m'.kept ++ freed).Perm (added ++ m.kept)
  numbered : (added.map (·.serial) ++ List.range m.issued).Perm (List.range m'.issued)

/-- Between a moment and the same one nothing happens. -/
theorem Turns.refl (m : Regions) : m.Turns [] [] m := ⟨by simp, .refl _⟩

/-- What is asked for in vain shows in no region. -/
theorem Turns.of_eq (hindex : m'.index.toList = m.index.toList) (hretired : m'.retired = m.retired)
    (hissued : m'.issued = m.issued) : m.Turns [] [] m' where
  kept := by simp [Regions.kept, hindex, hretired]
  numbered := by simp [hissued]

/-- Between three moments, what was added and freed adds up. -/
theorem Turns.trans (h : m.Turns added freed m') (h' : m'.Turns added' freed' m'') :
    m.Turns (added' ++ added) (freed' ++ freed) m'' where
  kept := by
    calc m''.kept ++ (freed' ++ freed)
      _ = (m''.kept ++ freed') ++ freed := (List.append_assoc _ _ _).symm
      List.Perm _ ((added' ++ m'.kept) ++ freed) := h'.kept.append_right freed
      _ = added' ++ (m'.kept ++ freed) := List.append_assoc _ _ _
      List.Perm _ (added' ++ (added ++ m.kept)) := h.kept.append_left added'
      _ = (added' ++ added) ++ m.kept := (List.append_assoc _ _ _).symm
  numbered := by
    rw [List.map_append, List.append_assoc]
    exact (h.numbered.append_left _).trans h'.numbered

/-- Each registration so far is that of exactly one chain that is live, retired or freed. -/
def Accounts (m : Regions) (freed : List Nat) : Prop :=
  (m.live ++ (m.waiting ++ freed)).Perm (List.range m.issued)

/-- The kept regions have the numbers of the live ones and of those that wait. -/
theorem serials_kept (m : Regions) : m.kept.map (·.serial) = m.live ++ m.waiting := by
  rw [kept, List.map_append, List.map_map]
  rfl

/-- No registration has to be accounted for at first. -/
theorem accounts_empty (t : Tuning) : (empty t).Accounts [] := by
  have hnone : (empty t).index.toList = [] := by
    refine List.eq_nil_iff_forall_not_mem.2 fun p hp => ?_
    rw [(empty t).index.toList_spec.2] at hp
    rw [show (empty t).index.contents = Contents.empty from Index.contents_empty t slotBytes] at hp
    cases hp
  rw [Accounts, live, hnone]
  exact .refl _

/-- What is freed is added to the account of what was freed before. -/
theorem Accounts.turn {serials : List Nat} (h : m.Accounts serials)
    (hturn : m.Turns added freed m') :
    m'.Accounts (freed.map (·.serial) ++ serials) := by
  have hkept := (hturn.kept.map (·.serial)).append_right serials
  simp only [List.map_append, List.append_assoc, serials_kept] at hkept
  exact hkept.trans ((h.append_left _).trans hturn.numbered)

/-- An edit keeps everything: what it removes is retired. -/
theorem turns_edited {e : Edit Region} {removed : List (Address × Region)} {index : Index Region}
    (hedit : m.index.EditedBy e removed index)
    (hserial : ∀ p ∈ e.additions, p.2.serial = m.issued) :
    m.Turns (e.additions.map (·.2)) [] (m.edited e removed index) where
  kept := by
    have hperm := hedit.perm.map (·.2)
    rw [List.map_append, List.map_append] at hperm
    have hremoved : (index.toList.map (·.2) ++ (removed.map (·.2)).reverse).Perm
        (removed.map (·.2) ++ index.toList.map (·.2)) :=
      List.perm_append_comm.trans ((List.reverse_perm _).append_right _)
    rw [List.append_nil, Regions.kept, Regions.kept, ← List.append_assoc]
    show (index.toList.map (·.2) ++ ((removed.map (·.2)).reverse ++ m.retired)).Perm _
    rw [← List.append_assoc]
    exact (hremoved.trans hperm).append_right m.retired
  numbered := by
    show (_ ++ List.range m.issued).Perm (List.range (m.issued + e.additions.length))
    cases e with
    | add start region =>
      -- the one that is added has the number that comes next
      have hnext : region.serial = m.issued := hserial (start, region) (List.mem_singleton.2 rfl)
      simp only [Edit.additions, List.map_cons, List.map_nil, List.length_singleton, hnext,
        List.range_succ]
      exact List.perm_append_comm
    | remove _ => exact .refl _
    | clear _ _ => exact .refl _

/-- A collection frees what is retired, if nobody reads. -/
theorem turns_collected (m : Regions) (gate : Gate) :
    m.Turns [] (if gate.Quiescent then m.retired else []) (m.collected gate) where
  kept := by
    have hlive : (m.collected gate).index.toList = m.index.toList := by
      unfold collected Index.collected
      split <;> rfl
    rw [Regions.kept, hlive, List.nil_append, Regions.kept]
    show (_ ++ (if gate.Quiescent then [] else m.retired) ++ _).Perm _
    split
    · rw [List.append_nil]
    · rw [List.append_nil]
  numbered := .refl _

/-- No chain is lost in a mutation: one may be added, and some may be freed if nobody reads. -/
theorem MutatedBy.turns {gate : Gate} {e : Option (Edit Region)} {n : Nat}
    (h : m.MutatedBy gate e n m') : ∃ added freed, m.Turns added freed m' ∧
      added.length = (Mutation.regions e).registrations ∧ freed.length = n ∧
      (freed ≠ [] → gate.Quiescent) := by
  cases h with
  | refused =>
    exact ⟨[], [], .of_eq rfl rfl rfl, rfl, rfl, fun hfreed => absurd rfl hfreed⟩
  | @edit e removed index hedit hserial =>
    refine ⟨_, _, (turns_edited hedit hserial).trans (turns_collected _ gate), ?_, ?_, ?_⟩
    · rw [List.nil_append, List.length_map]
      rfl
    · rw [List.append_nil, due]
      split <;> rfl
    · intro hfreed
      by_contra hquiet
      rw [List.append_nil, if_neg hquiet] at hfreed
      exact hfreed rfl

end Regions

namespace Registry

variable {r r' : Registry} {ms : List Mutation} {n : Nat}

/-- No chain is lost in mutations in a row. -/
theorem Undergoes.turns (h : r.Undergoes ms n r') :
    ∃ added freed, r.regions.Turns added freed r'.regions ∧
      added.length = (ms.map Mutation.registrations).sum ∧ freed.length = n ∧
      (freed ≠ [] → r.gate.Quiescent) := by
  induction h with
  | nil r => exact ⟨[], [], .refl _, rfl, rfl, fun hfreed => absurd rfl hfreed⟩
  | @cons r r₁ r₂ m ms n n' hm _ ih =>
    -- a mutation leaves the readers alone, so whoever reads reads all the while
    have hreaders : r₁.gate.Quiescent ↔ r.gate.Quiescent := by
      cases hm <;> exact Iff.rfl
    obtain ⟨added', freed', hturns', hadded', hlength', hquiet'⟩ := ih
    obtain ⟨added, freed, hturns, hadded, hlength, hquiet⟩ : ∃ added freed,
        r.regions.Turns added freed r₁.regions ∧ added.length = m.registrations ∧
          freed.length = n ∧ (freed ≠ [] → r.gate.Quiescent) := by
      cases hm with
      | regions hmutated => exact hmutated.turns
      | blocks _ => exact ⟨[], [], .refl _, rfl, rfl, fun hfreed => absurd rfl hfreed⟩
      | turnedAway _ =>
        exact ⟨[], [], .of_eq rfl rfl rfl, rfl, rfl, fun hfreed => absurd rfl hfreed⟩
    refine ⟨_, _, hturns.trans hturns', ?_, ?_, fun hfreed => ?_⟩
    · rw [List.length_append, hadded', hadded, List.map_cons, List.sum_cons, Nat.add_comm]
    · rw [List.length_append, hlength', hlength, Nat.add_comm]
    · by_cases hlater : freed' = []
      · subst hlater
        exact hquiet hfreed
      · exact hreaders.1 (hquiet' hlater)

end Registry

/-! ## (2) Sessions -/

/-- The number of chains that an event registers. -/
def Event.registrations (e : Event RegistryCall RegistryReply) : Nat :=
  match e.step, e.answer with
  | .call (.registerCode _ _ _), .reply (.added (.ok ())) => 1
  | .call (.addRegion _ _ _), .reply (.added (.ok ())) => 1
  | _, _ => 0

/-- The region that an event shows. -/
def Event.view? (e : Event RegistryCall RegistryReply) : Option RegionView :=
  match e.answer with
  | .reply (.region view) => view
  | _ => none

/-- A call registers as many chains as its mutations do. -/
theorem RegistryCall.Performs.registrations {k : RegistryCall} {reply : RegistryReply}
    {ms : List Mutation} (h : k.Performs reply ms) (notices : List Notice) :
    (ms.map Mutation.registrations).sum
      = Event.registrations ⟨.call k, .reply reply, notices⟩ := by
  have hregions (start size : Address) :
      ((Mutation.clearingRegions start size).map Mutation.registrations).sum = 0 := by
    unfold Mutation.clearingRegions
    split <;> rfl
  have hblocks (start size : Address) :
      ((Mutation.clearingBlocks start size).map Mutation.registrations).sum = 0 := by
    unfold Mutation.clearingBlocks
    split <;> rfl
  have hadding (start : Address) (pieces : List Piece) : ((pieces.map fun piece =>
      Mutation.blocks (some (Registry.addPiece start piece))).map
        Mutation.registrations).sum = 0 := by
    rw [List.sum_eq_zero_iff_forall_eq_nat]
    simp [Mutation.registrations]
  cases h.mutating with
  | @region _ _ _ _ _ result hk => rcases hk with rfl | rfl <;> cases result <;> rfl
  | turnedAway hk => rcases hk with rfl | rfl <;> rfl
  | removal | block => rfl
  | regions => exact hregions _ _
  | blocks => exact hblocks _ _
  | pieces => exact hadding _ _
  | rollback =>
    simp only [List.map_append, List.sum_append, hadding, hblocks]
    rfl
  | code =>
    rw [List.map_append, List.sum_append, hregions, hblocks]
    rfl
  | look hk => cases k <;> first | exact hk.elim | rfl

namespace Workbench

variable {s s' : Session Workbench} {e : Event RegistryCall RegistryReply}
  {events : List (Event RegistryCall RegistryReply)}

/-- No chain is lost in an event. -/
theorem turns_of_happens (h : Session.Happens answer s e s') :
    ∃ added freed, s.subject.registry.regions.Turns added freed s'.subject.registry.regions ∧
      added.length = e.registrations ∧ freed.length = Notice.freedIn e.notices ∧
      (freed ≠ [] → s.gate.Quiescent) := by
  obtain ⟨step, a, notices⟩ := e
  rcases cases_of_happens h with ⟨k, reply, ms, rfl, rfl, -, hms, hworks, -⟩ |
    ⟨k, reply, rfl, rfl, hk, rfl, hlooked, -⟩ | ⟨hstep, rfl, g, hg⟩
  · obtain ⟨added, freed, hturns, hadded, hfreed, hquiet⟩ := hworks.undergoes.turns
    exact ⟨added, freed, hturns, hadded.trans (hms.registrations notices), hfreed, hquiet⟩
  · obtain ⟨readers, hsame⟩ := hlooked.exists_readers
    rw [hsame]
    refine ⟨[], [], .refl _, ?_, rfl, fun hfreed => absurd rfl hfreed⟩
    cases k <;> first | exact hk.elim | rfl
  · rw [hg]
    refine ⟨[], [], .refl _, ?_, rfl, fun hfreed => absurd rfl hfreed⟩
    cases step with
    | call k => exact absurd rfl (hstep k)
    | _ => rfl

/-- Every registration is accounted for after any events, and what was freed before stays freed. -/
theorem accounts_of_passes (h : Session.Passes answer s events s') {freed : List Nat}
    (hs : s.subject.registry.regions.Accounts freed) :
    ∃ newly, s'.subject.registry.regions.Accounts (newly ++ freed) ∧
      newly.length = (events.map fun e => Notice.freedIn e.notices).sum ∧
      s'.subject.registry.regions.issued
        = s.subject.registry.regions.issued + (events.map Event.registrations).sum := by
  induction h generalizing freed with
  | nil s => exact ⟨[], hs, rfl, rfl⟩
  | cons he _ ih =>
    obtain ⟨added, given, hturns, hadded, hgiven, -⟩ := turns_of_happens he
    obtain ⟨newly, haccounts, hlength, hissued⟩ := ih (hs.turn hturns)
    have hnumbered := hturns.numbered.length_eq
    rw [List.length_append, List.length_map, List.length_range, List.length_range] at hnumbered
    refine ⟨newly ++ given.map (·.serial), by rwa [List.append_assoc], ?_, ?_⟩
    · rw [List.length_append, List.length_map, List.map_cons, List.sum_cons, hlength, hgiven,
        Nat.add_comm]
    · rw [List.map_cons, List.sum_cons]
      omega

/-- While a handle is held, no chain is freed. -/
theorem kept_of_passes {name : String} {region : Region} (h : Session.Passes answer s events s')
    (hs : Counted s) (hheld : s.subject.handles.lookup name ≠ none)
    (hkept : ∀ e ∈ events, ¬e.TakesHandle name)
    (hregion : region ∈ s.subject.registry.regions.kept) :
    region ∈ s'.subject.registry.regions.kept := by
  induction h with
  | nil s => exact hregion
  | cons he _ ih =>
    obtain ⟨hfirst, hkept⟩ := List.forall_mem_cons.1 hkept
    obtain ⟨added, freed, hturns, -, -, hquiet⟩ := turns_of_happens he
    have hnothing : freed = [] := by
      by_contra hfreed
      have hnone := (hs.quiescent_iff.1 (hquiet hfreed)).2
      rw [hnone] at hheld
      exact hheld rfl
    have hstays := hturns.kept.symm.subset (List.mem_append_right added hregion)
    rw [hnothing, List.append_nil] at hstays
    exact ih (hs.happens he) (by rwa [handle_of_happens he hfirst]) hkept hstays

/-! ## (3) Readers, chains and handles -/

/-- A held handle shows its region, and the frames of its chain at any address. -/
theorem perform_view_of_held {name : String} {start : Address} {region : Region} {guard : ReadGuard}
    (hheld : s.subject.handles.lookup name = some ⟨start, region, guard⟩) (b : Address) :
    Session.perform answer (.call (.handle name (.view b))) s =
      ⟨[], (region.chain.frames (b - start).toNat).map fun frames =>
        (.reply (.handle (.view ⟨start, region.size, region.chain.words, frames,
          decide (guard.Valid s.gate)⟩)), s)⟩ := by
  rw [Session.perform]
  simp only [answer, Handles.answer, hheld, RegionHandle.view, RegionHandle.frames,
    RegionHandle.offsetOf]
  cases region.chain.frames (b - start).toNat <;> rfl

/-- A handle that was kept when its region was shown answers later as it did then, and the chain of
the region is not freed. -/
theorem handle_answers_as_found {a : Address} {name : String} {view : RegionView}
    (hs : Counted s) (h : Session.Passes answer s (e :: events) s')
    (hstep : e.step = .call (.find a (some name)))
    (hanswer : e.answer = .reply (.region (some view)))
    (hkept : ∀ e ∈ events, ¬e.TakesHandle name) :
    (∃ region ∈ s'.subject.registry.regions.kept,
      region.size = view.size ∧ region.chain = ⟨view.chain⟩) ∧
    (⟨view.chain⟩ : Chain).frames (a - view.start).toNat = .ok view.frames ∧
    ∃ consistent, ∀ b, Session.perform answer (.call (.handle name (.view b))) s' =
      ⟨[], ((⟨view.chain⟩ : Chain).frames (b - view.start).toNat).map fun frames =>
        (.reply (.handle (.view ⟨view.start, view.size, view.chain, frames, consistent⟩)),
          s')⟩ := by
  obtain ⟨s₁, he, hlater⟩ := h.exists_of_cons
  obtain ⟨start, region, hlive, -, hshown, hsame, hfound⟩ := found_of_happens he hstep hanswer
  obtain ⟨frames, hframes, rfl⟩ : ∃ frames, region.chain.frames (a - start).toNat = .ok frames ∧
      view = ⟨start, region.size, region.chain.words, frames,
        decide (ReadGuard.Valid ⟨s.gate.sequence⟩ s.gate.read.2)⟩ := by
    unfold RegionHandle.view RegionHandle.frames at hshown
    cases hframes : region.chain.frames (RegionHandle.offsetOf ⟨start, region, _⟩ a) with
    | error fault =>
      rw [hframes] at hshown
      cases hshown
    | ok frames =>
      rw [hframes] at hshown
      exact ⟨frames, hframes, (Except.ok.inj hshown).symm⟩
  -- the lookup itself changes no map, so that the region is still live behind it
  have hregion : region ∈ s₁.subject.registry.regions.kept := by
    rw [hsame]
    exact Regions.mem_kept_iff.2 (.inl ⟨start, hlive⟩)
  have hheld := (handle_of_passes hlater hkept).trans hfound
  refine ⟨⟨region, ?_, rfl, rfl⟩, hframes, _, fun b => perform_view_of_held hheld b⟩
  exact kept_of_passes hlater (hs.happens he) (by rw [hfound]; exact nofun) hkept hregion

/-- **Readers, chains and handles in any session.** At every moment of every session on a fresh
registry, the gate counts just the readers and handles that are held. Every registration so far is
that of a chain that is live, retired or freed, and of one only; notices told of as many freed
chains as there are. The next event may free more of them, which were not freed before and are not
live afterwards, but only if no reader and no handle is held. And a handle that was kept when its
region was shown answers, as long as it is held, with the start, size and chain that it had then,
and with the frames of that chain, whatever happens to the region; its chain is not freed meanwhile.
-/
theorem chains_accounted_for (t : Tuning) (h : Session.Passes answer (.start (start t)) events s) :
    (s.gate.readers = s.guards.length + s.subject.handles.length ∧
      s.guards.map (·.1) = events.foldl Event.readers [] ∧ (s.guards.map (·.1)).Nodup ∧
      s.subject.handles.map (·.1) = events.foldl Event.handles [] ∧
      (s.subject.handles.map (·.1)).Nodup) ∧
    (∃ freed : List Nat,
      s.subject.registry.regions.Accounts freed ∧
      s.subject.registry.regions.issued = (events.map Event.registrations).sum ∧
      s.subject.registry.liveRegions.count + s.subject.registry.regions.retired.length +
        freed.length = (events.map Event.registrations).sum ∧
      freed.length = (events.map fun e => Notice.freedIn e.notices).sum ∧
      ∀ e s', Session.Happens answer s e s' → ∃ newly,
        s'.subject.registry.regions.Accounts (newly ++ freed) ∧
        newly.length = Notice.freedIn e.notices ∧
        (∀ serial ∈ newly, serial ∉ freed ∧ serial ∉ s'.subject.registry.regions.live) ∧
        (newly ≠ [] → s.guards = [] ∧ s.subject.handles = [])) ∧
    ∀ e a name view later s', Session.Passes answer s (e :: later) s' →
      e.step = .call (.find a (some name)) → e.answer = .reply (.region (some view)) →
      (∀ e ∈ later, ¬e.TakesHandle name) →
      (∃ region ∈ s'.subject.registry.regions.kept,
        region.size = view.size ∧ region.chain = ⟨view.chain⟩) ∧
      (⟨view.chain⟩ : Chain).frames (a - view.start).toNat = .ok view.frames ∧
      ∃ consistent, ∀ b, Session.perform answer (.call (.handle name (.view b))) s' =
        ⟨[], ((⟨view.chain⟩ : Chain).frames (b - view.start).toNat).map fun frames =>
          (.reply (.handle (.view ⟨view.start, view.size, view.chain, frames, consistent⟩)),
            s')⟩ := by
  have hcounted : Counted s := counted_of_passes h (counted_start t)
  obtain ⟨freed, haccounts, hfreed, hissued⟩ := accounts_of_passes h (Regions.accounts_empty t)
  rw [List.append_nil] at haccounts
  have hissued : s.subject.registry.regions.issued = (events.map Event.registrations).sum :=
    hissued.trans (Nat.zero_add _)
  refine ⟨⟨hcounted.counts.readers, h.names_eq, hcounted.counts.nodup, ?_, hcounted.nodup⟩,
    ⟨freed, haccounts, hissued, ?_, hfreed, ?_⟩, ?_⟩
  · exact handles_of_passes h
  · have hlength := haccounts.length_eq
    simp only [List.length_append, Regions.length_live, Regions.waiting, List.length_map,
      List.length_range, hissued, ← Nat.add_assoc] at hlength
    exact hlength
  · intro e s' he
    obtain ⟨added, given, hturns, -, hgiven, hquiet⟩ := turns_of_happens he
    have hturned := haccounts.turn hturns
    refine ⟨given.map (·.serial), hturned, (List.length_map _).trans hgiven, ?_, ?_⟩
    · -- the account has no number twice
      intro serial hserial
      obtain ⟨-, hrest, hlive⟩ := List.nodup_append.1 (hturned.nodup_iff.2 List.nodup_range)
      obtain ⟨-, hfreed, -⟩ := List.nodup_append.1 hrest
      constructor
      · exact fun hmem => (List.nodup_append.1 hfreed).2.2 serial hserial serial hmem rfl
      · exact fun hmem => hlive serial hmem serial
          (List.mem_append_right _ (List.mem_append_left _ hserial)) rfl
    · -- something is freed only where the gate found nobody reading
      intro hne
      exact hcounted.quiescent_iff.1 (hquiet fun hnone => hne (by rw [hnone]; rfl))
  · intro e a name view later s' hpasses hstep hanswer hkept
    exact handle_answers_as_found hcounted hpasses hstep hanswer hkept

/-- A region is looked up and unregistered, and another one is registered at its address. The handle
is the one reader, so that neither chain is freed, and it shows the first one. -/
theorem handle_shows_unregistered_chain :
    ∃ (events : List (Event RegistryCall RegistryReply)) (s : Session Workbench),
      Session.Passes answer (.start (start .standard)) events s ∧ s.gate.readers = 1 ∧
      s.subject.registry.liveRegions.count + s.subject.registry.regions.retired.length = 2 ∧
      ∃ consistent, Session.perform answer (.call (.handle "h" (.view 0x1008))) s =
        ⟨[], .ok (.reply (.handle (.view ⟨0x1000, 16, [1, 0, 16, 4], [1], consistent⟩)), s)⟩ := by
  obtain ⟨events, s, h, hsteps, hvalues⟩ := Session.exists_passes_of_trail answer
    (.start (start .standard))
    [.call (.registerCode 0x1000 16 [1, 0, 16, 4]), .call (.find 0x1008 (some "h")),
      .call (.unregisterCode 0x1000), .call (.registerCode 0x1000 16 [9, 0, 16, 4])]
    (by simp [Step.Plain])
    (fun p => (p.1.map Event.view?, p.1.map Event.registrations,
      p.1.map fun e => Notice.freedIn e.notices,
      p.1.foldl Event.readers [], p.1.foldl Event.handles []))
    ([none, some ⟨0x1000, 16, [1, 0, 16, 4], [1], true⟩, none, none], [1, 0, 0, 1],
      [0, 0, 0, 0], [], ["h"]) (by decide +kernel)
  simp only [Prod.mk.injEq] at hvalues
  obtain ⟨hviews, hregistrations, hfreed, hreaders, hhandles⟩ := hvalues
  obtain ⟨⟨hcount, hnames, -, hnames', -⟩, ⟨freed, -, -, hsum, hlength, -⟩, -⟩ :=
    chains_accounted_for .standard h
  refine ⟨events, s, h, ?_, ?_, ?_⟩
  · -- nobody reads but the handle
    have hguards : s.guards = [] := List.map_eq_nil_iff.1 (hnames.trans hreaders)
    have hheld := congrArg List.length (hnames'.trans hhandles)
    rw [List.length_map] at hheld
    rw [hcount, hguards, hheld]
    rfl
  · rw [hfreed] at hlength
    rw [hlength, hregistrations] at hsum
    exact hsum
  · -- the handle is taken in the second event, after a session of just the first
    obtain ⟨first, events, rfl, -, hsteps⟩ := List.map_eq_cons_iff.1 hsteps
    obtain ⟨second, later, rfl, hfind, hsteps⟩ := List.map_eq_cons_iff.1 hsteps
    obtain ⟨s₁, hfirst, hlater⟩ := h.exists_of_cons
    obtain ⟨-, hviews⟩ := List.cons.inj hviews
    obtain ⟨hview, -⟩ := List.cons.inj hviews
    have hanswer :
        second.answer = .reply (.region (some ⟨0x1000, 16, [1, 0, 16, 4], [1], true⟩)) := by
      unfold Event.view? at hview
      split at hview
      · rename_i hregion
        rw [hregion, hview]
      · cases hview
    have hkept : ∀ e ∈ later, ¬e.TakesHandle "h" := by
      intro e he
      have hmem : e.step ∈ [.call (.unregisterCode 0x1000),
          .call (.registerCode 0x1000 16 [9, 0, 16, 4])] := hsteps ▸ List.mem_map_of_mem he
      rcases List.mem_pair.1 hmem with hstep | hstep <;> simp [Event.TakesHandle, hstep]
    obtain ⟨-, -, hhandle⟩ := chains_accounted_for .standard hfirst.passes
    obtain ⟨-, hframes, consistent, hshown⟩ := hhandle _ _ _ _ _ _ hlater hfind hanswer hkept
    have hshown := hshown 0x1008
    rw [hframes] at hshown
    exact ⟨consistent, hshown⟩

end Workbench

end TraceAtlas
