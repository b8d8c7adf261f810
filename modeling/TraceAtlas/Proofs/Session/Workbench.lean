import TraceAtlas.Proofs.Registry.Mutations
import TraceAtlas.Proofs.Session.Readers
import TraceAtlas.Proofs.Session.Registry

/-! # What happens on a workbench

A session on a registry calls it, and keeps handles on what it finds. A call that writes is
mutations in a row and leaves the handles and the readers alone; a call that only looks changes no
map, and takes and drops readers together with handles. Which handles are held is told by what
happened.

## Main definitions
* `RegistryCall.Performs` : the mutations of a call when it gives some reply.
* `RegistryCall.Mutating` : the forms that they take.
* `Event.handles` : the names under which handles are held after an event.
* `Workbench.Counted` : the gate counts the readers and handles that are held.
* `Workbench.Unread` : nobody holds a reader or a handle.

## Main statements
* `Workbench.works_of_answer` : every call is the mutations that go with its reply.
* `Workbench.Counted.happens` : the count stays right.
* `Workbench.handle_of_passes` : a handle is held until it is released or its name is used again.
-/

namespace TraceAtlas

/-! ## (1) Handles -/

namespace Handles

variable {hs hs' : Handles} {gate gate' : Gate} {a : Address} {name other : String}

/-- Dropping a handle forgets it, and drops its reader if there is one. -/
theorem drop_eq (hs : Handles) (gate : Gate) (name : String) : hs.drop gate name =
    (hs.filter (·.1 != name), if hs.lookup name = none then gate else gate.release) := by
  unfold drop
  split
  · rw [filter_ne_of_lookup ‹_›, if_pos ‹_›]
  · rename_i h hheld
    rw [if_neg (by simp [hheld])]

/-- What is done with a region that was found: it is shown, and its handle is kept or dropped. -/
theorem of_receive {keepAs : Option String} {found : Option RegionHandle} {view : Option RegionView}
    (h : hs.receive gate a keepAs found = .ok (view, hs', gate')) :
    (found = none ∧ view = none ∧ hs' = hs ∧ gate' = gate) ∨
      ∃ handle shown, found = some handle ∧ handle.view gate a = .ok shown ∧ view = some shown ∧
        (keepAs = none ∧ hs' = hs ∧ gate' = gate.release ∨
          ∃ name, keepAs = some name ∧ hs' = (name, handle) :: (hs.drop gate name).1 ∧
            gate' = (hs.drop gate name).2) := by
  cases found with
  | none =>
    cases h
    exact .inl ⟨rfl, rfl, rfl, rfl⟩
  | some handle =>
    rw [receive] at h
    cases hview : handle.view gate a with
    | error e =>
      rw [hview] at h
      cases h
    | ok shown =>
      rw [hview] at h
      refine .inr ⟨handle, shown, rfl, hview, ?_⟩
      -- a handle that is kept takes the place of one with the same name
      cases keepAs with
      | none =>
        cases h
        exact ⟨rfl, .inl ⟨rfl, rfl, rfl⟩⟩
      | some name =>
        cases h
        exact ⟨rfl, .inr ⟨name, rfl, rfl, rfl⟩⟩

/-- A call of a handle changes nothing, unless it drops the handle. -/
theorem of_answer {call : HandleCall} {reply : HandleReply}
    (h : hs.answer gate name call = .ok (reply, hs', gate')) :
    (hs', gate') = if call = .release then hs.drop gate name else (hs, gate) := by
  unfold answer at h
  split at h
  · rename_i hnone
    cases h
    rw [drop_eq, if_pos hnone, filter_ne_of_lookup hnone, ite_self]
  · -- every call but the one that drops the handle hands the gate back
    have hsame {α : Type} {x : Except Fault α} {f : α → HandleReply}
        (hx : (x >>= fun v => pure (f v, hs, gate)) = .ok (reply, hs', gate')) :
        (hs', gate') = (hs, gate) := by
      cases x with
      | error e => cases hx
      | ok v => exact congrArg Prod.snd (Except.ok.inj hx.symm)
    cases call with
    | view a | nextFrame a cursor | pull a calls => exact hsame h
    | isConsistent => exact congrArg Prod.snd (Except.ok.inj h.symm)
    | release => exact congrArg Prod.snd (Except.ok.inj h.symm)

end Handles

/-! ## (2) Calls -/

namespace RegistryCall

/-- The mutations that a call consists of when it gives some reply. A clear of an empty range is no
mutation, and neither is a look. A region that is turned away is refused without a size. -/
def Performs : RegistryCall → RegistryReply → List Mutation → Prop
  | .registerCode start size chain, .added result, ms
  | .addRegion start size chain, .added result, ms =>
    (∃ serial, ms = [.regions (accepted (.add start ⟨size, ⟨chain⟩, serial⟩) result)]) ∨
      result = .error .ofReservation ∧ ms = [.turnedAway]
  | .unregisterCode start, .done, ms => ms = [.regions (some (.remove start))]
  | .clearRegions start size, .done, ms => ms = Mutation.clearingRegions start size
  | .clearBlocks start size, .done, ms => ms = Mutation.clearingBlocks start size
  | .addBlock start size depth, .added result, ms =>
    ms = [.blocks (accepted (.add start ⟨size, depth⟩) result)]
  | .registerDepths start stop positions depths, .added result, ms =>
    ∃ added, Mutation.AddPieces start (Registry.pieces (stop - start) positions depths) result
        added ∧
      ms = added ++ if result = .ok () then [] else Mutation.clearingBlocks start (stop - start)
  | .freeBlock start stop, .done, ms =>
    ms = Mutation.clearingBlocks start (Address.distance start stop) ++
      Mutation.clearingRegions start (Address.distance start stop)
  | call, _, ms => call.Looks ∧ ms = []

/-- A look is no mutation. -/
theorem Looks.performs {k : RegistryCall} (hk : k.Looks) (reply : RegistryReply) :
    k.Performs reply [] := by
  cases k <;> first | exact hk.elim | exact ⟨hk, rfl⟩

/-- The forms that the mutations of a call take. The two ways to register a region are one of them,
and registering depths has two, since what was added is cleared behind a piece that is refused. -/
inductive Mutating : RegistryCall → RegistryReply → List Mutation → Prop
  | region {k : RegistryCall} {start : Address} {size : UInt32} {chain : List UInt32}
      {serial : Nat} {result : Except OutOfMemory Unit} :
      k = .registerCode start size chain ∨ k = .addRegion start size chain →
      Mutating k (.added result) [.regions (accepted (.add start ⟨size, ⟨chain⟩, serial⟩) result)]
  | turnedAway {k : RegistryCall} {start : Address} {size : UInt32} {chain : List UInt32} :
      k = .registerCode start size chain ∨ k = .addRegion start size chain →
      Mutating k (.added (.error .ofReservation)) [.turnedAway]
  | removal {start : Address} :
      Mutating (.unregisterCode start) .done [.regions (some (.remove start))]
  | regions {start size : Address} :
      Mutating (.clearRegions start size) .done (Mutation.clearingRegions start size)
  | blocks {start size : Address} :
      Mutating (.clearBlocks start size) .done (Mutation.clearingBlocks start size)
  | block {start : Address} {size depth : UInt32} {result : Except OutOfMemory Unit} :
      Mutating (.addBlock start size depth) (.added result)
        [.blocks (accepted (.add start ⟨size, depth⟩) result)]
  | pieces {start stop : Address} {positions : List Offset} {depths : List UInt32} :
      Mutating (.registerDepths start stop positions depths) (.added (.ok ()))
        ((Registry.pieces (stop - start) positions depths).map fun piece =>
          .blocks (some (Registry.addPiece start piece)))
  | rollback {start stop : Address} {positions : List Offset} {depths : List UInt32}
      {e : OutOfMemory} {n : Nat} : n < (Registry.pieces (stop - start) positions depths).length →
      Mutating (.registerDepths start stop positions depths) (.added (.error e))
        (((Registry.pieces (stop - start) positions depths).take n).map (fun piece =>
          .blocks (some (Registry.addPiece start piece))) ++ [.blocks none] ++
            Mutation.clearingBlocks start (stop - start))
  | code {start stop : Address} : Mutating (.freeBlock start stop) .done
      (Mutation.clearingBlocks start (Address.distance start stop) ++
        Mutation.clearingRegions start (Address.distance start stop))
  | look {k : RegistryCall} {reply : RegistryReply} : k.Looks → Mutating k reply []

/-- The mutations of a call take one of these forms. -/
theorem Performs.mutating {k : RegistryCall} {reply : RegistryReply} {ms : List Mutation}
    (h : k.Performs reply ms) : k.Mutating reply ms := by
  unfold Performs at h
  split at h
  · obtain ⟨serial, rfl⟩ | ⟨rfl, rfl⟩ := h
    · exact .region (.inl rfl)
    · exact .turnedAway (.inl rfl)
  · obtain ⟨serial, rfl⟩ | ⟨rfl, rfl⟩ := h
    · exact .region (.inr rfl)
    · exact .turnedAway (.inr rfl)
  · exact h ▸ .removal
  · exact h ▸ .regions
  · exact h ▸ .blocks
  · exact h ▸ .block
  · rename_i start stop positions depths result
    obtain ⟨added, hadded, rfl⟩ := h
    cases result with
    | ok _ =>
      subst hadded
      rw [if_pos rfl, List.append_nil]
      exact .pieces
    | error e =>
      obtain ⟨n, hn, rfl⟩ := hadded
      exact .rollback hn
  · exact h ▸ .code
  · obtain ⟨hk, rfl⟩ := h
    exact .look hk

end RegistryCall

namespace Registry

/-- A lookup finds nothing and leaves no reader, or it finds a live region behind a clear gate and
leaves one. -/
theorem find_cases (r : Registry) (a : Address) :
    r.find a = (none, r) ∨ ∃ start region, r.liveRegions start = some region ∧ ¬r.gate.Invalid ∧
      r.find a = (some ⟨start, region, ⟨r.gate.sequence⟩⟩, { r with gate := r.gate.read.2 }) := by
  simp only [find, Regions.find]
  split
  · exact .inl rfl
  · rename_i start region hfloor
    have hspec := r.regions.index.floor?_spec a
    rw [hfloor] at hspec
    split
    · exact .inl rfl
    · split
      · rename_i hvalid
        exact .inr ⟨start, region, hspec.1, Gate.valid_read_iff.1 hvalid, rfl⟩
      · exact .inl rfl

end Registry

namespace Workbench

variable {w w' : Workbench} {k : RegistryCall} {reply : RegistryReply} {notices : List Notice}

instance : LawfulGated Workbench := ⟨fun _ _ => rfl, fun _ => rfl, fun _ _ _ => rfl⟩

/-- An addition does to the registry what it is given to do, and leaves the handles alone. -/
theorem of_add {f : Registry → Traced (Except OutOfMemory Unit × Registry)}
    (h : w.add f = ⟨notices, .ok (reply, w')⟩) : ∃ result,
      f w.registry = ⟨notices, .ok (result, w'.registry)⟩ ∧ reply = .added result ∧
        w'.handles = w.handles := by
  obtain ⟨_, ⟨result, registry⟩, _, hf, hlast, rfl⟩ := Traced.bind_eq_mk_ok.1 h
  cases hlast
  rw [List.append_nil]
  exact ⟨result, hf, rfl, rfl⟩

/-- So does another write. -/
theorem of_write {f : Registry → Traced Registry} (h : w.write f = ⟨notices, .ok (reply, w')⟩) :
    f w.registry = ⟨notices, .ok w'.registry⟩ ∧ reply = .done ∧ w'.handles = w.handles := by
  obtain ⟨_, registry, _, hf, hlast, rfl⟩ := Traced.bind_eq_mk_ok.1 h
  cases hlast
  rw [List.append_nil]
  exact ⟨hf, rfl, rfl⟩

/-- A question changes nothing and leaves no notice. -/
theorem of_ask {x : Except Fault RegistryReply} (h : w.ask x = ⟨notices, .ok (reply, w')⟩) :
    notices = [] ∧ w' = w := by
  obtain ⟨_, asked, _, hx, hlast, rfl⟩ := Traced.bind_eq_mk_ok.1 h
  cases hlast
  cases hx
  exact ⟨rfl, rfl⟩

/-- A call that writes is the mutations that go with its reply, and leaves the handles alone. -/
theorem works_of_answer (hk : ¬k.Looks) (h : answer k w = ⟨notices, .ok (reply, w')⟩) :
    w'.handles = w.handles ∧
      ∃ ms, k.Performs reply ms ∧ w.registry.Works notices ms w'.registry := by
  cases k with
  | registerCode start size chain =>
    rw [answer] at h
    obtain ⟨result, hf, rfl, hhandles⟩ := of_add h
    have hworks := Registry.works_registerCode hf
    split at hworks
    · exact ⟨hhandles, _, .inr ⟨hworks.1, rfl⟩, hworks.2⟩
    · exact ⟨hhandles, _, .inl ⟨_, rfl⟩, hworks⟩
  | addRegion start size chain =>
    rw [answer] at h
    obtain ⟨result, hf, rfl, hhandles⟩ := of_add h
    have hworks := Registry.works_addRegion hf
    split at hworks
    · exact ⟨hhandles, _, .inr ⟨hworks.1, rfl⟩, hworks.2⟩
    · exact ⟨hhandles, _, .inl ⟨_, rfl⟩, hworks⟩
  | unregisterCode start =>
    rw [answer] at h
    obtain ⟨hf, rfl, hhandles⟩ := of_write h
    exact ⟨hhandles, _, rfl, Registry.works_unregisterCode hf⟩
  | clearRegions start size =>
    rw [answer] at h
    obtain ⟨hf, rfl, hhandles⟩ := of_write h
    exact ⟨hhandles, _, rfl, Registry.works_clearRegions hf⟩
  | clearBlocks start size =>
    rw [answer] at h
    obtain ⟨hf, rfl, hhandles⟩ := of_write h
    exact ⟨hhandles, _, rfl, Registry.works_clearBlocks hf⟩
  | addBlock start size depth =>
    rw [answer] at h
    obtain ⟨result, hf, rfl, hhandles⟩ := of_add h
    exact ⟨hhandles, _, rfl, Registry.works_addBlock hf⟩
  | registerDepths start stop positions depths =>
    rw [answer] at h
    obtain ⟨result, hf, rfl, hhandles⟩ := of_add h
    obtain ⟨added, hadded, hworks⟩ := Registry.works_registerDepths hf
    exact ⟨hhandles, _, ⟨added, hadded, rfl⟩, hworks⟩
  | freeBlock start stop =>
    rw [answer] at h
    obtain ⟨hf, rfl, hhandles⟩ := of_write h
    exact ⟨hhandles, _, rfl, Registry.works_freeBlock hf⟩
  | find | depthAt | traceback | tracebackInto | sizes | gate | handle => exact absurd trivial hk

/-- What a look makes of a workbench: nothing, unless it keeps the handle of a live region that it
found, or drops a handle. -/
inductive Looked (w : Workbench) : RegistryCall → RegistryReply → Workbench → Prop
  | same {k : RegistryCall} {reply : RegistryReply} :
      (∀ a name view, k = .find a (some name) → reply ≠ .region (some view)) →
      (∀ name, k ≠ .handle name .release) → Looked w k reply w
  | kept {a start : Address} {region : Region} {shown : RegionView} (name : String) :
      w.registry.liveRegions start = some region → ¬w.registry.gate.Invalid →
      RegionHandle.view ⟨start, region, ⟨w.registry.gate.sequence⟩⟩ w.registry.gate.read.2 a
        = .ok shown →
      Looked w (.find a (some name)) (.region (some shown))
        ⟨{ w.registry with gate := (w.handles.drop w.registry.gate.read.2 name).2 },
          (name, ⟨start, region, ⟨w.registry.gate.sequence⟩⟩) ::
            (w.handles.drop w.registry.gate.read.2 name).1⟩
  | dropped {reply : RegistryReply} (name : String) :
      Looked w (.handle name .release) reply
        ⟨{ w.registry with gate := (w.handles.drop w.registry.gate name).2 },
          (w.handles.drop w.registry.gate name).1⟩

/-- A call that looks leaves no notice. -/
theorem looked_of_answer (hk : k.Looks) (h : answer k w = ⟨notices, .ok (reply, w')⟩) :
    notices = [] ∧ w.Looked k reply w' := by
  cases k with
  | find a keepAs =>
    rw [answer] at h
    rcases w.registry.find_cases a with hfind | ⟨start, region, hlive, hgate, hfind⟩
    · -- nothing is found, and nothing is taken
      rw [hfind] at h
      cases h
      exact ⟨rfl, .same (by simp) (by simp)⟩
    · rw [hfind] at h
      obtain ⟨_, ⟨view, handles, gate⟩, _, hlift, hlast, rfl⟩ := Traced.bind_eq_mk_ok.1 h
      obtain ⟨rfl, hreceive⟩ := Traced.mk.inj hlift
      cases hlast
      refine ⟨rfl, ?_⟩
      -- the reader that the lookup took stays with a handle that is kept, else it is dropped
      rcases Handles.of_receive hreceive with
        ⟨hnone, -⟩ | ⟨handle, shown, hsome, hshown, rfl, hkept⟩
      · cases hnone
      · cases hsome
        rcases hkept with ⟨rfl, rfl, rfl⟩ | ⟨name, rfl, rfl, rfl⟩
        · exact .same (by simp) (by simp)
        · exact .kept name hlive hgate hshown
  | handle name call =>
    rw [answer] at h
    obtain ⟨_, ⟨replied, handles, gate⟩, _, hlift, hlast, rfl⟩ := Traced.bind_eq_mk_ok.1 h
    obtain ⟨rfl, hanswer⟩ := Traced.mk.inj hlift
    cases hlast
    refine ⟨rfl, ?_⟩
    have hdrop := Handles.of_answer hanswer
    split at hdrop
    · rename_i hrelease
      subst hrelease
      obtain ⟨rfl, rfl⟩ := Prod.ext_iff.1 hdrop
      exact .dropped name
    · rename_i hcall
      cases hdrop
      exact .same (by simp) fun other heq => hcall (RegistryCall.handle.inj heq).2
  | depthAt | traceback | tracebackInto | sizes | gate =>
    rw [answer] at h
    obtain ⟨rfl, rfl⟩ := of_ask h
    exact ⟨rfl, .same (by simp) (by simp)⟩
  | registerCode | addRegion | unregisterCode | clearRegions | clearBlocks | addBlock
  | registerDepths | freeBlock => exact hk.elim

/-- A look touches nothing but readers and handles. -/
theorem Looked.exists_readers (h : w.Looked k reply w') :
    ∃ readers, w'.registry = { w.registry with gate := ⟨w.registry.gate.sequence, readers⟩ } := by
  have hdrop (g : Gate) (name : String) :
      (w.handles.drop g name).2.sequence = g.sequence := by
    rw [Handles.drop_eq]
    show (if _ then _ else _ : Gate).sequence = _
    split <;> rfl
  cases h with
  | same => exact ⟨w.registry.gate.readers, rfl⟩
  | kept name =>
    refine ⟨(w.handles.drop w.registry.gate.read.2 name).2.readers, ?_⟩
    rw [← w.registry.gate.sequence_read, ← hdrop]
  | dropped name =>
    refine ⟨(w.handles.drop w.registry.gate name).2.readers, ?_⟩
    rw [← hdrop]

end Workbench

/-! ## (3) Readers and handles -/

/-- The names under which handles are held after an event. -/
def Event.handles (names : List String) (e : Event RegistryCall RegistryReply) : List String :=
  match e.step, e.answer with
  | .call (.find _ (some name)), .reply (.region (some _)) => name :: names.filter (· != name)
  | .call (.handle name .release), _ => names.filter (· != name)
  | _, _ => names

/-- An event takes or drops the handle of a name. -/
def Event.TakesHandle (e : Event RegistryCall RegistryReply) (name : String) : Prop :=
  (∃ a view, e.step = .call (.find a (some name)) ∧ e.answer = .reply (.region (some view))) ∨
    e.step = .call (.handle name .release)

namespace Workbench

variable {w w' : Workbench} {k : RegistryCall} {reply : RegistryReply} {notices : List Notice}
  {s s' : Session Workbench} {e : Event RegistryCall RegistryReply}
  {events : List (Event RegistryCall RegistryReply)}

/-- An event is a call that writes, a call that looks, or a step on the gate and its readers that
touches neither maps nor handles. -/
theorem cases_of_happens (h : Session.Happens answer s e s') :
    (∃ k reply ms, e.step = .call k ∧ e.answer = .reply reply ∧ ¬k.Looks ∧ k.Performs reply ms ∧
      s.subject.registry.Works e.notices ms s'.subject.registry ∧
      s'.subject.handles = s.subject.handles ∧ s'.guards = s.guards) ∨
    (∃ k reply, e.step = .call k ∧ e.answer = .reply reply ∧ k.Looks ∧ e.notices = [] ∧
      s.subject.Looked k reply s'.subject ∧ s'.guards = s.guards) ∨
    (∀ k, e.step ≠ .call k) ∧ e.notices = [] ∧ ∃ g, s'.subject = Gated.withGate s.subject g := by
  rcases h.call_or_withGate with ⟨k, reply, hstep, hanswer, hguards, hcall⟩ | hother
  · by_cases hk : k.Looks
    · obtain ⟨hnotices, hlooked⟩ := looked_of_answer hk hcall
      exact .inr (.inl ⟨k, reply, hstep, hanswer, hk, hnotices, hlooked, hguards⟩)
    · obtain ⟨hhandles, ms, hms, hworks⟩ := works_of_answer hk hcall
      exact .inl ⟨k, reply, ms, hstep, hanswer, hk, hms, hworks, hhandles, hguards⟩
  · exact .inr (.inr hother)

/-- The names in use are told by what happened. -/
theorem handles_of_happens (h : Session.Happens answer s e s') :
    s'.subject.handles.map (·.1) = e.handles (s.subject.handles.map (·.1)) := by
  obtain ⟨step, a, notices⟩ := e
  rcases cases_of_happens h with ⟨k, reply, ms, rfl, rfl, hk, -, -, hhandles, -⟩ |
    ⟨k, reply, rfl, rfl, -, -, hlooked, -⟩ | ⟨hstep, -, g, hg⟩
  · -- a call that writes is none of those that an account of handles knows
    rw [hhandles]
    unfold Event.handles
    split
    · rename_i heq _
      cases heq
      exact absurd trivial hk
    · rename_i heq
      cases heq
      exact absurd trivial hk
    · rfl
  · generalize s'.subject = w' at hlooked
    cases hlooked with
    -- nothing was kept and nothing dropped, so no name is added and none is taken off
    | same hfind hdrop =>
      unfold Event.handles
      split
      · rename_i hstep hanswer
        cases hstep
        cases hanswer
        exact absurd rfl (hfind _ _ _ rfl)
      · rename_i hstep
        cases hstep
        exact absurd rfl (hdrop _)
      · rfl
    | kept name => rw [Handles.drop_eq, List.map_cons, map_filter_ne]; rfl
    | dropped name => rw [Handles.drop_eq, map_filter_ne]; rfl
  · -- steps on the gate know no handles
    rw [hg]
    unfold Event.handles
    split
    · exact absurd ‹_› (hstep _)
    · exact absurd ‹_› (hstep _)
    · rfl

/-- The names of the handles are told by the events so far. -/
theorem handles_of_passes (h : Session.Passes answer s events s') :
    s'.subject.handles.map (·.1) = events.foldl Event.handles (s.subject.handles.map (·.1)) :=
  h.foldl (I := fun names s => s.subject.handles.map (·.1) = names) rfl fun hnames he => by
    rw [handles_of_happens he, hnames]

/-- The gate counts the readers and the handles that are held, each name once. -/
structure Counted (s : Session Workbench) : Prop where
  counts : s.Counts fun w => w.handles.length
  nodup : (s.subject.handles.map (·.1)).Nodup

/-- Nothing is held at first. -/
theorem counted_start (t : Tuning) : Counted (.start (start t)) := ⟨⟨rfl, .nil⟩, .nil⟩

/-- The count of readers and handles stays right. -/
theorem Counted.happens (h : Counted s) (he : Session.Happens answer s e s') : Counted s' := by
  refine ⟨h.counts.happens he (fun _ _ => rfl) fun {k notices reply w n} hcall hreaders => ?_, ?_⟩
  · replace hreaders : s.subject.registry.gate.readers = s.subject.handles.length + n :=
      hreaders.trans (Nat.add_comm _ _)
    by_cases hk : k.Looks
    · obtain ⟨-, hlooked⟩ := looked_of_answer hk hcall
      cases hlooked with
      | same => exact hreaders.trans (Nat.add_comm _ _)
      | kept name =>
        -- the handle has a reader of its own, apart from the one that is dropped with its name
        have hreading : s.subject.registry.gate.read.2.readers
            = s.subject.handles.length + (n + 1) := congrArg (· + 1) hreaders
        have hdrop := readers_filter_ne hreading h.nodup name
        show (s.subject.handles.drop _ name).2.readers =
          n + ((s.subject.handles.drop _ name).1.length + 1)
        rw [Handles.drop_eq]
        exact hdrop.trans (Nat.add_left_comm _ _ _)
      | dropped name =>
        have hdrop := readers_filter_ne hreaders h.nodup name
        show (s.subject.handles.drop _ name).2.readers =
          n + (s.subject.handles.drop _ name).1.length
        rw [Handles.drop_eq, hdrop, Nat.add_comm]
    · obtain ⟨hhandles, ms, -, hworks⟩ := works_of_answer hk hcall
      show w.registry.gate.readers = n + w.handles.length
      rw [hworks.undergoes.gate, hhandles]
      exact hreaders.trans (Nat.add_comm _ _)
  · rw [handles_of_happens he]
    unfold Event.handles
    split
    · exact nodup_cons_filter_ne h.nodup
    · exact h.nodup.filter _
    · exact h.nodup

/-- The count is right after any events. -/
theorem counted_of_passes (h : Session.Passes answer s events s') (hs : Counted s) : Counted s' :=
  h.invariant hs fun _ hcounted he => hcounted.happens he

/-- Nobody holds a reader or a handle. -/
def Unread (s : Session Workbench) : Prop := s.guards = [] ∧ s.subject.handles = []

/-- The gate has no reader exactly if nothing is held. -/
theorem Counted.quiescent_iff (h : Counted s) : s.gate.Quiescent ↔ Unread s := by
  rw [Gate.Quiescent, h.counts.readers, Unread, ← List.length_eq_zero_iff,
    ← List.length_eq_zero_iff]
  exact Nat.add_eq_zero_iff

/-- A handle is held until it is released or its name is used again. -/
theorem handle_of_happens {name : String} (h : Session.Happens answer s e s')
    (hkept : ¬e.TakesHandle name) :
    s'.subject.handles.lookup name = s.subject.handles.lookup name := by
  obtain ⟨step, a, notices⟩ := e
  rcases cases_of_happens h with ⟨k, reply, ms, rfl, rfl, -, -, -, hhandles, -⟩ |
    ⟨k, reply, rfl, rfl, -, -, hlooked, -⟩ | ⟨hstep, -, g, hg⟩
  · rw [hhandles]
  · generalize s'.subject = w' at hlooked
    cases hlooked with
    | same => rfl
    | kept other =>
      have hne : name ≠ other := fun heq => hkept (heq ▸ .inl ⟨_, _, rfl, rfl⟩)
      rw [Handles.drop_eq, List.lookup_cons, beq_false_of_ne hne, lookup_filter_ne hne]
    | dropped other =>
      have hne : name ≠ other := fun heq => hkept (heq ▸ .inr rfl)
      rw [Handles.drop_eq, lookup_filter_ne hne]
  · rw [hg]
    rfl

/-- And it is held over events none of which does that. -/
theorem handle_of_passes {name : String} (h : Session.Passes answer s events s')
    (hkept : ∀ e ∈ events, ¬e.TakesHandle name) :
    s'.subject.handles.lookup name = s.subject.handles.lookup name := by
  refine h.invariant (I := fun s' => s'.subject.handles.lookup name = s.subject.handles.lookup name)
    rfl fun hmem hsame he => ?_
  rw [handle_of_happens he (hkept _ hmem), hsame]

/-- A lookup that shows a region and keeps its handle found it live, behind a clear gate. -/
theorem found_of_happens {a : Address} {name : String} {view : RegionView}
    (h : Session.Happens answer s e s') (hstep : e.step = .call (.find a (some name)))
    (hanswer : e.answer = .reply (.region (some view))) :
    ∃ start region, s.subject.registry.liveRegions start = some region ∧ ¬s.gate.Invalid ∧
      RegionHandle.view ⟨start, region, ⟨s.gate.sequence⟩⟩ s.gate.read.2 a = .ok view ∧
      s'.subject.registry.regions = s.subject.registry.regions ∧
      s'.subject.handles.lookup name = some ⟨start, region, ⟨s.gate.sequence⟩⟩ := by
  obtain ⟨step, answered, notices⟩ := e
  subst hstep hanswer
  rcases cases_of_happens h with ⟨k, reply, ms, hk, -, hwrites, -⟩ |
    ⟨k, reply, hk, hreply, -, -, hlooked, -⟩ | ⟨hother, -⟩
  · cases hk
    exact absurd trivial hwrites
  · cases hk
    cases hreply
    generalize s'.subject = w' at hlooked
    cases hlooked with
    | same hfind _ => exact absurd rfl (hfind _ _ _ rfl)
    | kept _ hlive hgate hshown =>
      refine ⟨_, _, hlive, hgate, hshown, rfl, ?_⟩
      rw [List.lookup_cons, beq_self_eq_true]
      rfl
  · exact absurd rfl (hother _)

end Workbench

end TraceAtlas
