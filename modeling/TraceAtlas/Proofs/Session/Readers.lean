import Mathlib.Data.List.Nodup
import TraceAtlas.Proofs.Session.History

/-! # Who reads in a session

The gate counts its readers and does not know who they are. In a session they are held under names,
and taking a reader under a name that is used drops the one before. So the gate counts as many
readers as there are names in use, and those that what stands behind the gate has registered itself.

## Main definitions
* `Event.readers` : the names in use after an event.
* `Session.Counts` : the gate counts the readers that are held.

## Main statements
* `Session.Happens.names_eq` : the names in use are told by what happened.
* `Session.Counts.happens` : the count stays right.
* `Session.Passes.held?_eq` : a reader is held until it is dropped or its name is used again.
-/

namespace TraceAtlas

/-! ## (1) Lists of names -/

section Names

variable {β : Type} {l : List (String × β)} {name other : String}

/-- A name is used if something is held under it. -/
theorem lookup_ne_none_iff : l.lookup name ≠ none ↔ name ∈ l.map (·.1) := by
  rw [Ne, List.lookup_eq_none_iff]
  simp only [bne_iff_ne, List.mem_map, not_forall, not_not, exists_prop, eq_comm (a := name)]

/-- Forgetting what is held under a name forgets the name. -/
theorem map_filter_ne : (l.filter (·.1 != name)).map (·.1) = (l.map (·.1)).filter (· != name) := by
  rw [List.filter_map]
  rfl

/-- What is not held needs no dropping. -/
theorem filter_ne_of_lookup (h : l.lookup name = none) : l.filter (·.1 != name) = l := by
  refine List.filter_eq_self.2 fun p hp => bne_iff_ne.2 fun heq => ?_
  exact lookup_ne_none_iff.2 (heq ▸ List.mem_map_of_mem hp) h

/-- Dropping what is held under a name drops one thing, if names are used once. -/
theorem length_filter_ne (h : l.lookup name ≠ none) (hnodup : (l.map (·.1)).Nodup) :
    (l.filter (·.1 != name)).length + 1 = l.length := by
  have hmem := lookup_ne_none_iff.1 h
  have herase : (l.filter (·.1 != name)).map (·.1) = (l.map (·.1)).erase name := by
    rw [map_filter_ne, hnodup.erase_eq_filter]
  have hlength := congrArg List.length herase
  rw [List.length_map, List.length_erase_of_mem hmem, List.length_map] at hlength
  have := List.length_pos_of_mem hmem
  rw [List.length_map] at this
  omega

/-- What is held under other names stays. -/
theorem lookup_filter_ne (h : other ≠ name) :
    (l.filter (·.1 != name)).lookup other = l.lookup other := by
  induction l with
  | nil => rfl
  | cons p l ih =>
    obtain ⟨key, b⟩ := p
    by_cases hkey : key = name
    · have hother : (other == key) = false := beq_false_of_ne (hkey ▸ h)
      rw [List.filter_cons_of_neg (by simp [hkey]), ih, List.lookup_cons, hother]
    · rw [List.filter_cons_of_pos (by simp [hkey]), List.lookup_cons, List.lookup_cons, ih]

/-- A name that is put first in place of an older one stands once. -/
theorem nodup_cons_filter_ne {names : List String} (h : names.Nodup) :
    (name :: names.filter (· != name)).Nodup :=
  List.nodup_cons.2 ⟨by simp, h.filter _⟩

/-- Each thing that is held has a reader on the gate. Whoever drops what is held under a name takes
its reader off, if anything is held. -/
theorem readers_filter_ne {g : Gate} {n : Nat} (h : g.readers = l.length + n)
    (hnodup : (l.map (·.1)).Nodup) (name : String) :
    (if l.lookup name = none then g else g.release).readers =
      (l.filter (·.1 != name)).length + n := by
  split
  · rw [filter_ne_of_lookup ‹_›]
    exact h
  · have hlength := length_filter_ne ‹_› hnodup
    show g.readers - 1 = _
    omega

end Names

/-- The names under which readers are held after an event. -/
def Event.readers {κ ρ : Type} (names : List String) (e : Event κ ρ) : List String :=
  match e.step with
  | .read name => name :: names.filter (· != name)
  | .release name => names.filter (· != name)
  | _ => names

namespace Session

variable {κ ρ σ : Type} [Gated σ] {answer : κ → σ → Traced (ρ × σ)} {s s' : Session σ}
  {e : Event κ ρ} {events : List (Event κ ρ)} {name : String}

/-! ## (2) Holding readers -/

/-- Dropping a reader forgets it. -/
theorem guards_drop (s : Session σ) (name : String) :
    (s.drop name).guards = s.guards.filter (·.1 != name) := by
  unfold drop
  split
  · exact (filter_ne_of_lookup ‹_›).symm
  · rfl

/-- A reader that is taken starts at the number of the gate, in place of one of the same name. -/
theorem guards_read (s : Session σ) (name : String) :
    (s.read name).2.guards = (name, ⟨s.gate.sequence⟩) :: s.guards.filter (·.1 != name) :=
  congrArg (_ :: ·) (guards_drop _ name)

/-- A reader that was just taken is held, and started at the number that the gate had. -/
theorem held?_read (s : Session σ) (name : String) :
    (s.read name).2.held? name = some ⟨s.gate.sequence⟩ := by
  rw [held?, guards_read, List.lookup_cons, beq_self_eq_true]

/-- The names in use are told by what happened. -/
theorem Happens.names_eq (h : Happens answer s e s') :
    s'.guards.map (·.1) = e.readers (s.guards.map (·.1)) := by
  cases h with
  | read name => rw [guards_read, List.map_cons, map_filter_ne]; rfl
  | release _ => rw [guards_drop, map_filter_ne]; rfl
  | releaseUnheld hheld =>
    rw [← filter_ne_of_lookup hheld, map_filter_ne]
    simp [Event.readers]
  | _ => rfl

/-- The readers held are told by the events so far. -/
theorem Passes.names_eq (h : Passes answer s events s') :
    s'.guards.map (·.1) = events.foldl Event.readers (s.guards.map (·.1)) :=
  h.foldl (I := fun names s => s.guards.map (·.1) = names) rfl fun hnames he => by
    rw [he.names_eq, hnames]

/-- A reader is held until it is dropped or its name is used again. -/
theorem Happens.held?_eq (h : Happens answer s e s') (hread : e.step ≠ .read name)
    (hrelease : e.step ≠ .release name) : s'.held? name = s.held? name := by
  cases h with
  | read other =>
    have hne : name ≠ other := fun heq => hread (heq ▸ rfl)
    rw [held?, guards_read, List.lookup_cons, beq_false_of_ne hne, lookup_filter_ne hne]
    rfl
  | @release other _ _ =>
    have hne : name ≠ other := fun heq => hrelease (heq ▸ rfl)
    rw [held?, guards_drop, lookup_filter_ne hne]
    rfl
  | _ => rfl

/-- A reader is held until it is dropped or its name is used again. -/
theorem Passes.held?_eq (h : Passes answer s events s')
    (hkept : ∀ e ∈ events, e.step ≠ .read name ∧ e.step ≠ .release name) :
    s'.held? name = s.held? name := by
  refine h.invariant (I := fun s' => s'.held? name = s.held? name) rfl fun hmem hsame he => ?_
  obtain ⟨hread, hrelease⟩ := hkept _ hmem
  rw [he.held?_eq hread hrelease, hsame]

/-! ## (3) Counting readers -/

variable [LawfulGated σ] {others : σ → Nat}

/-- The gate that is put in place is the one there is. -/
@[simp] theorem gate_withGate (s : Session σ) (g : Gate) : (s.withGate g).gate = g :=
  LawfulGated.gate_withGate s.subject g

/-- Dropping a reader that is held takes it off the gate. -/
theorem gate_drop (s : Session σ) (name : String) :
    (s.drop name).gate = if s.guards.lookup name = none then s.gate else s.gate.release := by
  unfold drop
  split
  · rw [if_pos ‹_›]
  · rename_i guard hheld
    have hsome : s.guards.lookup name ≠ none := by
      intro hnone
      rw [held?, hnone] at hheld
      cases hheld
    rw [if_neg hsome]
    exact gate_withGate s _

/-- Dropping a reader moves no number. -/
theorem sequence_drop (s : Session σ) (name : String) :
    (s.drop name).gate.sequence = s.gate.sequence := by
  rw [gate_drop]
  split <;> rfl

/-- Neither does taking one. -/
theorem sequence_read (s : Session σ) (name : String) :
    (s.read name).2.gate.sequence = s.gate.sequence := by
  show ((s.withGate s.gate.read.2).drop name).gate.sequence = _
  rw [sequence_drop, gate_withGate]
  rfl

/-- The gate counts the readers that are held by name, each name once, and those that what stands
behind the gate has registered. -/
structure Counts (others : σ → Nat) (s : Session σ) : Prop where
  readers : s.gate.readers = s.guards.length + others s.subject
  nodup : (s.guards.map (·.1)).Nodup

/-- A dropped reader is counted no more. -/
theorem Counts.readers_drop (h : s.Counts others) (name : String) :
    (s.drop name).gate.readers = (s.drop name).guards.length + others s.subject := by
  rw [gate_drop, guards_drop]
  exact readers_filter_ne h.readers h.nodup name

/-- The count stays right, if calls keep to the count of the readers that they register. -/
theorem Counts.happens (h : s.Counts others) (he : Happens answer s e s')
    (hothers : ∀ x g, others (Gated.withGate x g) = others x)
    (hcall : ∀ {k notices reply x n}, answer k s.subject = ⟨notices, .ok (reply, x)⟩ →
      s.gate.readers = n + others s.subject → (Gated.gate x).readers = n + others x) :
    s'.Counts others := by
  have hnodup : (s'.guards.map (·.1)).Nodup := by
    rw [he.names_eq]
    unfold Event.readers
    split
    · exact nodup_cons_filter_ne h.nodup
    · exact h.nodup.filter _
    · exact h.nodup
  refine ⟨?_, hnodup⟩
  have hdrop (s : Session σ) (name : String) : others (s.drop name).subject = others s.subject := by
    obtain ⟨g, hg⟩ := s.exists_subject_drop name
    rw [hg, hothers]
  cases he with
  | setInvalid _ | clearInvalid _ =>
    rw [gate_withGate]
    exact h.readers.trans (congrArg _ (hothers _ _).symm)
  | isInvalid | validate _ | validateUnheld _ | releaseUnheld _ => exact h.readers
  | release _ =>
    rw [hdrop]
    exact h.readers_drop _
  | read name =>
    -- the new reader is counted before the one that had its name is dropped
    have hreading : (s.withGate s.gate.read.2).Counts fun x => others x + 1 := by
      refine ⟨?_, h.nodup⟩
      rw [gate_withGate, Gate.readers_read, h.readers]
      show _ = s.guards.length + (others (Gated.withGate s.subject _) + 1)
      rw [hothers, Nat.add_assoc]
    have hreaders := hreading.readers_drop name
    show ((s.withGate s.gate.read.2).drop name).gate.readers =
      ((s.withGate s.gate.read.2).drop name).guards.length + 1
        + others ((s.withGate s.gate.read.2).drop name).subject
    rw [hreaders, hdrop]
    omega
  | call hanswer => exact hcall hanswer h.readers

end Session

end TraceAtlas
