import TraceAtlas.Chain.Basic
import TraceAtlas.Fault

/-! # Walking a chain

A walk looks for the frames that are active at one offset, enclosing frames first. It stops for good
at the first record that starts behind the offset, steps into a record that is still active, and
follows the skip pointer of one that has ended. A cursor says where the next step goes on.

## Main definitions
* `Chain.nextFrame` : one step; a miss gives the cursor back.
* `Chain.walk` : the steps up to the first miss.
* `Chain.frames` : the frames that a walk from the first word meets.
* `Chain.fill` : the same frames, as many as a buffer holds.
-/

namespace TraceAtlas

/-- What a step of a walk yields: a frame or none, and the cursor to go on from. -/
abbrev Found := Option FrameId × Nat

namespace Chain

/-! ## (1) One step

The search ends because every skip it follows leads to a later word. -/

/-- Looks for the next active frame from word `index` on. A miss gives `cursor` back. -/
def seek (c : Chain) (offset cursor index : Nat) : Except Fault Found :=
  match _ : c.recordAt? index with
  | none => .ok (none, cursor)
  | some r =>
    -- starts do not decrease, so no later record can be active either
    if offset < r.start.toNat then .ok (none, cursor)
    else if offset < r.stop.toNat then .ok (some r.frame, index + Record.width)
    -- the record has ended, and with it everything nested in it
    else if index + Record.width ≤ r.next.toNat then c.seek offset cursor r.next.toNat
    else .error .backwardSkip
termination_by c.length - index
decreasing_by
  have := length_ge_of_recordAt? ‹c.recordAt? index = some _›
  simp only [Record.width] at *
  omega

/-- One record at a time: a search stops, hits, or follows the skip pointer. -/
theorem seek_eq (c : Chain) (offset cursor index : Nat) :
    c.seek offset cursor index =
      match c.recordAt? index with
      | none => .ok (none, cursor)
      | some r =>
        if offset < r.start.toNat then .ok (none, cursor)
        else if offset < r.stop.toNat then .ok (some r.frame, index + Record.width)
        else if index + Record.width ≤ r.next.toNat then c.seek offset cursor r.next.toNat
        else .error .backwardSkip := by
  rw [seek]
  split <;> simp [*]

/-- The next frame that is active at an offset, from a cursor on, and the cursor behind it. -/
def nextFrame (c : Chain) (offset cursor : Nat) : Except Fault Found :=
  c.seek offset cursor cursor

/-- A frame is found in a record that lies wholly in the chain, at or behind the word the search
starts from. -/
theorem seek_hit {c : Chain} {offset cursor index : Nat} {f : FrameId} {after : Nat}
    (h : c.seek offset cursor index = .ok (some f, after)) :
    index + Record.width ≤ after ∧ after ≤ c.length := by
  fun_induction seek c offset cursor index with
  | case1 => simp at h
  | case2 => simp at h
  | case3 index r hr hs ht =>
    simp only [Except.ok.injEq, Prod.mk.injEq, Option.some.injEq] at h
    have := length_ge_of_recordAt? hr
    omega
  | case4 index r hr hs ht hn ih =>
    have := ih h
    simp only [Record.width] at *
    omega
  | case5 => simp at h

/-! ## (2) Whole walks -/

/-- The steps of a walk from a cursor, each resuming where the one before ended, up to and including
the first miss. -/
def walk (c : Chain) (offset cursor : Nat) : Except Fault (List Found) :=
  match _ : c.nextFrame offset cursor with
  | .error e => .error e
  | .ok (none, after) => .ok [(none, after)]
  | .ok (some f, after) => (c.walk offset after).map ((some f, after) :: ·)
termination_by c.length - cursor
decreasing_by
  have := seek_hit ‹c.nextFrame offset cursor = .ok (some _, _)›
  simp only [Record.width] at this
  omega

/-- One step at a time: a walk ends with a fault or a miss, or goes on behind a hit. -/
theorem walk_eq (c : Chain) (offset cursor : Nat) :
    c.walk offset cursor =
      match c.nextFrame offset cursor with
      | .error e => .error e
      | .ok (none, after) => .ok [(none, after)]
      | .ok (some f, after) => (c.walk offset after).map ((some f, after) :: ·) := by
  rw [walk]
  split <;> simp [*]

/-- The frames that are active at an offset, enclosing frames first. -/
def frames (c : Chain) (offset : Nat) : Except Fault (List FrameId) :=
  (c.walk offset 0).map fun steps => steps.filterMap (·.1)

/-- Overwrites the front of a buffer with the frames met from a cursor on; says how many there were.
The walk is asked for a frame only while there is room. -/
def fill (c : Chain) (offset cursor : Nat) : List FrameId → Except Fault (Nat × List FrameId)
  | [] => .ok (0, [])
  | old :: room =>
    match c.nextFrame offset cursor with
    | .error e => .error e
    | .ok (none, _) => .ok (0, old :: room)
    | .ok (some f, after) =>
      (c.fill offset after room).map fun (n, out) => (n + 1, f :: out)

/-- The answers of `calls` steps in a row; past a miss every step misses at the same cursor. -/
def pull (c : Chain) (offset cursor : Nat) : Nat → Except Fault (List Found)
  | 0 => .ok []
  | calls + 1 =>
    match c.nextFrame offset cursor with
    | .error e => .error e
    | .ok (f, after) => (c.pull offset after calls).map ((f, after) :: ·)

end Chain

end TraceAtlas
