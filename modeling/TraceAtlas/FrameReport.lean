import TraceAtlas.Chain.Walk
import TraceAtlas.Text.JsonTree

/-! # Reports on frames

How a walk along a chain is shown: its steps if they are wanted, then the frames it met, a line each
or as one JSON list.

## Main definitions
* `FrameReport.stepLines` : a line for each step, which begins at the cursor the step before gave
  back.
* `FrameReport.frames` : the frames that a walk met.
* `FrameReport.lines`, `FrameReport.json` : the frames alone.
-/

namespace TraceAtlas

namespace FrameReport

/-- What a step found, as a word. -/
def foundWord : Option FrameId → String
  | none => "None"
  | some f => "Some(" ++ toString f ++ ")"

/-- A line for each step of a walk that goes on from a cursor. -/
def stepLines (cursor : Nat) : List Found → List String
  | [] => []
  | (frame, after) :: steps =>
    ("cursor " ++ toString cursor ++ " -> " ++ foundWord frame ++ ", " ++ toString after) ::
      stepLines after steps

/-- The frames that a walk met. -/
def frames (steps : List Found) : List FrameId := steps.filterMap (·.1)

/-- A line for each frame. -/
def lines (fs : List FrameId) : String := String.join (fs.map fun f => toString f ++ "\n")

/-- All frames as one JSON list. -/
def json (fs : List FrameId) : String :=
  (JsonTree.list (fs.map fun f => .number f.toNat)).compact ++ "\n"

end FrameReport

end TraceAtlas
