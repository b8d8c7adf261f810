import TraceAtlas.Script.Op
import TraceAtlas.Tuning

/-! # Scripts

A script is a list of operations to replay, with settings for the registry and the addresses to
sample at the end. What can be told without replaying is checked first.

## Main definitions
* `Script` : operations, settings and addresses.
* `InvalidOp` : why an operation makes no sense.
* `Op.validate`, `Script.validate` : the check; the first bad operation is reported.
-/

namespace TraceAtlas

/-- A script. -/
structure Script where
  queries : List Address
  settings : Tuning.Overrides
  ops : List Op
  deriving DecidableEq, Repr

/-- Why an operation makes no sense. -/
inductive InvalidOp where
  /-- Positions and depths do not come in pairs. -/
  | unpaired (positions depths : Nat)
  /-- Positions go back. -/
  | notAscending
  /-- A block of code ends before it starts. -/
  | reversed (start stop : Address)
  /-- The last position is behind the end of the block. -/
  | pastEnd (position : Offset)
  /-- The events of a trace go back. -/
  | backwards (offset previous : Offset)
  deriving DecidableEq, Repr

namespace InvalidOp

/-- The reason in words. -/
def message : InvalidOp → String
  | unpaired positions depths => s!"{positions} positions but {depths} depths"
  | notAscending => "positions are not ascending"
  | reversed start stop =>
    s!"block {Address.hex start}..{Address.hex stop} ends before it starts"
  | pastEnd position =>
    s!"position {Numeral.hex position.toNat} is past the end of the block"
  | backwards offset previous => s!"trace offset {offset} goes backwards from {previous}"

end InvalidOp

/-- Why a text is no script. -/
inductive ScriptError where
  /-- The text is not the TOML of a script. -/
  | malformed
  /-- An operation makes no sense. -/
  | invalid (position : Nat) (reason : InvalidOp)
  deriving DecidableEq, Repr

namespace ScriptError

/-- The reason in words. -/
def message : ScriptError → String
  | malformed => "TOML parse error"
  | invalid position reason => s!"op {position}: {reason.message}"

end ScriptError

namespace Op

/-- No position is behind the next one. -/
def Ascending (positions : List Offset) : Prop :=
  positions.Pairwise (· ≤ ·)

instance (positions : List Offset) : Decidable (Ascending positions) :=
  inferInstanceAs (Decidable (List.Pairwise _ _))

/-- Checks that the events behind an offset do not go back. -/
def validateEvents (previous : Offset) : List TraceEvent → Except InvalidOp Unit
  | [] => .ok ()
  | event :: events =>
    if event.offset < previous then .error (.backwards event.offset previous)
    else validateEvents event.offset events

/-- Checks what can be told of an operation alone. -/
def validate : Op → Except InvalidOp Unit
  | frameDepths start stop positions depths =>
    if positions.length ≠ depths.length then
      .error (.unpaired positions.length depths.length)
    -- the order of these rules decides which one is reported
    else if ¬Ascending positions then .error .notAscending
    else if stop < start then .error (.reversed start stop)
    else
      match positions.getLast? with
      | none => .ok ()
      | some last =>
        if stop < Address.advance start last.toUInt64 then .error (.pastEnd last) else .ok ()
  | free start stop => if stop < start then .error (.reversed start stop) else .ok ()
  | addTrace _ _ _ events => validateEvents 0 events
  | addCode .. | removeCode .. | addDepth .. | clearDepth .. => .ok ()

end Op

namespace Script

/-- Checks operations of which the first has a position in the script. -/
def validateFrom (position : Nat) : List Op → Except ScriptError Unit
  | [] => .ok ()
  | op :: ops =>
    match op.validate with
    | .error reason => .error (.invalid position reason)
    | .ok () => validateFrom (position + 1) ops

/-- Checks the operations of a script in order. -/
def validate (s : Script) : Except ScriptError Unit := validateFrom 0 s.ops

end Script

end TraceAtlas
