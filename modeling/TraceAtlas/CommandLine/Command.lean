import TraceAtlas.Chain.Basic
import TraceAtlas.CommandLine.Arguments
import TraceAtlas.Tuning

/-! # Commands

Two commands are known: `replay` replays a script and samples addresses, `decode` shows the frames
of a chain that are active at an offset. A command line that fits neither is refused as a whole.

## Main definitions
* `ReplayRequest`, `DecodeRequest`, `Command` : what is asked for.
* `Command.parse?` : the command that words spell.
-/

namespace TraceAtlas

/-- A script to replay, and how. -/
structure ReplayRequest where
  /-- Where the script is. -/
  path : String
  /-- Addresses to sample besides those of the script. -/
  pcs : List Address
  /-- The samples are wanted as JSON. -/
  json : Bool
  /-- Settings that win over those of the script. -/
  settings : Tuning.Overrides
  deriving DecidableEq, Repr

/-- A chain to decode, and where. -/
structure DecodeRequest where
  chain : Chain
  offset : Offset
  /-- The size of the region that the chain describes. -/
  regionSize : Option UInt32
  /-- Every step of the walk is wanted too. -/
  steps : Bool
  /-- The frames are wanted as JSON. -/
  json : Bool
  deriving DecidableEq, Repr

/-- A command. -/
inductive Command where
  | replay (request : ReplayRequest)
  | decode (request : DecodeRequest)
  deriving DecidableEq, Repr

namespace Command

/-! ## (1) Numbers -/

/-- Reads a 64-bit word in decimal. -/
def word? (text : String) : Option UInt64 :=
  (Numeral.read 10 UInt64.size text.toList).toOption.map UInt64.ofNat

/-- Reads a 32-bit word in decimal. Zero may have a minus sign. -/
def word32? (text : String) : Option UInt32 :=
  match text.toList with
  -- a number with a sign is read first and held against the range after
  | '-' :: zeros => if zeros ≠ [] ∧ zeros.all (· == '0') then some 0 else none
  | digits => (Numeral.read 10 UInt32.size digits).toOption.map UInt32.ofNat

/-- The pieces of a text between commas, at least one. -/
def pieces : List Char → List String
  | [] => [""]
  | ',' :: cs => "" :: pieces cs
  | c :: cs =>
    match pieces cs with
    | [] => [c.toString]
    | first :: rest => (c.toString ++ first) :: rest

/-- Reads 32-bit words between commas. -/
def words32? (text : String) : Option (List UInt32) := (pieces text.toList).mapM word32?

/-! ## (2) Requests -/

/-- Reads the value of an option that is given at most once. -/
def value? {α : Type} (read : String → Option α) (name : String) (given : List Argument) :
    Option (Option α) :=
  match Argument.valuesOf name given with
  | [] => some none
  | text :: _ => (read text).map some

/-- The options of `replay`. -/
def replayOptions : List OptionForm :=
  [⟨"pc", true, true⟩, ⟨"json", false, false⟩, ⟨"max-height", true, false⟩,
    ⟨"chunk-size", true, false⟩, ⟨"seed", true, false⟩]

/-- Reads the arguments of `replay`: one path, which must not be empty, and options. -/
def replay? (words : List String) : Option ReplayRequest := do
  let given ← Argument.parse replayOptions words
  let [path] := Argument.plains given | none
  if path.isEmpty then none
  return {
    path
    pcs := ← (Argument.valuesOf "pc" given).mapM fun text => (Address.parse text).toOption
    json := Argument.has "json" given
    settings := {
      maxHeight := ← value? word? "max-height" given
      chunkSize := ← value? word? "chunk-size" given
      seed := ← value? word? "seed" given } }

/-- The options of `decode`. -/
def decodeOptions : List OptionForm :=
  [⟨"chain", true, true⟩, ⟨"offset", true, false⟩, ⟨"region-size", true, false⟩,
    ⟨"steps", false, false⟩, ⟨"json", false, false⟩]

/-- Reads the arguments of `decode`: options alone, among them the offset and at least one part of
the chain. -/
def decode? (words : List String) : Option DecodeRequest := do
  let given ← Argument.parse decodeOptions words
  let [] := Argument.plains given | none
  let parts := Argument.valuesOf "chain" given
  if parts.isEmpty then none
  return {
    chain := ⟨(← parts.mapM words32?).flatten⟩
    offset := ← (← value? word32? "offset" given)
    regionSize := ← value? word32? "region-size" given
    steps := Argument.has "steps" given
    json := Argument.has "json" given }

/-- The command that words spell; its name comes first. -/
def parse? : List String → Option Command
  | "replay" :: words => (replay? words).map replay
  | "decode" :: words => (decode? words).map decode
  | _ => none

end Command

end TraceAtlas
