import TraceAtlas.Datum
import TraceAtlas.Script.Basic
import TraceAtlas.Toml.Document

/-! # Reading scripts

Scripts are written in TOML. What the data may be is strict: a field that is unknown, missing or out
of range spoils the script, except that a frame event may carry fields nobody asks for. Settings and
operations may also be given as lists of their fields in order.

## Main definitions
* `Op.ofDatum?` : an operation from data, whatever notation the data had.
* `Script.ofDatum?` : a script from data.
* `Script.parse` : a script from TOML, checked.
-/

namespace TraceAtlas

/-- The fields of a record: those of a table, if all of them have one of the names, or the items of
a list under the names in order. -/
def Datum.record? (names : List String) : Datum → Option (List (String × Datum))
  | table fields => if fields.all fun (name, _) => names.contains name then some fields else none
  | list items => some (names.zip items)
  | _ => none

/-- Reads a field that must be there. -/
def Datum.required {α : Type} (fields : List (String × Datum)) (name : String)
    (read : Datum → Option α) : Option α :=
  fields.lookup name >>= read

/-- Reads a field that has a value if it is missing. -/
def Datum.optional {α : Type} (fields : List (String × Datum)) (name : String)
    (read : Datum → Option α) (missing : α) : Option α :=
  match fields.lookup name with
  | none => some missing
  | some d => read d

/-! ## (1) Settings -/

/-- Reads a setting. Nothing in its place leaves it open. -/
def Datum.setting? {α : Type} (read : Datum → Option α) : Datum → Option (Option α)
  | nothing => some none
  | d => (read d).map some

/-- Reads settings. A list must go through all of them. -/
def Tuning.Overrides.ofDatum? (d : Datum) : Option Tuning.Overrides := do
  let names := ["max-height", "chunk-size", "seed", "max-nodes"]
  let fields ← d.record? names
  if let .list items := d then
    if items.length < names.length then none
  let word := Datum.setting? Datum.word?
  let word32 := Datum.setting? Datum.word32?
  return {
    maxHeight := ← Datum.optional fields "max-height" word none
    chunkSize := ← Datum.optional fields "chunk-size" word none
    seed := ← Datum.optional fields "seed" word none
    maxNodes := ← Datum.optional fields "max-nodes" word32 none }

/-! ## (2) Operations -/

/-- Reads a frame event. Fields nobody asks for do not matter, and one that enters a frame is not
looked at any further. -/
def TraceEvent.ofDatum? : Datum → Option TraceEvent
  | .table fields =>
    let entered := do
      let frame ← Datum.required fields "enter" Datum.word32?
      let start ← Datum.required fields "at" Datum.word32?
      return TraceEvent.enter frame start
    entered <|> (Datum.required fields "leave" Datum.word32?).map TraceEvent.leave
  | _ => none

namespace Op

/-- The names of the fields of each kind of operation. -/
def fieldNames? : String → Option (List String)
  | "add-code" => some ["address", "size", "chain"]
  | "add-trace" => some ["address", "size", "inherit", "events"]
  | "remove-code" => some ["address"]
  | "add-depth" => some ["address", "size", "depth"]
  | "frame-depths" => some ["start", "stop", "positions", "depths"]
  | "clear-depth" => some ["address", "size"]
  | "free" => some ["start", "stop"]
  | _ => none

/-- Reads the fields of an operation of a kind. -/
def ofFields? (kind : String) (fields : List (String × Datum)) : Option Op := do
  let word (name : String) : Option UInt64 := Datum.required fields name Datum.word?
  let word32 (name : String) : Option UInt32 := Datum.required fields name Datum.word32?
  let words (name : String) : Option (List UInt32) :=
    Datum.required fields name (Datum.list? Datum.word32?)
  match kind with
  | "add-code" => return .addCode (← word "address") (← word32 "size") (← words "chain")
  | "add-trace" =>
    let inherited ← Datum.optional fields "inherit" (Datum.list? Datum.word32?) []
    let events ← Datum.optional fields "events" (Datum.list? TraceEvent.ofDatum?) []
    return .addTrace (← word "address") (← word32 "size") inherited events
  | "remove-code" => return .removeCode (← word "address")
  | "add-depth" => return .addDepth (← word "address") (← word32 "size") (← word32 "depth")
  | "frame-depths" =>
    return .frameDepths (← word "start") (← word "stop") (← words "positions") (← words "depths")
  | "clear-depth" => return .clearDepth (← word "address") (← word "size")
  | "free" => return .free (← word "start") (← word "stop")
  | _ => none

/-- Takes the kind of an operation apart from its fields. -/
def split? : Datum → Option (String × Datum)
  | .table fields => do
    let kind ← Datum.required fields "kind" Datum.text?
    return (kind, .table (fields.filter (·.1 != "kind")))
  | .list (kind :: items) => do
    let kind ← kind.text?
    return (kind, .list items)
  | _ => none

/-- Reads an operation. Every number in it must fit a word, even one nobody asks for, and a list
must not go on behind the fields. -/
def ofDatum? (d : Datum) : Option Op := do
  let (kind, rest) ← split? d
  let names ← fieldNames? kind
  -- items in excess are an error here, while settings given as a list ignore them
  if let .list items := rest then
    if names.length < items.length then none
  if rest.fits then ofFields? kind (← rest.record? names) else none

end Op

/-! ## (3) Scripts -/

namespace Script

/-- Reads a script. -/
def ofDatum? (d : Datum) : Option Script := do
  let fields ← d.record? ["queries", "config", "op"]
  return {
    queries := ← Datum.optional fields "queries" (Datum.list? Datum.word?) []
    settings := ← Datum.optional fields "config" Tuning.Overrides.ofDatum? {}
    ops := ← Datum.optional fields "op" (Datum.list? Op.ofDatum?) [] }

/-- Reads a script from TOML and checks it. -/
def parse (source : String) : Except ScriptError Script := do
  match Toml.parse? source >>= ofDatum? with
  | none => throw .malformed
  | some script =>
    script.validate
    return script

end Script

end TraceAtlas
