import TraceAtlas.Replay
import TraceAtlas.Text.JsonTree

/-! # Reports on samples

How samples are shown: a line each, or together as one JSON list.

## Main definitions
* `Sample.line` : a sample on a line.
* `Sample.toJson` : a sample as JSON.
* `SampleReport.lines`, `SampleReport.json` : all samples.
-/

namespace TraceAtlas

namespace Sample

/-- A value, or a dash in place of none. -/
def orDash {α : Type} (write : α → String) : Option α → String
  | none => "-"
  | some a => write a

/-- A sample on a line: the addresses in hexadecimal, the rest in decimals. -/
def line (s : Sample) : String :=
  Address.hex s.pc ++ ": region=" ++ orDash Address.hex s.region ++
    " frames=" ++ Numeral.bracketed (s.frames.map UInt32.toNat) ++
    " depth=" ++ orDash (fun d => toString d.toNat) s.depth

/-- A sample as JSON. -/
def toJson (s : Sample) : JsonTree :=
  .object [
    ("pc", .number s.pc.toNat),
    ("region", .ofOption (fun a => .number a.toNat) s.region),
    ("frames", .list (s.frames.map fun f => .number f.toNat)),
    ("depth", .ofOption (fun d => .number d.toNat) s.depth)]

end Sample

namespace SampleReport

/-- A line for each sample. -/
def lines (samples : List Sample) : String :=
  String.join (samples.map fun s => s.line ++ "\n")

/-- All samples as one JSON list. -/
def json (samples : List Sample) : String :=
  (JsonTree.list (samples.map Sample.toJson)).pretty ++ "\n"

end SampleReport

end TraceAtlas
