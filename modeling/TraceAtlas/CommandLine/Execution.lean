import TraceAtlas.Chain.Layout
import TraceAtlas.CommandLine.Command
import TraceAtlas.CommandLine.Outcome
import TraceAtlas.FrameReport
import TraceAtlas.SampleReport
import TraceAtlas.Script.Reader

/-! # Execution of commands

A command prints all of its text or fails and prints none. Files are the only part of the world that
a command looks at, so reading them is a parameter, in whatever monad that takes. What else the
surroundings decide for a replay is a parameter, too.

## Main definitions
* `ReplayRequest.execute` : replays a script that was read.
* `DecodeRequest.execute` : decodes a chain.
* `CommandLine.execute` : reads the words, then executes the command they spell.
* `CommandLine.run` : the same for a program that can also tell its version.
-/

namespace TraceAtlas

/-! ## (1) Replaying -/

/-- Bytes as text. -/
def ReadError.decode (bytes : ByteArray) : Except ReadError String :=
  match String.fromUTF8? bytes with
  | some text => .ok text
  | none => .error .notText

namespace ReplayRequest

/-- The settings to replay with: what is asked for wins over the script, which wins over the
standard. Each of the two may ask for too large a chunk. -/
def tuning (r : ReplayRequest) (script : Script) (given : Surroundings := {}) :
    Except Fault Tuning := do
  (← (Tuning.standard given).override script.settings).override r.settings

/-- Shows samples in the form asked for. -/
def render (r : ReplayRequest) (samples : List Sample) : String :=
  if r.json then SampleReport.json samples else SampleReport.lines samples

/-- Replays a script on a fresh registry, then samples the addresses of the script and those asked
for. -/
def replay (r : ReplayRequest) (script : Script) (t : Tuning) : Outcome :=
  match ((Replay.start t).applyAll 0 script.ops).outcome with
  | .error e => .broken e
  | .ok (.error (position, e), _) => .failed (.failedOp r.path position e)
  | .ok (.ok (), state) =>
    -- nothing is printed before every sample is taken
    match (script.queries ++ r.pcs).mapM state.sample with
    | .error e => .broken e
    | .ok samples => .printed (r.render samples)

/-- Executes the request on the bytes of its script. -/
def execute (r : ReplayRequest) (source : Except ReadError ByteArray)
    (given : Surroundings := {}) : Outcome :=
  match source >>= ReadError.decode with
  | .error e => .failed (.unreadable r.path e)
  | .ok text =>
    match Script.parse text with
    | .error e => .failed (.invalidScript r.path e)
    | .ok script =>
      match r.tuning script given with
      | .error e => .broken e
      | .ok t => r.replay script t

end ReplayRequest

/-! ## (2) Decoding -/

/-- The largest third word of the groups of four, zero if there is none. A last group that is cut
off counts if its third word is there. -/
def Chain.largestStop : List UInt32 → UInt32
  | _ :: _ :: stop :: _ :: rest => max stop (largestStop rest)
  | [_, _, stop] => stop
  | _ => 0

namespace DecodeRequest

/-- The size of the region: the one asked for, or the least one that no record leaves. -/
def size (r : DecodeRequest) : UInt32 :=
  r.regionSize.getD (Chain.largestStop r.chain.words)

/-- Shows a walk in the form asked for. -/
def render (r : DecodeRequest) (steps : List Found) : String :=
  let trail := if r.steps then FrameReport.stepLines 0 steps else []
  let frames := FrameReport.frames steps
  String.join (trail.map fun line => line ++ "\n") ++
    if r.json then FrameReport.json frames else FrameReport.lines frames

/-- Executes the request. The chain is checked before it is walked. -/
def execute (r : DecodeRequest) : Outcome :=
  match r.chain.check r.size with
  | .error e => .failed (.malformedChain e)
  | .ok () =>
    match r.chain.walk r.offset.toNat 0 with
    | .error e => .broken e
    | .ok steps => .printed (r.render steps)

end DecodeRequest

/-! ## (3) Command lines -/

namespace CommandLine

/-- Reads a file, unless its path cannot be one. -/
def readChecked {m : Type → Type} [Monad m] (read : String → m (Except ReadError ByteArray))
    (path : String) : m (Except ReadError ByteArray) :=
  if path.toList.contains '\x00' then return .error .zeroByte else read path

/-- Executes the command that words spell. A file is read only if the command names one. -/
def execute {m : Type → Type} [Monad m] (read : String → m (Except ReadError ByteArray))
    (words : List String) (given : Surroundings := {}) : m Outcome := do
  match Command.parse? words with
  | none => return .refused
  | some (.decode request) => return request.execute
  | some (.replay request) => return request.execute (← readChecked read request.path) given

/-- The name and the version of the program. -/
def banner : String := "jitmap 0.1.0\n"

/-- Whether words ask for the version. Only the first one counts; more short options may follow in
it. -/
def asksVersion : List String → Bool
  | [] => false
  | word :: _ =>
    match word.toList with
    | '-' :: 'V' :: _ => true
    | _ => word == "--version"

/-- Runs the program: it tells its version if asked, else it executes a command. -/
def run {m : Type → Type} [Monad m] (read : String → m (Except ReadError ByteArray))
    (words : List String) (given : Surroundings := {}) : m Outcome :=
  if asksVersion words then return .printed banner else execute read words given

end CommandLine

end TraceAtlas
