import TraceAtlas.Replay
import TraceAtlas.Script.Basic

/-! # Outcomes of commands

How a command ends, and what is said about it. An error is told from the outside in: first what
could not be done, then why.

## Main definitions
* `ReadError` : why a file cannot be read as text.
* `CommandError` : why a command fails, with its wording on one line and as a report.
* `Outcome` : the four ways in which a command ends, with their exit statuses.
-/

namespace TraceAtlas

/-- Why a file cannot be read as text. -/
inductive ReadError where
  /-- The operating system refuses. -/
  | system (description : String) (code : Nat)
  /-- The path has a zero byte in it, so no file can have it. -/
  | zeroByte
  /-- The bytes are not text. -/
  | notText
  deriving DecidableEq, Repr

namespace ReadError

/-- There is no such file. -/
def notFound : ReadError := .system "No such file or directory" 2

/-- A part of the path that should be a directory is none. -/
def notDirectory : ReadError := .system "Not a directory" 20

/-- A directory is no file. -/
def isDirectory : ReadError := .system "Is a directory" 21

/-- The path, or a name in it, is longer than any can be. -/
def nameTooLong : ReadError := .system "File name too long" 36

/-- The reason in words. -/
def message : ReadError → String
  | system description code => s!"{description} (os error {code})"
  | zeroByte => "file name contained an unexpected NUL byte"
  | notText => "stream did not contain valid UTF-8"

end ReadError

/-- Why a command fails. -/
inductive CommandError where
  /-- The script cannot be read. -/
  | unreadable (path : String) (cause : ReadError)
  /-- The file holds no script. -/
  | invalidScript (path : String) (cause : ScriptError)
  /-- An operation of the script cannot be applied. -/
  | failedOp (path : String) (position : Nat) (cause : ReplayError)
  /-- The chain is malformed. -/
  | malformedChain (cause : MalformedChain)
  deriving DecidableEq, Repr

namespace CommandError

/-- What could not be done. -/
def summary : CommandError → String
  | unreadable path _ => s!"failed to read script `{path}`"
  | invalidScript path _ => s!"invalid script `{path}`"
  | failedOp path position _ => s!"failed to apply op {position} of `{path}`"
  | malformedChain _ => "malformed chain"

/-- Why it could not be done, from the outside in. -/
def causes : CommandError → List String
  | unreadable _ cause => [cause.message]
  | invalidScript _ cause => [cause.message]
  | failedOp _ _ cause => cause.causes
  | malformedChain cause => [cause.message]

/-- The error on one line. -/
def message (e : CommandError) : String := ": ".intercalate (e.summary :: e.causes)

/-- A cause under its number, or alone. -/
def causeLine (number : Option Nat) (cause : String) : String :=
  match number with
  | none => "    " ++ cause ++ "\n"
  | some n => String.ofList ((toString n).toList.leftpad 5 ' ') ++ ": " ++ cause ++ "\n"

/-- The causes on a line each, numbered if there are several. -/
def causeLines (causes : List String) : String :=
  match causes with
  | [cause] => causeLine none cause
  | _ => String.join (causes.mapIdx fun i cause => causeLine (some i) cause)

/-- The error over several lines. -/
def report (e : CommandError) : String :=
  "Error: " ++ e.summary ++ "\n\nCaused by:\n" ++ causeLines e.causes

end CommandError

/-- How a command ends. -/
inductive Outcome where
  /-- It prints a text and nothing else. -/
  | printed (text : String)
  /-- It fails and prints nothing. -/
  | failed (cause : CommandError)
  /-- The words are no command. -/
  | refused
  /-- It stops at a broken contract. -/
  | broken (cause : Fault)
  deriving DecidableEq

namespace Outcome

/-- The exit status. -/
def status : Outcome → UInt32
  | printed _ => 0
  | failed _ => 1
  | refused => 2
  | broken _ => 101

end Outcome

end TraceAtlas
