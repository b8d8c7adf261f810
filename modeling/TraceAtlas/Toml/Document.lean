import TraceAtlas.Toml.Value

/-! # Documents

A TOML document is a row of lines: a key with its value, the header of a table, or the header of the
next table in a list. The lines are read first; then they fill the tables in order.

## Main definitions
* `Toml.Line` : what a line says.
* `Toml.lines` : the lines of a text.
* `Toml.Document` : the tables filled so far, and where the next key goes.
* `Toml.parse?` : the data of a document.
-/

namespace TraceAtlas

namespace Toml

/-- What a line of a document says. -/
inductive Line where
  | pair (path : List String) (d : Datum)
  | tableHeader (path : List String)
  | itemHeader (path : List String)

/-! ## (1) Lines -/

/-- One line, without its end. -/
def line : Reader Line
  | '[' :: '[' :: s => do
    let (path, s) ← key (skipBlanks s)
    match s with
    | ']' :: ']' :: s => return (.itemHeader path, s)
    | _ => none
  | '[' :: s => do
    let (path, s) ← key (skipBlanks s)
    match s with
    | ']' :: s => return (.tableHeader path, s)
    | _ => none
  | s => do
    let (path, s) ← key s
    match s with
    | '=' :: s =>
      let (d, s) ← value depthLimit (skipBlanks s)
      return (.pair path d, s)
    | _ => none

/-- The lines of a text. Empty lines and comments say nothing. -/
def lines (s : List Char) : Option (List Line) := do
  match ← skipTrivia s with
  | [] => return []
  | start =>
    let (first, left) ← line start
    let ⟨left, _⟩ ← shorter? s (← lineEnd left)
    let rest ← lines left
    return first :: rest
termination_by s.length

/-! ## (2) Tables -/

/-- The tables filled so far, and the path of the one that the next key goes to. -/
structure Document where
  root : Fields
  here : List String

namespace Document

/-- An empty document; keys go to the root. -/
def empty : Document := ⟨[], []⟩

/-- Opens what a header names: `opened` says what happens to the last name of its path. -/
def openWith (opened : String → Fields → Option Fields) (path : List String) (doc : Document) :
    Option Document := do
  let last ← path.getLast?
  let root ← within (opened last) path.dropLast doc.root
  return ⟨root, path⟩

/-- Adds what a line says. -/
def add (doc : Document) : Line → Option Document
  | .pair path d => do
    let root ← within (assign d path) doc.here doc.root
    return { doc with root }
  | .tableHeader path => doc.openWith openTable path
  | .itemHeader path => doc.openWith openItem path

end Document

/-- The data of a document. A byte order mark in front of it is skipped. -/
def parse? (source : String) : Option Datum := do
  let chars := match source.toList with
    | '\ufeff' :: s => s
    | s => s
  let doc ← (← lines chars).foldlM Document.add .empty
  return .table (freezeFields doc.root)

end Toml

end TraceAtlas
