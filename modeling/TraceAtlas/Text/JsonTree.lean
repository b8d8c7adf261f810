/-! # JSON texts

Reports are written as JSON: numbers, lists and objects, on one line or indented by two blanks a
level.

## Main definitions
* `JsonTree` : what is written. Keys are written as they are, so they must not need escapes.
* `JsonTree.compact`, `JsonTree.pretty` : the two forms.
-/

namespace TraceAtlas

/-- A JSON value of a report. -/
inductive JsonTree where
  | null
  | number (n : Nat)
  | list (items : List JsonTree)
  | object (fields : List (String × JsonTree))

namespace JsonTree

/-- A value that may be missing. -/
def ofOption {α : Type} (f : α → JsonTree) : Option α → JsonTree
  | none => null
  | some a => f a

/-- Blanks at the start of a line. -/
def indent (level : Nat) : String := String.ofList (List.replicate (2 * level) ' ')

/-- Opening and closing sign around parts, each on a line of its own; without parts both on one
line. -/
def block (level : Nat) (opening closing : String) (parts : List String) : String :=
  match parts with
  | [] => opening ++ closing
  | _ =>
    let lines := parts.map fun part => indent (level + 1) ++ part
    opening ++ "\n" ++ ",\n".intercalate lines ++ "\n" ++ indent level ++ closing

mutual

/-- A value on one line without blanks. -/
def compact : JsonTree → String
  | null => "null"
  | number n => toString n
  | list items => "[" ++ ",".intercalate (compactItems items) ++ "]"
  | object fields => "\x7b" ++ ",".intercalate (compactFields fields) ++ "\x7d"

/-- The items of a list, each on one line. -/
def compactItems : List JsonTree → List String
  | [] => []
  | j :: js => compact j :: compactItems js

/-- The fields of an object, each on one line. -/
def compactFields : List (String × JsonTree) → List String
  | [] => []
  | (name, j) :: fields => ("\"" ++ name ++ "\":" ++ compact j) :: compactFields fields

end

mutual

/-- A value over several lines, inside `level` others. -/
def prettyAt (level : Nat) : JsonTree → String
  | null => "null"
  | number n => toString n
  | list items => block level "[" "]" (prettyItems (level + 1) items)
  | object fields => block level "\x7b" "\x7d" (prettyFields (level + 1) fields)

/-- The items of a list. -/
def prettyItems (level : Nat) : List JsonTree → List String
  | [] => []
  | j :: js => prettyAt level j :: prettyItems level js

/-- The fields of an object. -/
def prettyFields (level : Nat) : List (String × JsonTree) → List String
  | [] => []
  | (name, j) :: fields => ("\"" ++ name ++ "\": " ++ prettyAt level j) :: prettyFields level fields

end

/-- A value over several lines. -/
def pretty (j : JsonTree) : String := j.prettyAt 0

end JsonTree

end TraceAtlas
