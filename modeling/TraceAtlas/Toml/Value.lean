import TraceAtlas.Toml.Scalar
import TraceAtlas.Toml.Text
import TraceAtlas.Toml.Tree

/-! # Keys and values

A key is a row of names between dots. A value is a quoted text, a list, a table between braces, or
a word without quotes. Lists and tables hold values, so their readers call each other;
each call works on fewer characters than the one before. Nothing lies deeper than `depthLimit`.

## Main definitions
* `Toml.depthLimit` : how deep things may lie.
* `Toml.key` : a dotted key.
* `Toml.value` : a value, with `Toml.items` and `Toml.pairs` for what stands in lists and tables.
-/

namespace TraceAtlas

namespace Toml

/-- The characters that are left, provided that they are fewer than before. Every reader uses up
something before it calls another, so nothing is ever refused here; the check is what shows that the
calls come to an end. -/
def shorter? (before left : List Char) : Option { r : List Char // r.length < before.length } :=
  if h : left.length < before.length then some ⟨left, h⟩ else none

/-- The number of names that a key may have, and of lists and tables that may lie in one another in
a value. -/
def depthLimit : Nat := 80

/-! ## (1) Keys -/

/-- One name of a key. -/
def name : Reader String
  | '\x22' :: s => (basicText s).map fun (cs, s) => (String.ofList cs, s)
  | '\x27' :: s => (literalText s).map fun (cs, s) => (String.ofList cs, s)
  | s =>
    match s.takeWhile isBare with
    | [] => none
    | cs => some (String.ofList cs, s.dropWhile isBare)

/-- The names of a key, with dots and blanks between them, and the blanks behind it. -/
def names (s : List Char) : Option (List String × List Char) := do
  let (first, left) ← name s
  match skipBlanks left with
  | '.' :: left =>
    let ⟨left, _⟩ ← shorter? s (skipBlanks left)
    let (rest, left) ← names left
    return (first :: rest, left)
  | left => return ([first], left)
termination_by s.length

/-- A dotted key, which must not have too many names. -/
def key (s : List Char) : Option (List String × List Char) :=
  (names s).filter fun (path, _) => path.length ≤ depthLimit

/-! ## (2) Values -/

/-- A character of a value without quotes: whatever has no meaning of its own between values. -/
def inWord (c : Char) : Bool :=
  ¬c ∈ ['=', ',', '[', ']', '\x7b', '\x7d', ' ', '\t', '#', '\r', '\n']

/-- Whether a value without quotes goes on behind blanks: what stands there is no text and has no
meaning of its own. -/
def goesOn (s : List Char) : Bool :=
  match skipBlanks s with
  | [] => false
  | c :: _ => inWord c && c != '\x22' && c != '\x27'

/-- The characters of a value without quotes, and those behind it. It takes in the blanks between
its parts, such as the one between a date and a time; few values may have any. -/
def spanWord : List Char → List Char × List Char
  | [] => ([], [])
  | c :: s =>
    if inWord c || isBlank c && goesOn s then
      let (cs, left) := spanWord s
      (c :: cs, left)
    else ([], c :: s)

/-- A value without quotes. -/
def word (s : List Char) : Option (Datum × List Char) :=
  let (cs, left) := spanWord s
  (scalar? cs).map fun d => (d, left)

mutual

/-- A value, in which `room` more lists and tables may lie in one another. -/
def value (room : Nat) (s : List Char) : Option (Datum × List Char) := do
  match s with
  | '\x22' :: '\x22' :: '\x22' :: left =>
    let (cs, left) ← basicBlock .off (trimFirstLine left)
    return (.text (String.ofList cs), left)
  | '\x22' :: left =>
    let (cs, left) ← basicText left
    return (.text (String.ofList cs), left)
  | '\x27' :: '\x27' :: '\x27' :: left =>
    let (cs, left) ← literalBlock (trimFirstLine left)
    return (.text (String.ofList cs), left)
  | '\x27' :: left =>
    let (cs, left) ← literalText left
    return (.text (String.ofList cs), left)
  | '[' :: left =>
    if room = 0 then none
    -- the recursion goes by what is left to read, so it must be less behind the bracket
    let ⟨left, _⟩ ← shorter? ('[' :: left) (← skipTrivia left)
    let (ds, left) ← items (room - 1) left
    return (.list ds, left)
  | '\x7b' :: left =>
    if room = 0 then none
    let ⟨left, _⟩ ← shorter? ('\x7b' :: left) (← skipTrivia left)
    let (fields, left) ← pairs (room - 1) [] left
    return (.table (freezeFields fields), left)
  | s => word s
termination_by (s.length, 0)

/-- The items of a list, up to its closing bracket. A comma may stand behind the last one. -/
def items (room : Nat) (s : List Char) : Option (List Datum × List Char) := do
  match s with
  | ']' :: left => return ([], left)
  | s =>
    let (d, left) ← value room s
    match ← skipTrivia left with
    | ']' :: left => return ([d], left)
    | ',' :: left =>
      let ⟨left, _⟩ ← shorter? s (← skipTrivia left)
      let (ds, left) ← items room left
      return (d :: ds, left)
    | _ => none
termination_by (s.length, 1)

/-- The keys and values of a table, up to its closing brace, added to the fields read so far. A
comma may stand behind the last one, and lines may end anywhere but in a key. -/
def pairs (room : Nat) (fields : Fields) (s : List Char) : Option (Fields × List Char) := do
  match s with
  | '\x7d' :: left => return (fields, left)
  | s =>
    let (path, left) ← key s
    match ← skipTrivia left with
    | '=' :: left =>
      let ⟨left, _⟩ ← shorter? s (← skipTrivia left)
      let (d, left) ← value room left
      let fields ← assign d path fields
      match ← skipTrivia left with
      | '\x7d' :: left => return (fields, left)
      | ',' :: left =>
        let ⟨left, _⟩ ← shorter? s (← skipTrivia left)
        pairs room fields left
      | _ => none
    | _ => none
termination_by (s.length, 1)

end

end Toml

end TraceAtlas
