import TraceAtlas.Text.Numeral

/-! # Characters, blanks and quoted texts

The lowest layer of TOML: which characters may stand where, what separates the parts of a document,
and the four kinds of quoted text. Every reader takes the characters that are left and gives back
those it did not use; it fails on a character that must not stand there.

## Main definitions
* `Toml.skipBlanks`, `Toml.skipTrivia` : blanks; blanks, line ends and comments.
* `Toml.basicText`, `Toml.literalText` : a quoted text on one line, behind its opening quote.
* `Toml.basicBlock`, `Toml.literalBlock` : a quoted text on several lines, behind its opening
  quotes.
-/

namespace TraceAtlas

namespace Toml

/-- A reader takes the characters that are left and gives back those it did not use. -/
abbrev Reader (α : Type) := List Char → Option (α × List Char)

/-! ## (1) Characters -/

/-- A blank inside a line. -/
def isBlank (c : Char) : Bool := c == ' ' || c == '\t'

/-- A character that may stand in a comment or a text: no control character except the tabulator. -/
def isPrintable (c : Char) : Bool := c == '\t' || (0x20 ≤ c.toNat && c.toNat != 0x7f)

/-- A character of a key without quotes. -/
def isBare (c : Char) : Bool := c.isAlphanum || c == '-' || c == '_'

/-! ## (2) Blanks and comments -/

/-- Skips blanks inside a line. -/
def skipBlanks (s : List Char) : List Char := s.dropWhile isBlank

/-- Skips blanks, line ends and comments; `inComment` says whether a comment is open. A carriage
return ends a line only together with a line feed. -/
def skip (inComment : Bool) : List Char → Option (List Char)
  | [] => some []
  | '\n' :: s => skip false s
  | '\r' :: '\n' :: s => skip false s
  | c :: s =>
    if inComment then (if isPrintable c then skip true s else none)
    else if isBlank c then skip false s
    else if c == '#' then skip true s
    else if c == '\r' then none
    else some (c :: s)

/-- Skips blanks, line ends and comments. -/
def skipTrivia (s : List Char) : Option (List Char) := skip false s

/-- Checks that nothing but blanks and a comment stands in the rest of a line. -/
def lineEnd (s : List Char) : Option (List Char) :=
  match skipBlanks s with
  | [] => some []
  | '\n' :: s => some s
  | '\r' :: '\n' :: s => some s
  | '#' :: s => some ('#' :: s)
  | _ => none

/-! ## (3) Escapes -/

/-- The character that a letter behind a backslash stands for. -/
def escaped? : Char → Option Char
  | 'b' => some '\x08'
  | 't' => some '\t'
  | 'n' => some '\n'
  | 'f' => some '\x0c'
  | 'r' => some '\r'
  | 'e' => some '\x1b'
  | '\x22' => some '\x22'
  | '\\' => some '\\'
  | _ => none

/-- The character with a code in hexadecimal digits. -/
def coded? (digits : List Char) : Option Char := do
  let code ← digits.foldlM (fun code c => (Numeral.digitValue? 16 c).map (code * 16 + ·)) 0
  if code.isValidChar then some (Char.ofNat code) else none

/-! ## (4) Texts on one line -/

/-- A text between double quotes, behind the opening one. -/
def basicText : Reader (List Char)
  | [] => none
  | '\x22' :: s => some ([], s)
  | '\\' :: 'x' :: a :: b :: s => do
    let c ← coded? [a, b]
    let (cs, s) ← basicText s
    return (c :: cs, s)
  | '\\' :: 'u' :: a :: b :: c :: d :: s => do
    let c ← coded? [a, b, c, d]
    let (cs, s) ← basicText s
    return (c :: cs, s)
  | '\\' :: 'U' :: a :: b :: c :: d :: e :: f :: g :: h :: s => do
    let c ← coded? [a, b, c, d, e, f, g, h]
    let (cs, s) ← basicText s
    return (c :: cs, s)
  | '\\' :: c :: s => do
    let c ← escaped? c
    let (cs, s) ← basicText s
    return (c :: cs, s)
  | c :: s =>
    if c != '\\' && isPrintable c then do
      let (cs, s) ← basicText s
      return (c :: cs, s)
    else none

/-- A text between single quotes, behind the opening one. -/
def literalText : Reader (List Char)
  | [] => none
  | c :: s =>
    if c == '\x27' then some ([], s)
    else if isPrintable c then do
      let (cs, s) ← literalText s
      return (c :: cs, s)
    else none

/-! ## (5) Texts on several lines -/

/-- Drops the line end right behind the opening quotes. -/
def trimFirstLine : List Char → List Char
  | '\n' :: s => s
  | '\r' :: '\n' :: s => s
  | s => s

/-- What a backslash at the end of a line has started. -/
inductive Folding where
  /-- Nothing: characters count. -/
  | off
  /-- The line must end before anything but a blank comes. -/
  | pending
  /-- Blanks and line ends do not count. -/
  | on
  deriving DecidableEq, Repr

/-- A text between triple double quotes, behind the opening ones. Up to two quotes right before the
closing ones belong to the text. -/
def basicBlock (folding : Folding) : Reader (List Char)
  | [] => none
  | '\n' :: s =>
    match folding with
    | .off => do
      let (cs, s) ← basicBlock .off s
      return ('\n' :: cs, s)
    | .pending | .on => basicBlock .on s
  | '\r' :: '\n' :: s =>
    match folding with
    | .off => do
      let (cs, s) ← basicBlock .off s
      return ('\r' :: '\n' :: cs, s)
    | .pending | .on => basicBlock .on s
  -- up to two quotes in front of the three that close the text belong to it
  | '\x22' :: '\x22' :: '\x22' :: '\x22' :: '\x22' :: s =>
    if folding = .pending then none else some (['\x22', '\x22'], s)
  | '\x22' :: '\x22' :: '\x22' :: '\x22' :: s =>
    if folding = .pending then none else some (['\x22'], s)
  | '\x22' :: '\x22' :: '\x22' :: s =>
    if folding = .pending then none else some ([], s)
  | '\\' :: 'x' :: a :: b :: s => do
    if folding = .pending then none
    let c ← coded? [a, b]
    let (cs, s) ← basicBlock .off s
    return (c :: cs, s)
  | '\\' :: 'u' :: a :: b :: c :: d :: s => do
    if folding = .pending then none
    let c ← coded? [a, b, c, d]
    let (cs, s) ← basicBlock .off s
    return (c :: cs, s)
  | '\\' :: 'U' :: a :: b :: c :: d :: e :: f :: g :: h :: s => do
    if folding = .pending then none
    let c ← coded? [a, b, c, d, e, f, g, h]
    let (cs, s) ← basicBlock .off s
    return (c :: cs, s)
  | '\\' :: '\n' :: s => if folding = .pending then none else basicBlock .on s
  | '\\' :: '\r' :: '\n' :: s => if folding = .pending then none else basicBlock .on s
  | '\\' :: c :: s =>
    if folding = .pending then none
    else if isBlank c then basicBlock .pending s
    else do
      let c ← escaped? c
      let (cs, s) ← basicBlock .off s
      return (c :: cs, s)
  | c :: s =>
    if isBlank c && folding != .off then basicBlock folding s
    else if folding = .pending then none
    else if c != '\\' && isPrintable c then do
      let (cs, s) ← basicBlock .off s
      return (c :: cs, s)
    else none

/-- A text between triple single quotes, behind the opening ones. Up to two quotes right before the
closing ones belong to the text. -/
def literalBlock : Reader (List Char)
  | [] => none
  | '\x27' :: '\x27' :: '\x27' :: '\x27' :: '\x27' :: s => some (['\x27', '\x27'], s)
  | '\x27' :: '\x27' :: '\x27' :: '\x27' :: s => some (['\x27'], s)
  | '\x27' :: '\x27' :: '\x27' :: s => some ([], s)
  | '\r' :: '\n' :: s => do
    let (cs, s) ← literalBlock s
    return ('\r' :: '\n' :: cs, s)
  | c :: s =>
    if c == '\n' || isPrintable c then do
      let (cs, s) ← literalBlock s
      return (c :: cs, s)
    else none

end Toml

end TraceAtlas
