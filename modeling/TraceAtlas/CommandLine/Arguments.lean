/-! # Arguments

The words behind the name of a command. A word that starts with two dashes names an option, whose
value follows behind `=` or as the next word; the word `--` ends the options; all other words stand
for themselves. Options and other words may come in any order.

## Main definitions
* `OptionForm` : an option that a command knows.
* `Argument` : what a word, or an option with its value, says.
* `Argument.scan` : the arguments that words spell, before options are counted.
* `Argument.parse` : the same, where an option that is not repeatable comes once at most.
-/

namespace TraceAtlas

/-- An option that a command knows. -/
structure OptionForm where
  name : String
  takesValue : Bool
  repeatable : Bool
  deriving DecidableEq, Repr

/-- An argument of a command. -/
inductive Argument where
  /-- A word that stands for itself. -/
  | plain (text : String)
  /-- An option without a value. -/
  | flag (name : String)
  /-- An option with its value. -/
  | setting (name value : String)
  deriving DecidableEq, Repr

namespace Argument

/-! ## (1) Words -/

/-- What a word looks like. -/
inductive Shape where
  /-- The word that ends the options. -/
  | separator
  /-- An option, with the value that is attached to it. -/
  | named (name : String) (attached : Option String)
  /-- A single dash with something behind it; no option is named so. -/
  | dashed
  | plain
  deriving DecidableEq, Repr

/-- Cuts a text at the first sign of equality. -/
def cut : List Char → String × Option String
  | [] => ("", none)
  | '=' :: cs => ("", some (String.ofList cs))
  | c :: cs => (c.toString ++ (cut cs).1, (cut cs).2)

/-- The shape of a word, told from its first characters. A dash alone is plain. -/
def shapeOf (word : String) : Shape :=
  match word.toList with
  | ['-', '-'] => .separator
  | '-' :: '-' :: cs => .named (cut cs).1 (cut cs).2
  | '-' :: _ :: _ => .dashed
  | _ => .plain

/-! ## (2) Arguments -/

/-- The arguments that words spell: nothing if an option is unknown, lacks its value or has one that
it does not take. A value in a word of its own must look plain. -/
def scan (forms : List OptionForm) : List String → Option (List Argument)
  | [] => some []
  | word :: words =>
    match shapeOf word with
    | .separator => some (words.map plain)
    | .dashed => none
    | .plain => (scan forms words).map (plain word :: ·)
    | .named name attached =>
      match forms.find? (·.name == name), attached with
      | none, _ => none
      | some form, some value =>
        if form.takesValue then (scan forms words).map (setting name value :: ·) else none
      | some form, none =>
        if form.takesValue then
          -- the value is the next word, and a word that looks like an option is none
          match words with
          | [] => none
          | value :: words =>
            if shapeOf value = .plain then (scan forms words).map (setting name value :: ·)
            else none
        else (scan forms words).map (flag name :: ·)

/-- The option that an argument gives. -/
def optionName? : Argument → Option String
  | plain _ => none
  | flag name => some name
  | setting name _ => some name

/-- No option is given twice, unless it is repeatable. -/
def onceEach (forms : List OptionForm) (given : List Argument) : Bool :=
  forms.all fun form =>
    form.repeatable || given.countP (fun a => a.optionName? == some form.name) ≤ 1

/-- The arguments that words spell, if they are as the options demand. -/
def parse (forms : List OptionForm) (words : List String) : Option (List Argument) :=
  (scan forms words).filter (onceEach forms)

/-! ## (3) Looking arguments up -/

/-- The words that stand for themselves. -/
def plains (given : List Argument) : List String :=
  given.filterMap fun
    | plain text => some text
    | _ => none

/-- The values given for an option, in order. -/
def valuesOf (name : String) (given : List Argument) : List String :=
  given.filterMap fun
    | setting other value => if other = name then some value else none
    | _ => none

/-- An option without a value is given. -/
def has (name : String) (given : List Argument) : Bool :=
  given.contains (flag name)

end Argument

end TraceAtlas
