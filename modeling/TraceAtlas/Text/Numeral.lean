/-! # Numerals

Whole numbers as text: the hexadecimal form `0x1f`, bracketed lists of decimals, and the reading of
unsigned numerals below a limit.

## Main definitions
* `Numeral.hex` : a number in lower-case hexadecimal behind `0x`.
* `Numeral.bracketed` : a list of numbers as `[4, 2]`.
* `Numeral.read` : an optional `+` and at least one digit, read from the left; the first bad digit
  or the first digit that passes the limit decides the error.
-/

namespace TraceAtlas

/-- Why a text is not a numeral. -/
inductive NumeralError where
  | empty
  | invalidDigit
  | tooLarge
  deriving DecidableEq, Repr

namespace NumeralError

/-- The error in words. -/
def message : NumeralError → String
  | empty => "cannot parse integer from empty string"
  | invalidDigit => "invalid digit found in string"
  | tooLarge => "number too large to fit in target type"

end NumeralError

namespace Numeral

/-! ## (1) Writing -/

/-- A number in lower-case hexadecimal behind `0x`. -/
def hex (n : Nat) : String :=
  "0x" ++ String.ofList (Nat.toDigits 16 n)

/-- Decimals between brackets, a comma and a space apart. -/
def bracketed (xs : List Nat) : String :=
  "[" ++ ", ".intercalate (xs.map fun x => toString x) ++ "]"

/-! ## (2) Reading -/

/-- The value of a digit in a base up to sixteen; letters of either case count from ten. -/
def digitValue? (base : Nat) (c : Char) : Option Nat :=
  let value :=
    if '0' ≤ c ∧ c ≤ '9' then some (c.toNat - 48)
    else if 'a' ≤ c ∧ c ≤ 'f' then some (c.toNat - 87)
    else if 'A' ≤ c ∧ c ≤ 'F' then some (c.toNat - 55)
    else none
  value.filter (· < base)

/-- Continues a numeral whose digits so far denote `value`. -/
def readDigits (base limit : Nat) (value : Nat) : List Char → Except NumeralError Nat
  | [] => .ok value
  | c :: cs =>
    match digitValue? base c with
    | none => .error .invalidDigit
    | some d =>
      if value * base + d < limit then readDigits base limit (value * base + d) cs
      else .error .tooLarge

/-- Reads an unsigned numeral below `limit`: an optional `+`, then digits. A sign alone is a bad
digit and not an empty numeral. -/
def read (base limit : Nat) : List Char → Except NumeralError Nat
  | [] => .error .empty
  | ['+'] => .error .invalidDigit
  | '+' :: cs => readDigits base limit 0 cs
  | cs => readDigits base limit 0 cs

end Numeral

end TraceAtlas
