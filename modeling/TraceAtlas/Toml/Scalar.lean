import TraceAtlas.Datum
import TraceAtlas.Text.Numeral

/-! # Values without quotes

Truth values, whole numbers, fractions and moments in time: what a value is that consists of
letters, digits and signs. The form of a number is checked here; whether the number can be held is
left to those who look at it.

## Main definitions
* `Toml.integer?` : decimal, hexadecimal, octal and binary numbers.
* `Toml.fraction?` : numbers with a point or an exponent.
* `Toml.isMoment` : dates and times.
* `Toml.scalar?` : any of them.
-/

namespace TraceAtlas

namespace Toml

/-! ## (1) Digits -/

/-- Continues a run of digits that denotes `value`. An underscore may stand between two digits. -/
def digitRun (base : Nat) (value : Nat) (afterDigit : Bool) : List Char → Option Nat
  | [] => if afterDigit then some value else none
  | '_' :: cs => if afterDigit then digitRun base value false cs else none
  | c :: cs => do
    let d ← Numeral.digitValue? base c
    digitRun base (value * base + d) true cs

/-- A run of digits. -/
def digits? (base : Nat) (cs : List Char) : Option Nat := digitRun base 0 false cs

/-- The sign in front of a number, and what stands behind it. -/
def splitSign : List Char → Option Char × List Char
  | '+' :: cs => (some '+', cs)
  | '-' :: cs => (some '-', cs)
  | cs => (none, cs)

/-- A number with the sign in front of it. -/
def signed (sign : Option Char) (n : Nat) : Int :=
  if sign = some '-' then -(n : Int) else (n : Int)

/-- A run of decimal digits that starts with a zero only if it is one. -/
def whole? : List Char → Option Nat
  | '0' :: _ :: _ => none
  | cs => digits? 10 cs

/-! ## (2) Whole numbers -/

/-- Digits of a base other than ten. If there are none the number cannot be held. -/
def based? (base : Nat) : List Char → Option Datum
  | [] => some .misfit
  | cs => (digits? base cs).map fun n => .integer n

/-- Every underscore stands between two digits, where letters up to `f` pass for digits.
`afterDigit` says whether a digit stands in front of the first character. -/
def isSpaced (afterDigit : Bool) : List Char → Bool
  | [] => true
  | ['_'] => false
  | '_' :: c :: cs => afterDigit && (Numeral.digitValue? 16 c).isSome && isSpaced true cs
  | c :: cs => isSpaced (Numeral.digitValue? 16 c).isSome cs

/-- Whether characters have the form of a decimal number, though not all of them need be digits:
from the first underscore on anything goes except a space and what makes the number a fraction. -/
def resemblesWhole (cs : List Char) : Bool :=
  let rest := cs.dropWhile Char.isDigit
  cs.head? != some '0' && rest.head? == some '_' &&
    !rest.any (fun c => c == ' ' || c == '.' || c == 'e' || c == 'E') && isSpaced false cs

/-- A whole number. Only decimal ones have a sign. -/
def integer? : List Char → Option Datum
  | '0' :: 'x' :: cs => based? 16 cs
  | '0' :: 'o' :: cs => based? 8 cs
  | '0' :: 'b' :: cs => based? 2 cs
  | cs =>
    let (sign, cs) := splitSign cs
    match whole? cs with
    | some n => some (.integer (signed sign n))
    | none => if resemblesWhole cs then some .misfit else none

/-! ## (3) Fractions -/

/-- The exponent that stands in the part from the exponent letter on, zero if there is none. -/
def exponent? : List Char → Option Int
  | [] => some 0
  | c :: cs =>
    if c == 'e' || c == 'E' then
      let (sign, cs) := splitSign cs
      (digits? 10 cs).map (signed sign)
    else none

/-- A number with a point, an exponent or both, without its sign: digits and the power of ten that
they are multiplied with. -/
def scaled? (cs : List Char) : Option (Nat × Int) := do
  let inRun (c : Char) : Bool := c.isDigit || c == '_'
  let cs := (splitSign cs).2
  let whole ← whole? (cs.takeWhile inRun)
  match cs.dropWhile inRun with
  | [] => none
  | '.' :: rest =>
    let places := rest.takeWhile inRun
    let part ← digits? 10 places
    let count := places.countP Char.isDigit
    let exponent ← exponent? (rest.dropWhile inRun)
    return (whole * Nat.pow 10 count + part, exponent - count)
  | rest => return (whole, ← exponent? rest)

/-- The least number that rounds to more than the largest 64-bit float. -/
def beyondFloats : Nat := (1 <<< 1024) - (1 <<< 970)

/-- A float holds `n` times a power of ten. No power is larger than it takes to tell. -/
def isHeld (n : Nat) : Int → Bool
  | .ofNat e => n * Nat.pow 10 (min e 309) < beyondFloats
  | .negSucc k => n < beyondFloats * Nat.pow 10 (min (k + 1) n.log2)

/-- Cutting off a large exponent does not change the answer. -/
theorem isHeld_ofNat (n e : Nat) :
    isHeld n (.ofNat e) = decide (n * Nat.pow 10 e < beyondFloats) := by
  have bound : beyondFloats ≤ Nat.pow 10 309 := by decide +kernel
  by_cases h : e ≤ 309
  · rw [isHeld, Nat.min_eq_left h]
  · have hpow (k : Nat) (hk : k ≤ e) : Nat.pow 10 k ≤ Nat.pow 10 e :=
      Nat.pow_le_pow_right (by decide) hk
    rw [isHeld, Nat.min_eq_right (by omega)]
    cases n with
    | zero => simp only [Nat.zero_mul]
    | succ n =>
      have small : ¬(n + 1) * Nat.pow 10 309 < beyondFloats :=
        Nat.not_lt.2 (Nat.le_trans bound (Nat.le_mul_of_pos_left _ (Nat.succ_pos n)))
      have large : ¬(n + 1) * Nat.pow 10 e < beyondFloats :=
        Nat.not_lt.2 (Nat.le_trans (Nat.le_trans bound (hpow 309 (Nat.le_of_not_le h)))
          (Nat.le_mul_of_pos_left _ (Nat.succ_pos n)))
      rw [decide_eq_false small, decide_eq_false large]

/-- Cutting off a small exponent does not change the answer. -/
theorem isHeld_negSucc (n k : Nat) :
    isHeld n (.negSucc k) = decide (n < beyondFloats * Nat.pow 10 (k + 1)) := by
  by_cases h : k + 1 ≤ n.log2
  · rw [isHeld, Nat.min_eq_left h]
  · have cut : n < beyondFloats * Nat.pow 10 n.log2 := by
      have two : 2 ≤ beyondFloats := by decide +kernel
      calc n < Nat.pow 2 (n.log2 + 1) := Nat.lt_log2_self
        _ = 2 * Nat.pow 2 n.log2 := Nat.pow_succ'
        _ ≤ beyondFloats * Nat.pow 10 n.log2 :=
          Nat.mul_le_mul two (Nat.pow_le_pow_left (by decide) _)
    have uncut : n < beyondFloats * Nat.pow 10 (k + 1) :=
      Nat.lt_of_lt_of_le cut
        (Nat.mul_le_mul_left _ (Nat.pow_le_pow_right (by decide) (by omega)))
    rw [isHeld, Nat.min_eq_right (by omega)]
    exact decide_eq_decide.2 (iff_of_true cut uncut)

/-- A fraction, or one of the words for what is no number. -/
def fraction? (cs : List Char) : Option Datum :=
  let word := (splitSign cs).2
  if word == ['i', 'n', 'f'] || word == ['n', 'a', 'n'] then some .fraction
  else (scaled? cs).map fun (n, e) => if isHeld n e then .fraction else .misfit

/-! ## (4) Moments in time -/

/-- The number that two digits denote. -/
def twoDigits? (a b : Char) : Option Nat :=
  if a.isDigit && b.isDigit then some ((a.toNat - 48) * 10 + (b.toNat - 48)) else none

/-- The number of days in a month. -/
def daysIn (year month : Nat) : Nat :=
  if month == 2 then
    if year % 4 == 0 && (year % 100 != 0 || year % 400 == 0) then 29 else 28
  else if month == 4 || month == 6 || month == 9 || month == 11 then 30
  else 31

/-- The characters behind a date, if one stands there. -/
def afterDate? : List Char → Option (List Char)
  | y1 :: y2 :: y3 :: y4 :: '-' :: m1 :: m2 :: '-' :: d1 :: d2 :: rest => do
    let year := (← twoDigits? y1 y2) * 100 + (← twoDigits? y3 y4)
    let month ← twoDigits? m1 m2
    let day ← twoDigits? d1 d2
    if 1 ≤ month && month ≤ 12 && 1 ≤ day && day ≤ daysIn year month then some rest else none
  | _ => none

/-- The characters behind hours and minutes, if they stand there. -/
def afterMinutes? : List Char → Option (List Char)
  | h1 :: h2 :: ':' :: m1 :: m2 :: rest => do
    if (← twoDigits? h1 h2) ≤ 23 && (← twoDigits? m1 m2) ≤ 59 then some rest else none
  | _ => none

/-- The characters behind a time of day, if one stands there. Seconds may be missing, and may be
followed by any number of places. -/
def afterTime? (cs : List Char) : Option (List Char) := do
  match ← afterMinutes? cs with
  | ':' :: s1 :: s2 :: rest =>
    if (← twoDigits? s1 s2) ≤ 60 then
      match rest with
      | '.' :: p :: rest => if p.isDigit then some (rest.dropWhile Char.isDigit) else none
      | rest => some rest
    else none
  | rest => some rest

/-- A distance from universal time, or nothing. -/
def isZone : List Char → Bool
  | [] | ['Z'] | ['z'] => true
  | c :: cs => (c == '+' || c == '-') && afterMinutes? cs == some []

/-- A date, a time of day, or both with or without a zone. -/
def isMoment (cs : List Char) : Bool :=
  match afterDate? cs with
  | some [] => true
  | some (c :: rest) =>
    (c == 'T' || c == 't' || c == ' ') &&
      match afterTime? rest with
      | some zone => isZone zone
      | none => false
  | none => afterTime? cs == some []

/-! ## (5) Any of them -/

/-- The value that letters, digits and signs denote. -/
def scalar? (cs : List Char) : Option Datum :=
  if cs == ['t', 'r', 'u', 'e'] then some (.boolean true)
  else if cs == ['f', 'a', 'l', 's', 'e'] then some (.boolean false)
  else
    integer? cs <|> fraction? cs <|> if isMoment cs then some .moment else none

end Toml

end TraceAtlas
