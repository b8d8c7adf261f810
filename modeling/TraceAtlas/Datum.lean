/-! # Data

What a structured text says once its notation is left behind: numbers, texts, lists and tables. A
script is read from data, so it does not matter in which notation it was written.

## Main definitions
* `Datum` : a piece of data.
* `Datum.fits` : every number in it can be held.
-/

namespace TraceAtlas

/-- A piece of structured data. Fractions and moments in time have no meaning in a script, so
nothing is kept of them. -/
inductive Datum where
  | nothing
  | boolean (b : Bool)
  | integer (n : Int)
  | fraction
  /-- A number that is written down but cannot be held: a fraction that is too large, or digits that
  are none of their base. It does no harm where nobody looks at it. -/
  | misfit
  | moment
  | text (s : String)
  | list (items : List Datum)
  | table (fields : List (String × Datum))
  deriving Inhabited

namespace Datum

/-- A whole number from zero up to a limit. -/
def below? (limit : Nat) : Datum → Option Nat
  | integer (.ofNat n) => if n < limit then some n else none
  | _ => none

/-- A 64-bit word. -/
def word? (d : Datum) : Option UInt64 := (d.below? UInt64.size).map UInt64.ofNat

/-- A 32-bit word. -/
def word32? (d : Datum) : Option UInt32 := (d.below? UInt32.size).map UInt32.ofNat

/-- A text. -/
def text? : Datum → Option String
  | text s => some s
  | _ => none

/-- A list whose items are all read. -/
def list? {α : Type} (read : Datum → Option α) : Datum → Option (List α)
  | list items => items.mapM read
  | _ => none

mutual

/-- Every number in the data can be held: whole ones in a word, signed or unsigned. -/
def fits : Datum → Bool
  | integer n => decide (Int64.minValue.toInt ≤ n ∧ n < UInt64.size)
  | misfit => false
  | list items => fitsAll items
  | table fields => fitsFields fields
  | nothing | boolean _ | fraction | moment | text _ => true

/-- Every number in the items can be held. -/
def fitsAll : List Datum → Bool
  | [] => true
  | d :: ds => d.fits && fitsAll ds

/-- Every number in the fields can be held. -/
def fitsFields : List (String × Datum) → Bool
  | [] => true
  | (_, d) :: ds => d.fits && fitsFields ds

end

end Datum

end TraceAtlas
