import TraceAtlas.Text.Numeral

/-! # Addresses

Machine addresses are 64-bit words. Ends of ranges are taken in two ways: around the address space
(`+`, `-`) where only a text or a distance is wanted, and cut off at its last address
(`Address.advance`, `Address.distance`) where a range must stay a range.

## Main definitions
* `Address.advance`, `Address.distance` : addition and subtraction cut off at the ends of the space.
* `Address.parse` : an address as people write it, `0x` and hexadecimal digits or decimal digits,
  with underscores anywhere among them.
-/

namespace TraceAtlas

/-- A machine address. -/
abbrev Address := UInt64

/-- A byte offset from the start of a region. -/
abbrev Offset := UInt32

/-- The number that names a logical frame. -/
abbrev FrameId := UInt32

namespace Address

/-! ## (1) Ranges -/

/-- The highest address. -/
def last : Address := 0xffffffffffffffff

/-- The address `length` bytes on, or the highest one if the space ends before. -/
def advance (start length : Address) : Address :=
  if start.toNat + length.toNat < UInt64.size then start + length else last

/-- The number of bytes from `start` up to `stop`, none if `stop` comes first. -/
def distance (start stop : Address) : Address :=
  if start ≤ stop then stop - start else 0

/-- An address is advanced up to the highest one. -/
theorem toNat_advance (start length : Address) :
    (advance start length).toNat = min (start.toNat + length.toNat) 0xffffffffffffffff := by
  have hsize : UInt64.size = 18446744073709551616 := rfl
  unfold advance
  split
  · rw [UInt64.toNat_add]; omega
  · simp only [last, UInt64.reduceToNat]; omega

/-- A distance is zero if the stop lies before the start. -/
theorem toNat_distance (start stop : Address) :
    (distance start stop).toNat = stop.toNat - start.toNat := by
  unfold distance
  split
  · rw [UInt64.toNat_sub_of_le _ _ ‹_›]
  · rename_i h
    have : stop.toNat < start.toNat := by
      rw [← UInt64.lt_iff_toNat_lt]; exact UInt64.not_le.1 h
    simp only [UInt64.toNat_zero]; omega

/-- The address in hexadecimal. -/
def hex (a : Address) : String := Numeral.hex a.toNat

/-! ## (2) Reading -/

/-- A text that is not an address, and why. -/
structure ParseError where
  text : String
  cause : NumeralError
  deriving DecidableEq, Repr

/-- The error in words. -/
def ParseError.message (e : ParseError) : String :=
  s!"invalid address `{e.text}`: {e.cause.message}"

/-- Reads the characters of an address: `0x` or `0X` announces hexadecimal digits, anything else is
decimal. Underscores count only after the base is known, so one inside `0x` spoils it. -/
def readChars : List Char → Except NumeralError Nat
  | '0' :: 'x' :: digits => Numeral.read 16 UInt64.size (digits.filter (· != '_'))
  | '0' :: 'X' :: digits => Numeral.read 16 UInt64.size (digits.filter (· != '_'))
  | digits => Numeral.read 10 UInt64.size (digits.filter (· != '_'))

/-- Reads an address. -/
def parse (text : String) : Except ParseError Address :=
  match readChars text.toList with
  | .ok n => .ok (UInt64.ofNat n)
  | .error cause => .error ⟨text, cause⟩

end Address

end TraceAtlas
