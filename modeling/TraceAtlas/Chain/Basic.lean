import TraceAtlas.Address

/-! # Frame chains

Which logical frames are active at each offset of a region of machine code, as a flat list of 32-bit
words. Four words make a record: the frame, the half-open range of offsets it is active on, and the
index of the word just past the records nested in it.

## Main definitions
* `Record` : one frame with its range and its skip pointer.
* `Chain` : the words; nothing is promised about them (`Chain.check` is in `Chain.Layout`).
* `Chain.recordAt?` : the record that starts at a word, at any word.
* `Chain.records` : the records at the multiples of four; up to three left-over words are in none.
-/

namespace TraceAtlas

/-- One frame of a chain: active on the offsets from `start` up to `stop`, with the words of the
frames nested in it ending at `next`. -/
structure Record where
  frame : FrameId
  start : Offset
  stop : Offset
  next : UInt32
  deriving DecidableEq, Repr

namespace Record

/-- The number of words in a record. -/
def width : Nat := 4

/-- The four words of a record. -/
def words (r : Record) : List UInt32 := [r.frame, r.start, r.stop, r.next]

/-- Whether the frame is active at an offset. -/
def Active (r : Record) (offset : Nat) : Prop :=
  r.start.toNat ≤ offset ∧ offset < r.stop.toNat

instance (r : Record) (offset : Nat) : Decidable (r.Active offset) :=
  inferInstanceAs (Decidable (_ ∧ _))

end Record

/-- The words that say which frames are active where in a region. -/
structure Chain where
  words : List UInt32
  deriving DecidableEq, Repr

namespace Chain

/-- The number of words. -/
def length (c : Chain) : Nat := c.words.length

/-- Whether there are no words. -/
def isEmpty (c : Chain) : Bool := c.words.isEmpty

/-- The record that starts at a word, if four words are left there. -/
def recordAt? (c : Chain) (index : Nat) : Option Record :=
  match c.words.drop index with
  | frame :: start :: stop :: next :: _ => some ⟨frame, start, stop, next⟩
  | _ => none

/-- The complete records of a list of words, from its first word on. -/
def recordsOf : List UInt32 → List Record
  | frame :: start :: stop :: next :: rest => ⟨frame, start, stop, next⟩ :: recordsOf rest
  | _ => []

/-- The complete records of a chain. -/
def records (c : Chain) : List Record := recordsOf c.words

/-- The chain that consists of some records. -/
def ofRecords (rs : List Record) : Chain := ⟨rs.flatMap Record.words⟩

/-! ## Reading lemmas -/

/-- A record lies within the words. -/
theorem length_ge_of_recordAt? {c : Chain} {index : Nat} {r : Record}
    (h : c.recordAt? index = some r) : index + Record.width ≤ c.length := by
  unfold recordAt? at h
  split at h
  · rename_i heq
    have := congrArg List.length heq
    simp only [List.length_drop, List.length_cons] at this
    simp only [Record.width, length]
    omega
  · cases h

/-- Records that are written are read again. -/
@[simp] theorem records_ofRecords (rs : List Record) : (ofRecords rs).records = rs := by
  induction rs with
  | nil => rfl
  | cons r rs ih =>
    simp only [records, ofRecords] at ih
    simp [records, ofRecords, Record.words, recordsOf, ih]

/-- Each record is four words. -/
@[simp] theorem length_ofRecords (rs : List Record) : (ofRecords rs).length = 4 * rs.length := by
  induction rs with
  | nil => rfl
  | cons r rs ih =>
    simp only [length, ofRecords] at ih
    simp only [length, ofRecords, List.flatMap_cons, List.length_append, ih, Record.words,
      List.length_cons, List.length_nil]
    omega

end Chain

end TraceAtlas
