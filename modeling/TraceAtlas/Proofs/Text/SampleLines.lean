import Mathlib.Data.List.Basic
import TraceAtlas.Proofs.Text.Addresses
import TraceAtlas.SampleReport

/-! # Reading the lines of samples

The line of a sample mixes numbers in two bases, dashes for what is not known, and a list with
blanks in it like those between the fields. Still each field ends at the first character of a kind
that no value of the field contains, and a dash is no number. So a line can be taken apart again
from the left, and samples that differ have lines that differ.

## Main definitions
* `Sample.field?` : a field behind its label, and what comes after it.
* `Sample.unlessDash?`, `Sample.frames?` : the values of fields.
* `Sample.ofLine?` : the sample that a line shows.

## Main statements
* `Sample.frames?_intercalate` : the frames on a line are told apart.
* `Sample.ofLine?_line` : reading undoes writing.
* `Sample.lines_tell_samples_apart` : nothing is lost on a line.
-/

namespace TraceAtlas

/-! ## (1) Numbers that were written -/

namespace Numeral

variable {base limit n : Nat} {c : Char}

/-- A number that was written is read again. -/
theorem read_toDigits (hlow : 1 < base) (hhigh : base ≤ 16) (hlt : n < limit) :
    read base limit (Nat.toDigits base n) = .ok n :=
  (read_eq_ok_iff (Nat.zero_lt_of_lt hlt)).2 ⟨spells_toDigits hlow hhigh n, hlt⟩

/-- Numbers are written in digits and nothing else. -/
theorem not_mem_toDigits (hlow : 1 < base) (hhigh : base ≤ 16) (hc : digitValue? base c = none)
    (n : Nat) : c ∉ Nat.toDigits base n := by
  intro hmem
  obtain ⟨d, hd⟩ := (denotes_toDigits hlow hhigh n).isDigit_of_mem hmem
  rw [← digitValue?_eq_some_iff, hc] at hd
  cases hd

/-- Dropping what is no digit leaves the digits of a number alone. -/
theorem filter_ne_toDigits (hlow : 1 < base) (hhigh : base ≤ 16) (hc : digitValue? base c = none)
    (n : Nat) : (Nat.toDigits base n).filter (· != c) = Nat.toDigits base n := by
  refine List.filter_eq_self.2 ?_
  intro d hd
  refine bne_iff_ne.2 ?_
  rintro rfl
  exact not_mem_toDigits hlow hhigh hc n hd

end Numeral

namespace Address

/-- An address is written with its hexadecimal digits behind their announcement. -/
theorem toList_hex (a : Address) : (hex a).toList = '0' :: 'x' :: Nat.toDigits 16 a.toNat := by
  simp [hex, Numeral.hex]

/-- An address that was written is read again. -/
theorem parse_hex (a : Address) : parse (hex a) = .ok a := by
  rw [parse_eq_ok_iff, toList_hex, spells_announced_iff (.inl rfl),
    Numeral.filter_ne_toDigits (by decide) (by decide) rfl]
  exact Numeral.spells_toDigits (by decide) (by decide) a.toNat

/-- Besides the announcement an address is written in digits only. -/
theorem not_mem_hex {c : Char} (hc : Numeral.digitValue? 16 c = none) (hx : c ≠ 'x')
    (a : Address) : c ∉ (hex a).toList := by
  have hzero : c ≠ '0' := by
    rintro rfl
    cases hc
  rw [toList_hex]
  simp [hx, hzero, Numeral.not_mem_toDigits (by decide) (by decide) hc]

end Address

namespace Sample

/-! ## (2) Fields -/

/-- A field with its label in front: the characters up to the first `stop`, and those behind it. -/
def field? (label : String) (stop : Char) (cs : List Char) : Option (List Char × List Char) := do
  let cs ← cs.dropPrefix? label.toList
  match cs.dropWhile (· != stop) with
  | [] => none
  | _ :: rest => return (cs.takeWhile (· != stop), rest)

/-- A field ends where it should if no character before is taken for its end. -/
theorem field?_append (label : String) {stop : Char} {value : List Char} (h : stop ∉ value)
    (rest : List Char) :
    field? label stop (label.toList ++ (value ++ stop :: rest)) = some (value, rest) := by
  have hvalue : ∀ c ∈ value, (c != stop) = true := by
    intro c hc
    refine bne_iff_ne.2 ?_
    rintro rfl
    exact h hc
  rw [field?, List.dropPrefix?_append_of_beq _ (beq_self_eq_true _), Option.bind_eq_bind,
    Option.bind_some, List.dropWhile_append_of_pos hvalue, List.takeWhile_append_of_pos hvalue]
  simp

/-- A value, or a dash for none. -/
def unlessDash? {α : Type} (read? : List Char → Option α) (cs : List Char) : Option (Option α) :=
  if cs = ['-'] then some none else (read? cs).map some

/-- A dash stands for none if it is not how a value is written. -/
theorem unlessDash?_orDash {α : Type} {read? : List Char → Option α} {write : α → String}
    (hread : ∀ a, read? (write a).toList = some a) (hdash : read? ['-'] = none) (o : Option α) :
    unlessDash? read? (orDash write o).toList = some o := by
  cases o with
  | none => simp [orDash, unlessDash?]
  | some a =>
    have hne : (write a).toList ≠ ['-'] := by
      intro heq
      have ha := hread a
      rw [heq, hdash] at ha
      cases ha
    rw [orDash, unlessDash?, if_neg hne, hread]
    rfl

/-- An address, as the command line takes it. -/
def address? (cs : List Char) : Option Address := (Address.parse (.ofList cs)).toOption

/-- A number of a frame or a depth, in decimals. -/
def number? (cs : List Char) : Option UInt32 :=
  (Numeral.read 10 UInt32.size cs).toOption.map .ofNat

/-- An address is read back from a line. -/
theorem address?_hex (a : Address) : address? (Address.hex a).toList = some a := by
  rw [address?, String.ofList_toList, Address.parse_hex]
  rfl

/-- So is a number. -/
theorem number?_toDigits (n : UInt32) : number? (Nat.toDigits 10 n.toNat) = some n := by
  rw [number?, Numeral.read_toDigits (by decide) (by decide) n.toNat_lt]
  simp [Except.toOption]

/-! ## (3) Frames -/

/-- Numbers with commas between them, and blanks anywhere. -/
def frames? (cs : List Char) : Option (List FrameId) :=
  if cs = [] then some [] else ((cs.filter (· != ' ')).splitOn ',').mapM number?

section Joined

variable {separator : List Char} {ls : List (List Char)}

/-- What is dropped from joined lists may be dropped from each of them before. -/
theorem filter_intercalate (p : Char → Bool) :
    (separator.intercalate ls).filter p =
      (separator.filter p).intercalate (ls.map (List.filter p)) := by
  induction ls with
  | nil => rfl
  | cons l ls ih =>
    cases ls with
    | nil => simp
    | cons l' ls => simp_all

/-- A character in no list and not in the separator is not in what is joined. -/
theorem not_mem_intercalate {c : Char} (hseparator : c ∉ separator) (hls : ∀ l ∈ ls, c ∉ l) :
    c ∉ separator.intercalate ls := by
  induction ls with
  | nil => simp
  | cons l ls ih =>
    cases ls with
    | nil => simpa using hls
    | cons l' ls => simp_all

end Joined

/-- The frames on a line, in decimals. -/
theorem toList_bracketed (fs : List FrameId) :
    (Numeral.bracketed (fs.map UInt32.toNat)).toList =
      '[' :: ([',', ' '].intercalate (fs.map fun f => Nat.toDigits 10 f.toNat) ++ [']']) := by
  simp [Numeral.bracketed, Function.comp_def]

/-- A character that is no digit is in no frame. -/
theorem not_mem_digits {c : Char} (hc : Numeral.digitValue? 10 c = none) {fs : List FrameId}
    {l : List Char} (hl : l ∈ fs.map fun f => Nat.toDigits 10 f.toNat) : c ∉ l := by
  obtain ⟨f, -, rfl⟩ := List.mem_map.1 hl
  exact Numeral.not_mem_toDigits (by decide) (by decide) hc f.toNat

/-- **Frames are told apart** by the commas between them, which no number contains. -/
theorem frames?_intercalate (fs : List FrameId) :
    frames? ([',', ' '].intercalate (fs.map fun f => Nat.toDigits 10 f.toNat)) = some fs := by
  cases fs with
  | nil => rfl
  | cons f fs =>
    let digits : FrameId → List Char := fun f => Nat.toDigits 10 f.toNat
    have hne : [',', ' '].intercalate ((f :: fs).map digits) ≠ [] := by
      have hdigits : digits f ≠ [] := Nat.toDigits_ne_nil
      cases fs <;> simp [hdigits]
    have hblanks : ((f :: fs).map digits).map (List.filter (· != ' ')) = (f :: fs).map digits := by
      rw [List.map_map]
      refine List.map_congr_left fun g _ => ?_
      exact Numeral.filter_ne_toDigits (by decide) (by decide) rfl g.toNat
    have hread : number? ∘ digits = some := funext number?_toDigits
    have hall : (f :: fs).mapM some = some ((f :: fs).map id) := List.mapM_pure
    show frames? ([',', ' '].intercalate ((f :: fs).map digits)) = _
    rw [frames?, if_neg hne, filter_intercalate, hblanks]
    -- without the blanks a comma is all that stands between two numbers
    show (([','].intercalate _).splitOn ',').mapM number? = _
    rw [List.splitOn_intercalate ',' (fun _ => not_mem_digits rfl) (by simp), List.mapM_map, hread,
      hall, List.map_id]

/-! ## (4) Lines -/

/-- The sample that a line shows. -/
def ofLine? (line : String) : Option Sample := do
  let (pc, cs) ← field? "" ':' line.toList
  let (region, cs) ← field? " region=" ' ' cs
  let (frames, cs) ← field? "frames=[" ']' cs
  let depth ← cs.dropPrefix? " depth=".toList
  return {
    pc := ← address? pc
    region := ← unlessDash? address? region
    frames := ← frames? frames
    depth := ← unlessDash? number? depth }

/-- **Reading undoes writing.** -/
theorem ofLine?_line (s : Sample) : ofLine? s.line = some s := by
  let region := (orDash Address.hex s.region).toList
  let frames := [',', ' '].intercalate (s.frames.map fun f => Nat.toDigits 10 f.toNat)
  let depth := (orDash (fun d => toString d.toNat) s.depth).toList
  have hline : s.line.toList = "".toList ++ ((Address.hex s.pc).toList ++ ':' ::
      (" region=".toList ++ (region ++ ' ' ::
        ("frames=[".toList ++ (frames ++ ']' :: (" depth=".toList ++ depth)))))) := by
    simp [line, toList_bracketed, region, frames, depth]
  -- a field is cut at the first character that may end it, so none may contain its own; the blanks
  -- between the frames do no harm, as these end at a bracket
  have hpc : ':' ∉ (Address.hex s.pc).toList := Address.not_mem_hex rfl (by decide) s.pc
  have hregion : ' ' ∉ region := by
    cases hs : s.region with
    | none => simp [region, hs, orDash]
    | some a => simpa [region, hs, orDash] using Address.not_mem_hex rfl (by decide) a
  have hframes : ']' ∉ frames := not_mem_intercalate (by decide) fun _ => not_mem_digits rfl
  have hlabel : (" depth=".toList ++ depth).dropPrefix? " depth=".toList = some depth :=
    List.dropPrefix?_append_of_beq _ (beq_self_eq_true _)
  have hregionRead : unlessDash? address? region = some s.region :=
    unlessDash?_orDash address?_hex (by cbv) s.region
  have hframesRead : frames? frames = some s.frames := frames?_intercalate s.frames
  have hdepthRead : unlessDash? number? depth = some s.depth := by
    refine unlessDash?_orDash ?_ rfl s.depth
    intro d
    rw [Nat.toString_eq_repr, Nat.toList_repr]
    exact number?_toDigits d
  simp only [ofLine?, hline, field?_append "" hpc, field?_append " region=" hregion,
    field?_append "frames=[" hframes, hlabel, address?_hex, hregionRead, hframesRead, hdepthRead,
    Option.bind_eq_bind, Option.bind_some]
  rfl

/-- A list of two frames where the depth is not known. -/
example : ofLine? "0x1010: region=0x1000 frames=[4, 2] depth=-" =
    some ⟨0x1010, some 0x1000, [4, 2], none⟩ := by cbv

/-- **Nothing is lost on a line.** Whatever the program counter, the region, the frames and the
depth of a sample are, its line reads as this sample again. So two samples have the same line only
if they agree in the program counter, in the region, in all frames and their order, and in the
depth. -/
theorem lines_tell_samples_apart (a b : Sample) :
    ofLine? a.line = some a ∧
      (a.line = b.line ↔
        a.pc = b.pc ∧ a.region = b.region ∧ a.frames = b.frames ∧ a.depth = b.depth) := by
  refine ⟨ofLine?_line a, ?_⟩
  constructor
  · intro hline
    have hread := ofLine?_line b
    rw [← hline, ofLine?_line a] at hread
    obtain rfl := Option.some.inj hread
    exact ⟨rfl, rfl, rfl, rfl⟩
  · rintro ⟨hpc, hregion, hframes, hdepth⟩
    rw [line, line, hpc, hregion, hframes, hdepth]

end Sample

end TraceAtlas
