import TraceAtlas.Address
import TraceAtlas.Proofs.Text.Numerals

/-! # What spells an address

People write addresses in hexadecimal behind `0x`, in decimals, and with underscores where they like
them. Three rules apply one after the other: the first two characters decide the base, then the
underscores are dropped, and what is left must be a numeral. So an underscore may stand anywhere but
inside the `0x`, and a sign only where the digits begin.

## Main definitions
* `Address.Spells` : which text denotes which number.

## Main statements
* `Address.readChars_eq_ok_iff` : the characters of an address.
* `Address.addresses_parsed` : texts that are addresses, texts that are none, and what is written.
-/

namespace TraceAtlas

namespace Address

variable {cs digits : List Char} {n : Nat}

/-! ## (1) Characters -/

/-- A text announces hexadecimal digits. -/
def Announced (cs : List Char) : Prop := ['0', 'x'] <+: cs ∨ ['0', 'X'] <+: cs

/-- Which text denotes which number. -/
inductive Spells : List Char → Nat → Prop
  | hexadecimal {x : Char} {digits : List Char} {n : Nat} : x = 'x' ∨ x = 'X' →
    Numeral.Spells 16 (digits.filter (· != '_')) n → Spells ('0' :: x :: digits) n
  | decimal {cs : List Char} {n : Nat} : ¬Announced cs →
    Numeral.Spells 10 (cs.filter (· != '_')) n → Spells cs n

/-- Behind `0x` only hexadecimal digits count. -/
theorem spells_announced_iff {x : Char} (hx : x = 'x' ∨ x = 'X') :
    Spells ('0' :: x :: digits) n ↔ Numeral.Spells 16 (digits.filter (· != '_')) n := by
  constructor
  · rintro (⟨-, h⟩ | ⟨hnot, -⟩)
    · exact h
    · refine absurd ?_ hnot
      rcases hx with rfl | rfl
      · exact .inl ⟨digits, rfl⟩
      · exact .inr ⟨digits, rfl⟩
  · exact .hexadecimal hx

/-- Without `0x` only decimals count. -/
theorem spells_iff_of_not_announced (hnot : ¬Announced cs) :
    Spells cs n ↔ Numeral.Spells 10 (cs.filter (· != '_')) n := by
  constructor
  · rintro (⟨hx, -⟩ | ⟨-, h⟩)
    · refine absurd ?_ hnot
      rcases hx with rfl | rfl
      · exact .inl ⟨_, rfl⟩
      · exact .inr ⟨_, rfl⟩
    · exact h
  · exact .decimal hnot

/-- Characters spell at most one number. -/
theorem Spells.unique {m : Nat} (hm : Spells cs m) (hn : Spells cs n) : m = n := by
  cases hm with
  | hexadecimal hx hm => exact hm.unique ((spells_announced_iff hx).1 hn)
  | decimal hnot hm => exact hm.unique ((spells_iff_of_not_announced hnot).1 hn)

/-- **The characters of an address** are read if they denote a number that a word can hold. -/
theorem readChars_eq_ok_iff : readChars cs = .ok n ↔ Spells cs n ∧ n < UInt64.size := by
  have hread (base : Nat) (cs : List Char) :
      Numeral.read base UInt64.size cs = .ok n ↔ Numeral.Spells base cs n ∧ n < UInt64.size :=
    Numeral.read_eq_ok_iff (by decide)
  unfold readChars
  split
  · rw [hread, spells_announced_iff (.inl rfl)]
  · rw [hread, spells_announced_iff (.inr rfl)]
  · rename_i hlower hupper
    have hnot : ¬Announced cs := by
      rintro (⟨digits, rfl⟩ | ⟨digits, rfl⟩)
      · exact hlower digits rfl
      · exact hupper digits rfl
    rw [hread, spells_iff_of_not_announced hnot]

/-- Decimals announce no hexadecimal digits, even with underscores among them. -/
theorem not_announced_of_decimals (h : Numeral.Denotes 10 (cs.filter (· != '_')) n) :
    ¬Announced cs := by
  have hdigit (x : Char) (hx : x ∈ cs) (hkept : x ≠ '_') :
      ∃ d, Numeral.digitValue? 10 x = some d := by
    obtain ⟨d, hd⟩ := h.isDigit_of_mem (List.mem_filter.2 ⟨hx, by simpa using hkept⟩)
    exact ⟨d, Numeral.digitValue?_eq_some_iff.2 hd⟩
  rintro (⟨digits, rfl⟩ | ⟨digits, rfl⟩)
  · obtain ⟨d, hd⟩ := hdigit 'x' (by simp) (by decide)
    cases hd
  · obtain ⟨d, hd⟩ := hdigit 'X' (by simp) (by decide)
    cases hd

/-! ## (2) Texts -/

/-- **An address is read** from exactly the texts that spell it. -/
theorem parse_eq_ok_iff {text : String} {a : Address} :
    parse text = .ok a ↔ Spells text.toList a.toNat := by
  have ha : a.toNat < UInt64.size := a.toNat_lt
  rw [← and_iff_left (a := Spells text.toList a.toNat) ha, ← readChars_eq_ok_iff, parse]
  cases hread : readChars text.toList with
  | error cause => exact iff_of_false (fun h => by cases h) (fun h => by cases h)
  | ok n =>
    have hn := (readChars_eq_ok_iff.1 hread).2
    rw [Except.ok.injEq, Except.ok.injEq, ← UInt64.toNat_inj, UInt64.toNat_ofNat_of_lt' hn]

/-- What no word can hold is refused, whatever the reason. -/
theorem exists_parse_eq_error {text : String} (h : ¬∃ n < UInt64.size, Spells text.toList n) :
    ∃ cause, parse text = .error ⟨text, cause⟩ := by
  rw [parse]
  cases hread : readChars text.toList with
  | error cause => exact ⟨cause, rfl⟩
  | ok n =>
    obtain ⟨hspells, hlt⟩ := readChars_eq_ok_iff.1 hread
    exact absurd ⟨n, hlt, hspells⟩ h

/-- **Texts that are addresses.** A text is read as an address exactly if it spells that address:
behind `0x` or `0X` the characters other than underscores are hexadecimal digits in either case,
else all characters other than underscores are decimals, with at least one digit and perhaps a plus
sign in front of the first. Every text that spells no address is refused, and so is every text that
spells a larger number, however many zeros it begins with. An address as it is written, in
hexadecimal or in decimals, is read again, with underscores anywhere behind the `0x`. -/
theorem addresses_parsed (text : String) :
    (∀ a, parse text = .ok a ↔ Spells text.toList a.toNat) ∧
    ((¬∃ n < UInt64.size, Spells text.toList n) → ∃ cause, parse text = .error ⟨text, cause⟩) ∧
    (∀ n, Spells text.toList n → UInt64.size ≤ n → ∃ cause, parse text = .error ⟨text, cause⟩) ∧
    (∀ a digits, text.toList = '0' :: 'x' :: digits →
      '0' :: 'x' :: digits.filter (· != '_') = (hex a).toList → parse text = .ok a) ∧
    ∀ a : Address, text.toList.filter (· != '_') = (toString a.toNat).toList →
      parse text = .ok a := by
  refine ⟨fun a => parse_eq_ok_iff, exists_parse_eq_error,
    fun n hspells hlarge => exists_parse_eq_error ?_, fun a digits htext hhex => ?_,
    fun a hdecimal => ?_⟩
  · rintro ⟨m, hlt, hm⟩
    exact absurd (hspells.unique hm) (by omega)
  · rw [parse_eq_ok_iff, htext, spells_announced_iff (.inl rfl)]
    have hdigits : digits.filter (· != '_') = Nat.toDigits 16 a.toNat := by
      simpa [hex, Numeral.hex] using hhex
    rw [hdigits]
    exact Numeral.spells_toDigits (by decide) (by decide) a.toNat
  · have hdigits : text.toList.filter (· != '_') = Nat.toDigits 10 a.toNat := by
      rw [hdecimal, Nat.toString_eq_repr, Nat.toList_repr]
    have hdenotes := Numeral.denotes_toDigits (by decide) (by decide : 10 ≤ 16) a.toNat
    rw [← hdigits] at hdenotes
    rw [parse_eq_ok_iff, spells_iff_of_not_announced (not_announced_of_decimals hdenotes), hdigits]
    exact Numeral.spells_toDigits (by decide) (by decide) a.toNat

/-- The largest address in hexadecimal, with underscores and an upper-case prefix. -/
example : parse "0X_ffff_FFFF_ffff_ffff_" = .ok last := by cbv

/-- An underscore inside the prefix spoils it. -/
example : parse "0_x10" = .error ⟨"0_x10", .invalidDigit⟩ := by cbv

end Address

end TraceAtlas
