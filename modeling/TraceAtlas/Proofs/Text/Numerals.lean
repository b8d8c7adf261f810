import Mathlib.Algebra.Group.Nat.Defs
import TraceAtlas.Text.Numeral

/-! # What numerals denote

A digit counts as often as its place weighs, and a numeral denotes the sum. The reader goes through
the digits from the left and gives up as soon as the limit is passed, so it never holds a number
that does not fit; here it is compared with the sum, for numerals of any length. What is written in
a base denotes the number that was written.

## Main definitions
* `Numeral.IsDigit` : which character is which digit.
* `Numeral.Denotes` : the number that digits denote.
* `Numeral.Spells` : the number that a numeral with or without a sign denotes.

## Main statements
* `Numeral.read_eq_ok_iff` : what is read.
* `Numeral.Spells.unique` : a numeral denotes one number.
* `Numeral.denotes_toDigits` : what is written.
-/

namespace TraceAtlas

namespace Numeral

variable {base limit value n d : Nat} {c : Char} {cs : List Char}

/-! ## (1) Digits -/

/-- The row of digits, in lower case. -/
def lowerDigits : List Char := "0123456789abcdef".toList

/-- The row of digits, in upper case. -/
def upperDigits : List Char := "0123456789ABCDEF".toList

/-- A character is a digit in a base: it has the digit's place in one of the rows. -/
def IsDigit (base : Nat) (c : Char) (d : Nat) : Prop :=
  d < base ∧ (lowerDigits[d]? = some c ∨ upperDigits[d]? = some c)

/-- The reader knows exactly the digits. -/
theorem digitValue?_eq_some_iff : digitValue? base c = some d ↔ IsDigit base c d := by
  unfold digitValue?
  rw [Option.filter_eq_some_iff, and_comm, IsDigit, decide_eq_true_iff]
  refine and_congr_right fun _ => ?_
  constructor
  · intro h
    -- the character is as far behind the first one of its row as the digit is large
    split at h
    · rename_i hdecimal
      have hlow : 48 ≤ c.toNat := hdecimal.1
      have hhigh : c.toNat ≤ 57 := hdecimal.2
      have hrow : ∀ d < 10, lowerDigits[d]? = some (Char.ofNat (d + 48)) := by decide
      obtain rfl := Option.some.inj h
      rw [hrow _ (by omega), Nat.sub_add_cancel hlow, Char.ofNat_toNat]
      exact .inl rfl
    · split at h
      · rename_i hlower
        have hlow : 97 ≤ c.toNat := hlower.1
        have hhigh : c.toNat ≤ 102 := hlower.2
        have hrow : ∀ d < 16, 10 ≤ d → lowerDigits[d]? = some (Char.ofNat (d + 87)) := by decide
        obtain rfl := Option.some.inj h
        rw [hrow _ (by omega) (by omega), Nat.sub_add_cancel (by omega), Char.ofNat_toNat]
        exact .inl rfl
      · split at h
        · rename_i hupper
          have hlow : 65 ≤ c.toNat := hupper.1
          have hhigh : c.toNat ≤ 70 := hupper.2
          have hrow : ∀ d < 16, 10 ≤ d → upperDigits[d]? = some (Char.ofNat (d + 55)) := by decide
          obtain rfl := Option.some.inj h
          rw [hrow _ (by omega) (by omega), Nat.sub_add_cancel (by omega), Char.ofNat_toNat]
          exact .inr rfl
        · cases h
  · have hlower : ∀ d < 16, lowerDigits[d]?.bind (digitValue? 16) = some d := by decide
    have hupper : ∀ d < 16, upperDigits[d]?.bind (digitValue? 16) = some d := by decide
    rintro (h | h)
    · obtain ⟨hd, -⟩ := List.getElem?_eq_some_iff.1 h
      have hvalue := hlower d hd
      rw [h] at hvalue
      exact (Option.filter_eq_some_iff.1 hvalue).1
    · obtain ⟨hd, -⟩ := List.getElem?_eq_some_iff.1 h
      have hvalue := hupper d hd
      rw [h] at hvalue
      exact (Option.filter_eq_some_iff.1 hvalue).1

/-- A plus sign is no digit. -/
theorem not_isDigit_plus : ¬IsDigit base '+' d := fun h => by
  cases digitValue?_eq_some_iff.2 h

/-- The characters that digits are written with are those digits. -/
theorem isDigit_digitChar (hd : d < base) (hbase : base ≤ 16) : IsDigit base d.digitChar d := by
  have hrow : ∀ d < 16, lowerDigits[d]? = some d.digitChar := by decide
  exact ⟨hd, .inl (hrow d (by omega))⟩

/-! ## (2) Digits in a row -/

/-- Digits denote a number: each counts as often as its place weighs. -/
inductive Denotes (base : Nat) : List Char → Nat → Prop
  | nil : Denotes base [] 0
  | cons {c : Char} {d : Nat} {cs : List Char} {n : Nat} : IsDigit base c d → Denotes base cs n →
    Denotes base (c :: cs) (d * base ^ cs.length + n)

/-- Characters that denote a number are all digits. -/
theorem Denotes.isDigit_of_mem (h : Denotes base cs n) (hc : c ∈ cs) :
    ∃ d, IsDigit base c d := by
  induction h with
  | nil => cases hc
  | cons hfirst _ ih =>
    rcases List.mem_cons.1 hc with rfl | hc
    · exact ⟨_, hfirst⟩
    · exact ih hc

/-- One more digit behind the others. -/
theorem Denotes.snoc (h : Denotes base cs n) (hc : IsDigit base c d) :
    Denotes base (cs ++ [c]) (base * n + d) := by
  induction h with
  | nil => simpa using Denotes.cons hc .nil
  | @cons c' d' cs n hc' _ ih =>
    have hsum : base * (d' * base ^ cs.length + n) + d =
        d' * base ^ (cs ++ [c]).length + (base * n + d) := by
      rw [List.length_append, List.length_singleton, Nat.pow_succ, Nat.mul_add, Nat.add_assoc]
      congr 1
      rw [Nat.mul_comm base, Nat.mul_assoc]
    rw [hsum]
    exact .cons hc' ih

/-- Reading goes on from the number that the digits so far denote. It ends well if all characters
are digits and the whole number is below the limit, since the number only grows. -/
theorem readDigits_eq_ok_iff (hvalue : value < limit) : readDigits base limit value cs = .ok n ↔
    ∃ rest, Denotes base cs rest ∧ n = value * base ^ cs.length + rest ∧ n < limit := by
  induction cs generalizing value with
  | nil =>
    rw [readDigits, Except.ok.injEq, List.length_nil, Nat.pow_zero, Nat.mul_one]
    constructor
    · rintro rfl
      exact ⟨0, .nil, rfl, hvalue⟩
    · rintro ⟨_, ⟨⟩, rfl, -⟩
      rfl
  | cons c cs ih =>
    have hweigh (d rest : Nat) : (value * base + d) * base ^ cs.length + rest =
        value * base ^ (c :: cs).length + (d * base ^ cs.length + rest) := by
      rw [List.length_cons, Nat.pow_succ', ← Nat.mul_assoc, Nat.add_mul, Nat.add_assoc]
    rw [readDigits]
    cases hdigit : digitValue? base c with
    | none =>
      refine iff_of_false (fun h => by cases h) ?_
      rintro ⟨_, _ | ⟨hc, -⟩, -⟩
      rw [digitValue?_eq_some_iff.2 hc] at hdigit
      cases hdigit
    | some d =>
      have hc := digitValue?_eq_some_iff.1 hdigit
      have hbase : 0 < base ^ cs.length := Nat.pow_pos (Nat.zero_lt_of_lt hc.1)
      by_cases hbelow : value * base + d < limit
      · simp only [if_pos hbelow, ih hbelow, hweigh]
        constructor
        · rintro ⟨rest, hrest, hn⟩
          exact ⟨_, .cons hc hrest, hn⟩
        · rintro ⟨_, _ | ⟨hc', hrest⟩, hn⟩
          obtain rfl := Option.some.inj (hdigit.symm.trans (digitValue?_eq_some_iff.2 hc'))
          exact ⟨_, hrest, hn⟩
      · simp only [if_neg hbelow]
        refine iff_of_false (fun h => by cases h) ?_
        rintro ⟨_, _ | ⟨hc', hrest⟩, rfl, hlt⟩
        obtain rfl := Option.some.inj (hdigit.symm.trans (digitValue?_eq_some_iff.2 hc'))
        -- the digits behind the limit cannot take the number below it again
        rw [← hweigh] at hlt
        have := Nat.le_mul_of_pos_right (value * base + d) hbase
        omega

/-! ## (3) Numerals -/

/-- A numeral denotes a number: one digit at least, and perhaps a plus sign in front. -/
def Spells (base : Nat) (cs : List Char) (n : Nat) : Prop :=
  ∃ digits, (cs = digits ∨ cs = '+' :: digits) ∧ digits ≠ [] ∧ Denotes base digits n

/-- **What is read** is what a numeral denotes, if that is below the limit. -/
theorem read_eq_ok_iff (hlimit : 0 < limit) :
    read base limit cs = .ok n ↔ Spells base cs n ∧ n < limit := by
  have hdigits (cs : List Char) :
      readDigits base limit 0 cs = .ok n ↔ Denotes base cs n ∧ n < limit := by
    rw [readDigits_eq_ok_iff hlimit, Nat.zero_mul]
    simp only [Nat.zero_add]
    exact ⟨fun ⟨_, h, hn, hlt⟩ => ⟨hn ▸ h, hlt⟩, fun ⟨h, hlt⟩ => ⟨n, h, rfl, hlt⟩⟩
  unfold read
  split
  · -- no characters at all
    refine iff_of_false (fun h => by cases h) ?_
    rintro ⟨⟨digits, rfl | h, hne, -⟩, -⟩
    · exact hne rfl
    · cases h
  · -- a sign and nothing behind it
    refine iff_of_false (fun h => by cases h) ?_
    rintro ⟨⟨digits, rfl | h, hne, hdenotes⟩, -⟩
    · cases hdenotes with
      | cons hc => exact not_isDigit_plus hc
    · exact hne (List.cons.inj h).2.symm
  · -- a sign is no digit, so the digits begin behind it
    rename_i cs hne
    rw [hdigits]
    refine and_congr_left fun _ => ⟨fun h => ⟨cs, .inr rfl, hne, h⟩, ?_⟩
    rintro ⟨digits, rfl | h, -, hdenotes⟩
    · cases hdenotes with
      | cons hc => exact absurd hc not_isDigit_plus
    · rwa [(List.cons.inj h).2]
  · -- without a sign all characters are digits
    rename_i hempty hsign hsigned
    rw [hdigits]
    refine and_congr_left fun _ => ⟨fun h => ⟨cs, .inl rfl, hempty, h⟩, ?_⟩
    rintro ⟨digits, rfl | rfl, -, hdenotes⟩
    · exact hdenotes
    · exact absurd rfl (hsigned digits)

/-- A numeral denotes one number: a reader with a limit that is large enough finds any of them. -/
theorem Spells.unique {m : Nat} (hm : Spells base cs m) (hn : Spells base cs n) : m = n := by
  have hlimit : 0 < max m n + 1 := Nat.succ_pos _
  have hreadm : read base (max m n + 1) cs = .ok m := (read_eq_ok_iff hlimit).2 ⟨hm, by omega⟩
  have hreadn : read base (max m n + 1) cs = .ok n := (read_eq_ok_iff hlimit).2 ⟨hn, by omega⟩
  exact Except.ok.inj (hreadm.symm.trans hreadn)

/-- **What is written** in a base denotes the number. -/
theorem denotes_toDigits (hlow : 1 < base) (hhigh : base ≤ 16) (n : Nat) :
    Denotes base (Nat.toDigits base n) n := by
  induction n using Nat.strongRecOn with
  | ind n ih =>
    by_cases hn : n < base
    · rw [Nat.toDigits_of_lt_base hn]
      simpa using Denotes.cons (isDigit_digitChar hn hhigh) .nil
    · rw [Nat.toDigits_of_base_le hlow (Nat.not_lt.1 hn)]
      have hlast := isDigit_digitChar (Nat.mod_lt n (Nat.zero_lt_of_lt hlow)) hhigh
      have hrest := ih (n / base) (Nat.div_lt_self (by omega) hlow)
      simpa only [Nat.div_add_mod] using hrest.snoc hlast

/-- The digits of a number spell it. -/
theorem spells_toDigits (hlow : 1 < base) (hhigh : base ≤ 16) (n : Nat) :
    Spells base (Nat.toDigits base n) n :=
  ⟨_, .inl rfl, Nat.toDigits_ne_nil, denotes_toDigits hlow hhigh n⟩

end Numeral

end TraceAtlas
