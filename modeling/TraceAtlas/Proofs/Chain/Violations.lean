import TraceAtlas.Proofs.Chain.Layout
import TraceAtlas.Proofs.Chain.Walk

/-! # The first violation

A chain can break the layout in many places at once, and the check reports one of them. Violations
are lined up here by the record they are about and, at one record, by the rule: the range, then the
skip pointer, then the order of the starts. The check reports the first in this line, whatever else
is wrong behind it.

## Main definitions
* `Record.Breaks` : the rules that a record breaks by itself or against the one in front of it.
* `Chain.Violates` : the violations of a chain.
* `MalformedChain.Precedes` : their order.
* `MalformedChain.Reports` : a check fails with the first violation and passes if there is none.

## Main statements
* `MalformedChain.Reports.orElse` : one check after the other, where all that the first can report
  precedes what the second can.
* `Chain.reports_checkRecords` : the check from a record on.
* `Chain.first_violation` : the check of a whole chain.
-/

namespace TraceAtlas

/-! ## (1) The order of violations -/

namespace MalformedChain

/-- The word at which the record in question starts; words that fill no whole records come first. -/
def index : MalformedChain → Nat
  | length _ => 0
  | interval index .. => index
  | skip index .. => index
  | order index .. => index

/-- The rules in their order at one record. -/
def rule : MalformedChain → Nat
  | length _ => 0
  | interval .. => 1
  | skip .. => 2
  | order .. => 3

/-- At an earlier record, or at the same one by the same rule or an earlier one. -/
def Precedes (e e' : MalformedChain) : Prop :=
  e.index < e'.index ∨ e.index = e'.index ∧ e.rule ≤ e'.rule

/-- A check fails with the first of some violations and passes if there is none. -/
def Reports (P : MalformedChain → Prop) : Except MalformedChain Unit → Prop
  | .ok () => ∀ e, ¬P e
  | .error e => P e ∧ ∀ e', P e' → e.Precedes e'

namespace Reports

variable {P Q : MalformedChain → Prop} {x y : Except MalformedChain Unit}

/-- Nothing is reported exactly if there is nothing to report. -/
theorem eq_ok_iff (h : Reports P x) : x = .ok () ↔ ∀ e, ¬P e := by
  match x with
  | .ok () => exact iff_of_true rfl h
  | .error e => exact iff_of_false nofun fun hnone => hnone e h.1

/-- No more than one violation is the first if place and rule tell violations apart. -/
theorem eq_error_iff (h : Reports P x)
    (hinj : ∀ e e', P e → P e' → e.index = e'.index → e.rule = e'.rule → e = e')
    (e : MalformedChain) : x = .error e ↔ P e ∧ ∀ e', P e' → e.Precedes e' := by
  match x with
  | .ok () => exact iff_of_false nofun fun hfirst => h e hfirst.1
  | .error e₁ =>
    constructor
    · rintro ⟨⟩
      exact h
    · rintro ⟨he, hfirst⟩
      have hle := hfirst e₁ h.1
      have hge := h.2 e he
      unfold Precedes at hle hge
      rw [hinj e₁ e h.1 he (by omega) (by omega)]

/-- What a check reports may be said in other words. -/
theorem congr (h : Reports P x) (hPQ : ∀ e, Q e ↔ P e) : Reports Q x := by
  obtain rfl : Q = P := funext fun e => propext (hPQ e)
  exact h

/-- One check after the other reports the first violation of both, if those of the first check come
in front of those of the second. -/
theorem orElse : Reports P x → Reports Q y → (∀ e e', P e → Q e' → e.Precedes e') →
    Reports (fun e => P e ∨ Q e) (match x with | .error e => .error e | .ok () => y) := by
  intro hx hy hlt
  match x with
  | .error e => exact ⟨.inl hx.1, fun e' he' => he'.elim (hx.2 e') (hlt e e' hx.1)⟩
  | .ok () => exact hy.congr fun e => or_iff_right (hx e)

end Reports

end MalformedChain

open MalformedChain

/-! ## (2) One record -/

/-- The rules that a record breaks, at word `index` of `len` and behind a record that starts at
`previous`. -/
inductive Record.Breaks (r : Record) (regionSize : UInt32) (len index : Nat) (previous : Offset) :
    MalformedChain → Prop
  | interval : ¬(r.start ≤ r.stop ∧ r.stop ≤ regionSize) →
    r.Breaks regionSize len index previous (.interval index r.start r.stop regionSize)
  | skip : ¬(index + Record.width ≤ r.next.toNat ∧ r.next.toNat ≤ len ∧
      r.next.toNat % Record.width = 0) →
    r.Breaks regionSize len index previous (.skip index r.next len)
  | order : r.start < previous →
    r.Breaks regionSize len index previous (.order index r.start previous)

namespace Record.Breaks

variable {r : Record} {regionSize : UInt32} {len index : Nat} {previous : Offset}
  {e e' : MalformedChain}

/-- A violation names the index that is checked. -/
theorem index_eq (h : r.Breaks regionSize len index previous e) : e.index = index := by
  cases h <;> rfl

/-- Rules are counted from one. -/
theorem rule_pos (h : r.Breaks regionSize len index previous e) : 0 < e.rule := by
  cases h <;> exact Nat.succ_pos _

/-- A record breaks a rule in one way. -/
theorem eq_of_rule_eq (h : r.Breaks regionSize len index previous e)
    (h' : r.Breaks regionSize len index previous e') (hrule : e.rule = e'.rule) : e = e' := by
  cases h <;> cases h' <;> first | rfl | cases hrule

/-- A record that breaks no rule is one that fits and does not start before the one in front. -/
theorem none_iff : (∀ e, ¬r.Breaks regionSize len index previous e) ↔
    r.Fits regionSize len index ∧ previous ≤ r.start := by
  constructor
  · intro hnone
    have hrange := Decidable.not_not.1 fun h => hnone _ (.interval h)
    have hskip := Decidable.not_not.1 fun h => hnone _ (.skip h)
    exact ⟨⟨hrange.1, hrange.2, hskip.1, hskip.2.1, hskip.2.2⟩,
      UInt32.not_lt.1 fun h => hnone _ (.order h)⟩
  · rintro ⟨fits, horder⟩ e h
    cases h with
    | interval h => exact h ⟨fits.start_le_stop, fits.stop_le_size⟩
    | skip h => exact h ⟨fits.next_ahead, fits.next_inside, fits.next_aligned⟩
    | order h => exact UInt32.not_lt.2 horder h

end Record.Breaks

namespace Chain

/-- A record's check reports the first rule that the record breaks. -/
theorem reports_checkRecord (regionSize : UInt32) (len index : Nat) (previous : Offset)
    (r : Record) : Reports (r.Breaks regionSize len index previous)
      (checkRecord regionSize len index previous r) := by
  have hranges : ¬(r.start > r.stop ∨ r.stop > regionSize) ↔
      r.start ≤ r.stop ∧ r.stop ≤ regionSize := by
    simp only [not_or, UInt32.not_lt]
  have hskips : ¬(r.next.toNat < index + Record.width ∨ len < r.next.toNat ∨
      r.next.toNat % Record.width ≠ 0) ↔ index + Record.width ≤ r.next.toNat ∧
        r.next.toNat ≤ len ∧ r.next.toNat % Record.width = 0 := by
    simp only [not_or, Nat.not_lt, Decidable.not_not, ne_eq]
  -- the check comes to a rule only if the record breaks none before it
  unfold checkRecord
  split
  · rename_i hrange
    exact ⟨.interval fun h => hranges.2 h hrange,
      fun e' h' => .inr ⟨h'.index_eq.symm, h'.rule_pos⟩⟩
  rename_i hrange
  split
  · rename_i hskip
    refine ⟨.skip fun h => hskips.2 h hskip, fun e' h' => ?_⟩
    cases h' with
    | interval h => exact absurd (hranges.1 hrange) h
    | skip | order => exact .inr ⟨rfl, by simp [rule]⟩
  rename_i hskip
  split
  · rename_i horder
    refine ⟨.order horder, fun e' h' => ?_⟩
    cases h' with
    | interval h => exact absurd (hranges.1 hrange) h
    | skip h => exact absurd (hskips.1 hskip) h
    | order => exact .inr ⟨rfl, Nat.le_refl _⟩
  · rename_i horder
    intro e h
    cases h with
    | interval h => exact h (hranges.1 hrange)
    | skip h => exact h (hskips.1 hskip)
    | order h => exact horder h

/-! ## (3) Records in a row -/

/-- The start of the record in front of record number `i`; in front of the first it is zero. -/
def startBefore (c : Chain) : Nat → Offset
  | 0 => 0
  | i + 1 => ((c.recordAt? (Record.width * i)).map (·.start)).getD 0

/-- Record number `i` breaks a rule. -/
def BreaksAt (c : Chain) (regionSize : UInt32) (i : Nat) (e : MalformedChain) : Prop :=
  ∃ r, c.recordAt? (Record.width * i) = some r ∧
    r.Breaks regionSize c.length (Record.width * i) (c.startBefore i) e

variable {c : Chain} {regionSize : UInt32} {i j : Nat} {e e' : MalformedChain}

/-- A violation names the first word of its record. -/
theorem BreaksAt.index_eq (h : c.BreaksAt regionSize i e) : e.index = Record.width * i := by
  obtain ⟨r, -, h⟩ := h
  exact h.index_eq

/-- A violation in an earlier record comes first. -/
theorem BreaksAt.precedes (h : c.BreaksAt regionSize i e) (h' : c.BreaksAt regionSize j e')
    (hij : i < j) : e.Precedes e' := by
  left
  rw [h.index_eq, h'.index_eq]
  exact Nat.mul_lt_mul_of_pos_left hij (by decide)

/-- The check reports the first violation from a record on, if it carries the start of the record in
front. -/
theorem reports_checkRecords (c : Chain) (regionSize : UInt32) (i : Nat) :
    Reports (fun e => ∃ j, i ≤ j ∧ c.BreaksAt regionSize j e)
      (checkRecords regionSize c.length (Record.width * i) (c.startBefore i)
        (c.records.drop i)) := by
  -- by the records that are left; the start that is carried is that of the record in front of them
  induction hrs : c.records.drop i generalizing i with
  | nil =>
    rintro e ⟨j, hij, r, hr, -⟩
    rw [recordAt?_width_mul] at hr
    have hlen := (List.getElem?_eq_some_iff.1 hr).1
    have := List.drop_eq_nil_iff.1 hrs
    omega
  | cons r rs ih =>
    have hr : c.recordAt? (Record.width * i) = some r := by
      rw [recordAt?_width_mul, ← List.head?_drop, hrs]
      rfl
    have hhead : Reports (c.BreaksAt regionSize i) (checkRecord regionSize c.length
        (Record.width * i) (c.startBefore i) r) :=
      (reports_checkRecord ..).congr fun e => by simp [BreaksAt, hr]
    have htail := ih (i + 1) (by rw [← List.tail_drop, hrs, List.tail_cons])
    rw [startBefore, hr] at htail
    rw [checkRecords]
    have hlt (e e' : MalformedChain) (he : c.BreaksAt regionSize i e)
        (he' : ∃ j, i + 1 ≤ j ∧ c.BreaksAt regionSize j e') : e.Precedes e' := by
      obtain ⟨j, hij, he'⟩ := he'
      exact he.precedes he' hij
    refine (hhead.orElse htail hlt).congr fun e => ?_
    -- the violations from here on are those of this record and those behind it
    constructor
    · rintro ⟨j, hij, he⟩
      rcases Nat.eq_or_lt_of_le hij with rfl | hij
      · exact .inl he
      · exact .inr ⟨j, hij, he⟩
    · rintro (he | ⟨j, hij, he⟩)
      · exact ⟨i, Nat.le_refl i, he⟩
      · exact ⟨j, Nat.le_of_succ_le hij, he⟩

/-! ## (4) Chains -/

/-- The violations of the layout: words that do not fill whole records, and the rules that the
records break. -/
inductive Violates (c : Chain) (regionSize : UInt32) : MalformedChain → Prop
  | length : c.length % Record.width ≠ 0 → c.Violates regionSize (.length c.length)
  | record {i : Nat} {e : MalformedChain} : c.BreaksAt regionSize i e → c.Violates regionSize e

/-- Where the words fill whole records, it is records that break rules. -/
theorem violates_iff_of_whole (h : c.length % Record.width = 0) :
    c.Violates regionSize e ↔ ∃ i, c.BreaksAt regionSize i e := by
  constructor
  · rintro (hlen | hbreaks)
    · exact absurd h hlen
    · exact ⟨_, hbreaks⟩
  · rintro ⟨i, hbreaks⟩
    exact .record hbreaks

/-- Place and rule tell the violations of a chain apart. -/
theorem Violates.eq_of_rule_eq (h : c.Violates regionSize e) (h' : c.Violates regionSize e')
    (hindex : e.index = e'.index) (hrule : e.rule = e'.rule) : e = e' := by
  cases h with
  | length =>
    cases h' with
    | length => rfl
    | record h' =>
      obtain ⟨r', -, h'⟩ := h'
      exact absurd hrule (Nat.ne_of_lt h'.rule_pos)
  | @record i _ h =>
    obtain ⟨r, hr, h⟩ := h
    cases h' with
    | length => exact absurd hrule.symm (Nat.ne_of_lt h.rule_pos)
    | @record j _ h' =>
      obtain ⟨r', hr', h'⟩ := h'
      -- one word, so one record
      rw [h.index_eq, h'.index_eq] at hindex
      obtain rfl := Nat.eq_of_mul_eq_mul_left (by decide) hindex
      obtain rfl := Option.some.inj (hr.symm.trans hr')
      exact h.eq_of_rule_eq h' hrule

/-- The check of a chain reports its first violation. -/
theorem reports_check (c : Chain) (regionSize : UInt32) :
    Reports (c.Violates regionSize) (c.check regionSize) := by
  unfold check
  split
  · rename_i hlen
    refine ⟨.length hlen, fun e' he' => ?_⟩
    -- nothing comes in front of place zero and rule zero
    unfold Precedes
    simp only [index, rule]
    omega
  · rename_i hlen
    have hall := reports_checkRecords c regionSize 0
    exact hall.congr fun e => by simp [violates_iff_of_whole (Decidable.not_not.1 hlen)]

/-- A chain without violations is one that follows the layout. -/
theorem not_violates_iff : (∀ e, ¬c.Violates regionSize e) ↔
    c.length % Record.width = 0 ∧
      (∀ i r, c.recordAt? (Record.width * i) = some r →
        r.Fits regionSize c.length (Record.width * i)) ∧
      ∀ i previous r, c.recordAt? (Record.width * i) = some previous →
        c.recordAt? (Record.width * (i + 1)) = some r → previous.start ≤ r.start := by
  constructor
  · intro hnone
    have hclean i r (hr : c.recordAt? (Record.width * i) = some r) :=
      Record.Breaks.none_iff.1 fun e h => hnone e (.record ⟨r, hr, h⟩)
    refine ⟨Decidable.not_not.1 fun hlen => hnone _ (.length hlen), fun i r hr => (hclean i r hr).1,
      fun i previous r hprevious hr => ?_⟩
    have horder := (hclean (i + 1) r hr).2
    rwa [startBefore, hprevious] at horder
  · rintro ⟨hlen, hfits, horder⟩ e h
    obtain ⟨i, r, hr, hbreaks⟩ := (violates_iff_of_whole hlen).1 h
    refine Record.Breaks.none_iff.2 ⟨hfits i r hr, ?_⟩ e hbreaks
    cases i with
    | zero => exact UInt32.zero_le
    | succ i =>
      rw [startBefore]
      cases hprevious : c.recordAt? (Record.width * i) with
      | none => exact UInt32.zero_le
      | some previous => exact horder i previous r hprevious hr

/-- **The first violation.** The check passes exactly if the words fill whole records, every record
fits where it stands, and none starts before the one in front of it. Otherwise it fails with one
violation, the first there is: that the words do not fill whole records, and else the first rule
broken by the first record that breaks any, with the numbers of this record. -/
theorem first_violation (c : Chain) (regionSize : UInt32) :
    (c.check regionSize = .ok () ↔
      c.length % Record.width = 0 ∧
      (∀ i r, c.recordAt? (Record.width * i) = some r →
        r.Fits regionSize c.length (Record.width * i)) ∧
      ∀ i previous r, c.recordAt? (Record.width * i) = some previous →
        c.recordAt? (Record.width * (i + 1)) = some r → previous.start ≤ r.start) ∧
    ∀ e, c.check regionSize = .error e ↔
      c.Violates regionSize e ∧ ∀ e', c.Violates regionSize e' → e.Precedes e' := by
  have hreports := reports_check c regionSize
  refine ⟨?_, hreports.eq_error_iff fun e e' => Violates.eq_of_rule_eq⟩
  rw [hreports.eq_ok_iff, not_violates_iff]

/-- Where a record breaks every rule, its range is reported. -/
example : check ⟨[1, 4, 8, 4, 2, 3, 1, 0]⟩ 8 = .error (.interval 4 3 1 8) := rfl

end Chain

end TraceAtlas
