import TraceAtlas.Proofs.Index.Contents
import TraceAtlas.Proofs.Registry.Pieces
import TraceAtlas.Script.Basic
import TraceAtlas.Replay

/-! # Claims

Before it registers anything a replay claims the starts, and it forgets the claims of what it drops.
Both are done apart from the registry: the pieces of code are cut a second time, and ranges end in
another way. Here the two ways of cutting are shown to agree, and forgetting a range is compared
with clearing one; the highest address is where they part.

## Main definitions
* `Replay.ClaimsOverflow` : claiming some starts runs past the end of the address space.

## Main statements
* `Replay.mem_forgetRange` : a claim is forgotten if its address is in the range, unless it is the
  highest address.
* `Replay.claimed_eq_map_pieces` : the positions that are claimed are those of the pieces.
* `Replay.outcome_claimBlocks` : claiming starts one after the other.
-/

namespace TraceAtlas

/-! ## (1) Forgetting -/

namespace Address

/-- The highest address is one less than the number of addresses. -/
theorem toNat_last : last.toNat = 2 ^ 64 - 1 := by decide

/-- The range behind a start that is cut off at the highest address loses nothing but that address.
-/
theorem lt_advance_iff {start length a : Address} :
    a < advance start length ↔ a ≠ last ∧ a.toNat < start.toNat + length.toNat := by
  have ha : a ≠ last ↔ a.toNat ≠ 2 ^ 64 - 1 := by rw [Ne, ← UInt64.toNat_inj, toNat_last]
  have hlt := a.toNat_lt
  rw [ha, UInt64.lt_iff_toNat_lt, toNat_advance]
  omega

/-- No code ends behind the highest address. -/
theorem not_inRange_distance_last (start stop : Address) :
    ¬InRange start (distance start stop) last := by
  rintro ⟨-, hlt⟩
  have hstart := start.toNat_lt
  have hstop := stop.toNat_lt
  rw [toNat_distance, toNat_last] at hlt
  omega

end Address

namespace Replay

/-- Claims are forgotten in a range, but for one on the highest address. -/
theorem mem_forgetRange {starts : List Address} {start length a : Address} :
    a ∈ forgetRange starts start length ↔
      a ∈ starts ∧ ¬(a ≠ Address.last ∧ Address.InRange start length a) := by
  rw [forgetRange, List.mem_filter, Address.InRange]
  simp only [Bool.not_eq_true', Bool.and_eq_false_iff, decide_eq_false_iff_not,
    Address.lt_advance_iff]
  refine and_congr_right fun _ => ?_
  by_cases hstart : start ≤ a <;> simp [hstart]

/-- All claims in code that is freed are forgotten. -/
theorem mem_forgetRange_distance {starts : List Address} {start stop a : Address} :
    a ∈ forgetRange starts start (Address.distance start stop) ↔
      a ∈ starts ∧ ¬Address.InRange start (Address.distance start stop) a := by
  rw [mem_forgetRange]
  refine and_congr_right fun _ => not_congr (and_iff_right_of_imp ?_)
  rintro h rfl
  exact Address.not_inRange_distance_last start stop h

/-! ## (2) Positions -/

/-- What the check of an operation says of a block of code and its positions. -/
theorem of_validate_frameDepths {start stop : Address} {positions : List Offset}
    {depths : List UInt32} (h : (Op.frameDepths start stop positions depths).validate = .ok ()) :
    positions.length = depths.length ∧ Op.Ascending positions ∧ start ≤ stop ∧
      ∀ p ∈ positions.getLast?, Address.advance start p.toUInt64 ≤ stop := by
  simp only [Op.validate] at h
  split at h
  · cases h
  · rename_i hpairs
    split at h
    · cases h
    · rename_i hascending
      split at h
      · cases h
      · rename_i hstop
        refine ⟨Decidable.not_not.1 hpairs, Decidable.not_not.1 hascending, UInt64.not_lt.1 hstop,
          fun p hp => ?_⟩
        rw [Option.mem_def] at hp
        rw [hp] at h
        exact UInt64.not_lt.1 fun hbehind => by simp [hbehind] at h

/-- No position of a block of code that was checked lies behind its end, where a position behind the
address space counts as the highest address. -/
theorem advance_le_stop {start stop : Address} {positions : List Offset} {depths : List UInt32}
    (h : (Op.frameDepths start stop positions depths).validate = .ok ()) {p : Offset}
    (hp : p ∈ positions) : Address.advance start p.toUInt64 ≤ stop := by
  obtain ⟨-, hascending, -, hend⟩ := of_validate_frameDepths h
  obtain ⟨ps, final, rfl⟩ : ∃ ps final, positions = ps ++ [final] :=
    ⟨_, _, (List.dropLast_append_getLast (List.ne_nil_of_mem hp)).symm⟩
  -- only the last position is compared with the end, and no other one is behind it
  have hle : p ≤ final := by
    rcases List.mem_append.1 hp with hp | hp
    · exact (List.pairwise_append.1 hascending).2.2 p hp final (by simp)
    · exact UInt32.le_of_eq (List.mem_singleton.1 hp)
  have hfinal := hend final (by simp)
  rw [UInt32.le_iff_toNat_le] at hle
  rw [UInt64.le_iff_toNat_le, Address.toNat_advance, UInt32.toNat_toUInt64] at hfinal ⊢
  omega

/-- The positions that are claimed are those of the pieces that are registered, in the same order.
-/
theorem claimed_eq_map_pieces (length : Address) {positions : List Offset} {depths : List UInt32}
    (h : positions.length = depths.length) :
    claimed length positions = (Registry.pieces length positions depths).map (·.position) := by
  induction positions generalizing depths with
  | nil => simp [claimed, Registry.pieces]
  | cons position positions ih =>
    cases depths with
    | nil => cases h
    | cons depth depths =>
      have hrest := ih (Nat.succ.inj h)
      simp only [claimed, Registry.pieces]
      split
      · rename_i hlt
        rw [if_neg (UInt64.not_le.2 hlt), List.map_cons, hrest]
      · rename_i hge
        rw [if_pos (UInt64.not_lt.1 hge), hrest]

/-- What is claimed are some of the positions, in their order. -/
theorem claimed_sublist (length : Address) (positions : List Offset) :
    (claimed length positions).Sublist positions := by
  induction positions with
  | nil => exact .slnil
  | cons position positions ih =>
    simp only [claimed]
    split
    · exact ih.cons_cons position
    · exact ih.cons position

/-- Positions that do not go back are claimed in strictly increasing order. -/
theorem pairwise_claimed (length : Address) {positions : List Offset}
    (h : Op.Ascending positions) : (claimed length positions).Pairwise (· < ·) := by
  -- which depths are beside them does not matter
  have hpaired : positions.length = (List.replicate positions.length (0 : UInt32)).length :=
    List.length_replicate.symm
  rw [claimed_eq_map_pieces length hpaired]
  exact List.pairwise_map.2 (Registry.pairwise_pieces h)

/-! ## (3) Claiming -/

/-- The addresses at some positions of the code from `start` on. -/
def startsAt (start : Address) (positions : List Offset) : List Address :=
  positions.map fun position => start + position.toUInt64

/-- The addresses at some positions are the start moved on by each of them. -/
theorem mem_startsAt {start a : Address} {positions : List Offset} :
    a ∈ startsAt start positions ↔ ∃ p ∈ positions, start + p.toUInt64 = a := List.mem_map

/-- Claiming the starts at some positions runs past the end of the address space: it gets to a
position that lies behind it, because all starts in front of that one are free. -/
def ClaimsOverflow (claims : List Address) (start : Address) (positions : List Offset) : Prop :=
  (∃ p ∈ positions, UInt64.size ≤ start.toNat + p.toNat) ∧
    ∀ p ∈ positions, start.toNat + p.toNat < UInt64.size → start + p.toUInt64 ∉ claims

/-- What lies behind the end of the address space comes last, so a first position in front of it
leaves the question to the others. -/
theorem claimsOverflow_cons_iff {claims : List Address} {start : Address} {p : Offset}
    {ps : List Offset} (hp : start.toNat + p.toNat < UInt64.size) (hne : ∀ q ∈ ps, p ≠ q) :
    ClaimsOverflow claims start (p :: ps) ↔ start + p.toUInt64 ∉ claims ∧
      ClaimsOverflow ((start + p.toUInt64) :: claims) start ps := by
  have hcons : ∀ q ∈ ps, (start + q.toUInt64 ∉ (start + p.toUInt64) :: claims ↔
      start + q.toUInt64 ∉ claims) := by
    intro q hq
    rw [List.mem_cons, not_or, and_iff_right]
    exact fun h => hne q hq (Address.add_offset_inj h).symm
  simp only [ClaimsOverflow, List.exists_mem_cons_iff, List.forall_mem_cons]
  constructor
  · rintro ⟨hbehind, hfree, hrest⟩
    refine ⟨hfree hp, hbehind.resolve_left (by omega), fun q hq hlt => ?_⟩
    exact (hcons q hq).2 (hrest q hq hlt)
  · rintro ⟨hfree, hbehind, hrest⟩
    exact ⟨.inr hbehind, fun _ => hfree, fun q hq hlt => (hcons q hq).1 (hrest q hq hlt)⟩

/-- **Claiming starts one after the other** ends with all of them claimed, or at the first one that
was taken, with those before it claimed, or at the end of the address space. What is claimed was
free before. -/
theorem outcome_claimBlocks (r : Replay) (start : Address) {positions : List Offset}
    (h : positions.Pairwise (· < ·)) :
    (ClaimsOverflow r.blocks start positions ∧
        (r.claimBlocks start positions).outcome = .error .addressOverflow) ∨
      ¬ClaimsOverflow r.blocks start positions ∧ ∃ result n,
        (r.claimBlocks start positions).outcome = .ok (result,
          { r with blocks := (startsAt start (positions.take n)).reverse ++ r.blocks }) ∧
        (∀ p ∈ positions.take n, start.toNat + p.toNat < UInt64.size ∧
          start + p.toUInt64 ∉ r.blocks) ∧
        match result with
        | .ok () => positions.length ≤ n
        | .error e => ∃ p, positions[n]? = some p ∧ start + p.toUInt64 ∈ r.blocks ∧
            e = .blockTaken (start + p.toUInt64) := by
  induction positions generalizing r with
  | nil => exact .inr ⟨by simp [ClaimsOverflow], .ok (), 0, rfl, by simp, Nat.le_refl 0⟩
  | cons p ps ih =>
    obtain ⟨hp, hps⟩ := List.pairwise_cons.1 h
    rw [claimBlocks]
    by_cases hbehind : UInt64.size ≤ start.toNat + p.toNat
    · refine .inl ⟨⟨⟨p, by simp, hbehind⟩, fun q hq hlt => ?_⟩, by rw [if_pos hbehind]; rfl⟩
      -- the positions behind this one lie past the end as well
      rcases List.mem_cons.1 hq with rfl | hq
      · omega
      · have := UInt32.lt_iff_toNat_lt.1 (hp q hq)
        omega
    · have hne : ∀ q ∈ ps, p ≠ q := fun q hq heq => UInt32.lt_irrefl _ (heq ▸ hp q hq)
      rw [if_neg hbehind, claimsOverflow_cons_iff (by omega) hne]
      by_cases htaken : start + p.toUInt64 ∈ r.blocks
      · refine .inr ⟨fun hover => hover.1 htaken, .error (.blockTaken (start + p.toUInt64)), 0, ?_,
          by simp, p, rfl, htaken, rfl⟩
        simp only [claimBlock, if_pos htaken]
        rfl
      · simp only [claimBlock, if_neg htaken]
        refine (ih { r with blocks := (start + p.toUInt64) :: r.blocks } hps).imp ?_ ?_
        · exact fun ⟨hover, hout⟩ => ⟨⟨htaken, hover⟩, hout⟩
        · rintro ⟨hover, result, n, hout, hfree, hresult⟩
          refine ⟨fun hcons => hover hcons.2, result, n + 1, ?_, ?_, ?_⟩
          · rw [List.take_succ_cons, startsAt, List.map_cons, List.reverse_cons, List.append_assoc]
            exact hout
          · rw [List.take_succ_cons]
            refine List.forall_mem_cons.2 ⟨⟨by omega, htaken⟩, fun q hq => ?_⟩
            exact ⟨(hfree q hq).1, fun hmem => (hfree q hq).2 (.tail _ hmem)⟩
          · cases result with
            | ok _ => exact Nat.succ_le_succ hresult
            | error e =>
              obtain ⟨q, hq, hmem, rfl⟩ := hresult
              refine ⟨q, hq, ?_, rfl⟩
              -- the start that was taken is not the one that was just claimed
              rcases List.mem_cons.1 hmem with hsame | hmem
              · exact absurd (Address.add_offset_inj hsame).symm (hne q (List.mem_of_getElem? hq))
              · exact hmem

section Claimed

variable {r r' : Replay} {start : Address} {positions : List Offset}

/-- If claiming is refused, a start was taken, and the free ones before it are claimed. -/
theorem of_claimBlocks_eq_error (h : positions.Pairwise (· < ·)) {e : ReplayError}
    (hclaim : (r.claimBlocks start positions).outcome = .ok (.error e, r')) :
    ∃ p n, positions[n]? = some p ∧ start + p.toUInt64 ∈ r.blocks ∧
      (∀ q ∈ positions.take n, start.toNat + q.toNat < UInt64.size ∧
        start + q.toUInt64 ∉ r.blocks) ∧
      e = .blockTaken (start + p.toUInt64) ∧
      r' = { r with blocks := (startsAt start (positions.take n)).reverse ++ r.blocks } := by
  rcases outcome_claimBlocks r start h with ⟨-, hfault⟩ | ⟨-, result, n, hout, hfree, hresult⟩
  · rw [hfault] at hclaim
    cases hclaim
  · obtain ⟨rfl, rfl⟩ := Prod.mk.inj (Except.ok.inj (hout.symm.trans hclaim))
    obtain ⟨p, hp, htaken, rfl⟩ := hresult
    exact ⟨p, n, hp, htaken, hfree, rfl, rfl⟩

/-- If it is not refused, all starts were free, and all are claimed. -/
theorem of_claimBlocks_eq_ok (h : positions.Pairwise (· < ·))
    (hclaim : (r.claimBlocks start positions).outcome = .ok (.ok (), r')) :
    (∀ p ∈ positions, start.toNat + p.toNat < UInt64.size ∧ start + p.toUInt64 ∉ r.blocks) ∧
      r' = { r with blocks := (startsAt start positions).reverse ++ r.blocks } := by
  rcases outcome_claimBlocks r start h with ⟨-, hfault⟩ | ⟨-, result, n, hout, hfree, hresult⟩
  · rw [hfault] at hclaim
    cases hclaim
  · obtain ⟨rfl, rfl⟩ := Prod.mk.inj (Except.ok.inj (hout.symm.trans hclaim))
    rw [List.take_of_length_le hresult] at hfree
    exact ⟨hfree, by rw [List.take_of_length_le hresult]⟩

end Claimed

end Replay

end TraceAtlas
