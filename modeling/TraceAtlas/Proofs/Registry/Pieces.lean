import Mathlib.Data.Finset.Card
import TraceAtlas.Registry

/-! # Pieces of code

Positions cut code into pieces, each from a position up to the next one. Positions that do not go
back leave one piece for each of them within the code, however often it is repeated, and an offset
lies in the piece of the last position that is not behind it, unless that piece was cut short.

## Main definitions
* `Registry.Cuts` : positions that cut code of some length.
* `Registry.lastAt?` : the last position that is not behind an offset.

## Main statements
* `Registry.mem_pieces_iff` : the pieces, by the numbers of their positions.
* `Registry.pairwise_pieces` : pieces go forward.
* `Registry.Cuts.length_pieces` : how many there are.
* `Registry.Cuts.piece_of_lastAt?` : the piece that an offset lies in.
-/

namespace TraceAtlas

/-! ## (1) Positions as addresses -/

namespace Address

/-- Where a position does not lie behind the end of the address space, it is counted on. -/
theorem toNat_add_offset {start : Address} {position : Offset}
    (h : start.toNat + position.toNat < UInt64.size) :
    (start + position.toUInt64).toNat = start.toNat + position.toNat := by
  rw [UInt64.toNat_add, UInt32.toNat_toUInt64]
  exact Nat.mod_eq_of_lt h

/-- Two positions of one code are at different addresses. -/
theorem add_offset_inj {start : Address} {p q : Offset}
    (h : start + p.toUInt64 = start + q.toUInt64) : p = q :=
  UInt32.toUInt64_inj.1 ((UInt64.add_right_inj start).1 h)

end Address

namespace Registry

variable {length : Address} {position : Offset} {positions : List Offset} {depth : UInt32}
  {depths : List UInt32} {piece : Piece} {offset : Nat}

/-! ## (2) The pieces -/

/-- Where a piece in front of some positions stops: at the first of them, or at the end. -/
def stopBefore (length : Address) (positions : List Offset) : Nat :=
  (positions.head?.map UInt32.toNat).getD length.toNat

/-- What is cut to the longest length that a block can have has a length that a block can have. -/
theorem toNat_cut (n : Nat) :
    (UInt32.ofNat (min n (UInt32.size - 1))).toNat = min n (UInt32.size - 1) :=
  UInt32.toNat_ofNat_of_lt' (Nat.lt_of_le_of_lt (Nat.min_le_right _ _) (by decide))

/-- Behind a first position lie the pieces of the other ones, and a piece of its own unless the next
position is at the same offset. -/
theorem mem_pieces_cons_iff : piece ∈ pieces length (position :: positions) (depth :: depths) ↔
    (position.toNat < stopBefore length positions ∧ piece = ⟨position, UInt32.ofNat
      (min (stopBefore length positions - position.toNat) (UInt32.size - 1)), depth⟩) ∨
        piece ∈ pieces length positions depths := by
  have hstop : ((positions.head?.map UInt32.toUInt64).getD length).toNat =
      stopBefore length positions := by
    cases positions <;> rfl
  rw [pieces]
  split
  · rename_i hle
    rw [UInt64.le_iff_toNat_le, hstop, UInt32.toNat_toUInt64] at hle
    simp [Nat.not_lt.2 hle]
  · rename_i hlt
    rw [UInt64.le_iff_toNat_le, hstop, UInt32.toNat_toUInt64] at hlt
    simp [Nat.not_le.1 hlt, hstop]

/-- The pieces of code lie between a position and the next one, or the end. -/
theorem mem_pieces_iff : piece ∈ pieces length positions depths ↔ ∃ i position depth,
    positions[i]? = some position ∧ depths[i]? = some depth ∧
      let next := (positions[i + 1]?.map UInt32.toNat).getD length.toNat
      position.toNat < next ∧ piece =
        ⟨position, UInt32.ofNat (min (next - position.toNat) (UInt32.size - 1)), depth⟩ := by
  induction positions generalizing depths with
  | nil => simp [pieces]
  | cons position positions ih =>
    cases depths with
    | nil => simp [pieces]
    | cons depth depths =>
      have hfirst : stopBefore length positions =
          (positions[0]?.map UInt32.toNat).getD length.toNat := by
        cases positions <;> rfl
      rw [mem_pieces_cons_iff, hfirst, ← Nat.or_exists_add_one]
      simp only [List.getElem?_cons_zero, List.getElem?_cons_succ, ← ih]
      exact or_congr_left (by simp)

/-- A piece is at one of the positions. -/
theorem position_mem_of_mem_pieces (h : piece ∈ pieces length positions depths) :
    piece.position ∈ positions := by
  obtain ⟨i, position, depth, hposition, -, -, rfl⟩ := mem_pieces_iff.1 h
  exact List.mem_of_getElem? hposition

/-- Positions that do not go back leave pieces whose positions go forward. -/
theorem pairwise_pieces (h : positions.Pairwise (· ≤ ·)) :
    (pieces length positions depths).Pairwise fun p q => p.position < q.position := by
  fun_induction pieces length positions depths with
  | case1 position positions depth depths stop hle ih => exact ih (List.pairwise_cons.1 h).2
  | case2 position positions depth depths stop hlt size ih =>
    obtain ⟨-, hrest⟩ := List.pairwise_cons.1 h
    refine List.pairwise_cons.2 ⟨fun q hq => ?_, ih hrest⟩
    have hq := position_mem_of_mem_pieces hq
    -- the next position is ahead, and no later one goes back behind it
    cases positions with
    | nil => cases hq
    | cons next later =>
      have hnext : position < next := UInt32.toUInt64_lt.1 (UInt64.not_le.1 hlt)
      rcases List.mem_cons.1 hq with heq | hq
      · exact heq ▸ hnext
      · exact UInt32.lt_of_lt_of_le hnext ((List.pairwise_cons.1 hrest).1 _ hq)
  | case3 => exact .nil

/-! ## (3) Positions that cut code -/

/-- Positions cut code of some length: there is a depth beside each of them, none is behind the next
one, and none is behind the end of the code. -/
structure Cuts (length : Address) (positions : List Offset) (depths : List UInt32) : Prop where
  paired : positions.length = depths.length
  ascending : positions.Pairwise (· ≤ ·)
  within : ∀ p ∈ positions, p.toUInt64 ≤ length

namespace Cuts

/-- Without the first position the others still cut their code. -/
theorem of_cons (h : Cuts length (position :: positions) (depth :: depths)) :
    Cuts length positions depths where
  paired := Nat.succ.inj h.paired
  ascending := (List.pairwise_cons.1 h.ascending).2
  within p hp := h.within p (by simp [hp])

/-- The first piece ends within the code. -/
theorem stopBefore_le (h : Cuts length positions depths) :
    stopBefore length positions ≤ length.toNat := by
  cases positions with
  | nil => exact Nat.le_refl _
  | cons next later =>
    have := UInt64.le_iff_toNat_le.1 (h.within next (by simp))
    rwa [UInt32.toNat_toUInt64] at this

/-- Every piece lies within the code. -/
theorem piece_within (h : Cuts length positions depths)
    (hpiece : piece ∈ pieces length positions depths) :
    piece.position.toNat < length.toNat ∧
      piece.position.toNat + piece.size.toNat ≤ length.toNat := by
  induction positions generalizing depths with
  | nil => simp [pieces] at hpiece
  | cons position positions ih =>
    cases depths with
    | nil => cases h.paired
    | cons depth depths =>
      rcases mem_pieces_cons_iff.1 hpiece with ⟨hlt, rfl⟩ | hpiece
      · have hstop := h.of_cons.stopBefore_le
        simp only [toNat_cut]
        omega
      · exact ih h.of_cons hpiece

/-- A piece starts at every position within the code; where positions are at the same offset, the
last of them is the one. -/
theorem exists_piece (h : Cuts length positions depths) (hposition : position ∈ positions)
    (hlt : position.toNat < length.toNat) :
    ∃ piece ∈ pieces length positions depths, piece.position = position := by
  induction positions generalizing depths with
  | nil => cases hposition
  | cons first positions ih =>
    cases depths with
    | nil => cases h.paired
    | cons depth depths =>
      -- a piece that there is without the first position is there with it
      have hkept (hposition : position ∈ positions) :
          ∃ piece ∈ pieces length (first :: positions) (depth :: depths),
            piece.position = position := by
        obtain ⟨piece, hpiece, heq⟩ := ih h.of_cons hposition
        exact ⟨piece, mem_pieces_cons_iff.2 (.inr hpiece), heq⟩
      rcases List.mem_cons.1 hposition with rfl | hposition
      · by_cases hstop : position.toNat < stopBefore length positions
        · exact ⟨_, mem_pieces_cons_iff.2 (.inl ⟨hstop, rfl⟩), rfl⟩
        · cases positions with
          | nil => exact absurd hlt hstop
          | cons next later =>
            have hnext : next ≤ position := UInt32.le_iff_toNat_le.2 (Nat.not_lt.1 hstop)
            have hahead := (List.pairwise_cons.1 h.ascending).1 next (by simp)
            exact hkept (by simp [UInt32.le_antisymm hahead hnext])
      · exact hkept hposition

/-- There are as many pieces as there are offsets within the code with a position. -/
theorem length_pieces (h : Cuts length positions depths) :
    (pieces length positions depths).length =
      (positions.filter (·.toUInt64 < length)).toFinset.card := by
  have hnodup : ((pieces length positions depths).map (·.position)).Nodup :=
    List.pairwise_map.2 ((pairwise_pieces h.ascending).imp UInt32.ne_of_lt)
  rw [← List.length_map (·.position), ← List.toFinset_card_of_nodup hnodup]
  congr 1
  ext position
  simp only [List.mem_toFinset, List.mem_map, List.mem_filter, decide_eq_true_eq,
    UInt64.lt_iff_toNat_lt, UInt32.toNat_toUInt64]
  constructor
  · rintro ⟨piece, hpiece, rfl⟩
    exact ⟨position_mem_of_mem_pieces hpiece, (h.piece_within hpiece).1⟩
  · exact fun ⟨hposition, hlt⟩ => h.exists_piece hposition hlt

end Cuts

/-! ## (4) The piece of an offset -/

/-- The last position that is not behind an offset, and the depth beside it. -/
def lastAt? (positions : List Offset) (depths : List UInt32) (offset : Nat) :
    Option (Offset × UInt32) :=
  ((positions.zip depths).filter (·.1.toNat ≤ offset)).getLast?

/-- The last position up to an offset is the first one or one behind it, if the first one is not
above the offset. -/
theorem lastAt?_cons : lastAt? (position :: positions) (depth :: depths) offset =
    if position.toNat ≤ offset then some ((lastAt? positions depths offset).getD (position, depth))
    else lastAt? positions depths offset := by
  rw [lastAt?, List.zip_cons_cons, List.filter_cons]
  simp only [decide_eq_true_eq]
  split
  · rw [List.getLast?_cons]
    rfl
  · rfl

/-- If there is none, the offset is below all positions. -/
theorem lt_of_lastAt?_eq_none (hpairs : positions.length = depths.length)
    (h : lastAt? positions depths offset = none) : ∀ p ∈ positions, offset < p.toNat := by
  rw [lastAt?, List.getLast?_eq_none_iff, List.filter_eq_nil_iff] at h
  intro p hp
  rw [← List.map_fst_zip (Nat.le_of_eq hpairs)] at hp
  obtain ⟨pair, hpair, rfl⟩ := List.mem_map.1 hp
  exact Nat.not_le.1 (by simpa using h pair hpair)

/-- **The piece of an offset** within the code: the one of the last position that is not behind the
offset. No other position lies between the two, and the offset is in the piece unless the piece was
cut short before it. -/
theorem Cuts.piece_of_lastAt? (h : Cuts length positions depths) (hoffset : offset < length.toNat)
    (hlast : lastAt? positions depths offset = some (position, depth)) :
    position.toNat ≤ offset ∧ (∀ p ∈ positions, p ≤ position ∨ offset < p.toNat) ∧
      ∃ piece ∈ pieces length positions depths, piece.position = position ∧ piece.depth = depth ∧
        (offset - position.toNat < piece.size.toNat ↔
          offset - position.toNat < UInt32.size - 1) := by
  induction positions generalizing depths with
  | nil => cases hlast
  | cons first positions ih =>
    cases depths with
    | nil => cases h.paired
    | cons d depths =>
      rw [lastAt?_cons] at hlast
      cases hrest : lastAt? positions depths offset with
      | some pair =>
        -- a later position is not behind the offset either, and so it is the last one
        obtain rfl : pair = (position, depth) := by
          rw [hrest] at hlast
          split at hlast <;> exact Option.some.inj hlast
        obtain ⟨hle, hothers, piece, hpiece, hposition, hvalues⟩ := ih h.of_cons hrest
        have hfirst : first ≤ position := (List.pairwise_cons.1 h.ascending).1 position
          (hposition ▸ position_mem_of_mem_pieces hpiece)
        exact ⟨hle, List.forall_mem_cons.2 ⟨.inl hfirst, hothers⟩, piece,
          mem_pieces_cons_iff.2 (.inr hpiece), hposition, hvalues⟩
      | none =>
        -- all later positions are behind the offset, so the first piece stops behind it
        have hbehind := lt_of_lastAt?_eq_none h.of_cons.paired hrest
        rw [hrest] at hlast
        split at hlast
        · rename_i hle
          obtain ⟨rfl, rfl⟩ := Prod.mk.inj (Option.some.inj hlast)
          have hstop : offset < stopBefore length positions := by
            cases positions with
            | nil => exact hoffset
            | cons next later => exact hbehind next (by simp)
          refine ⟨hle, List.forall_mem_cons.2 ⟨.inl (UInt32.le_refl _), ?_⟩, _,
            mem_pieces_cons_iff.2 (.inl ⟨Nat.lt_of_le_of_lt hle hstop, rfl⟩), rfl, rfl, ?_⟩
          · exact fun p hp => .inr (hbehind p hp)
          · rw [toNat_cut]
            omega
        · cases hlast

end Registry

end TraceAtlas
