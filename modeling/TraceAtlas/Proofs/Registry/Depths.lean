import TraceAtlas.Proofs.Lookup
import TraceAtlas.Proofs.Registry.Edits
import TraceAtlas.Proofs.Registry.Pieces

/-! # Registering the depths of code

Positions say which depth the stack has from each of them on, and the registry keeps a block for
each piece of the code. Where the code was vacant before, a lookup afterwards shows at every offset
what the positions say of it, and outside of the code it shows what it showed before. If the blocks
are refused, the code is cleared as a whole, so that nothing is left of the pieces, but nothing is
left either of a block that started in the code between them.

## Main definitions
* `Contents.Vacant` : no entry starts in a range or contains an address of it.
* `Registry.depthStated?` : the depth that positions state at an offset.

## Main statements
* `Registry.depths_of_registerDepths` : what lookups show once depths are registered.
* `Registry.cleared_of_refused` : what is left once depths are refused.
-/

namespace TraceAtlas

/-! ## (1) Ranges that are vacant -/

namespace Address

/-- The addresses from a start up to a stop. -/
theorem inRange_sub_iff {start stop a : Address} (h : start ≤ stop) :
    InRange start (stop - start) a ↔ start ≤ a ∧ a < stop := by
  refine and_congr_right fun _ => ?_
  rw [UInt64.toNat_sub_of_le _ _ h, UInt64.lt_iff_toNat_lt]
  have := UInt64.le_iff_toNat_le.1 h
  omega

/-- An offset that is less than the distance of two addresses leads to one between them. -/
theorem toNat_add_of_lt_sub {start stop offset : Address} (h : start ≤ stop)
    (hoffset : offset < stop - start) : (start + offset).toNat = start.toNat + offset.toNat ∧
      start.toNat + offset.toNat < stop.toNat := by
  have hstop := stop.toNat_lt
  have hle := UInt64.le_iff_toNat_le.1 h
  rw [UInt64.lt_iff_toNat_lt, UInt64.toNat_sub_of_le _ _ h] at hoffset
  rw [UInt64.toNat_add]
  omega

end Address

namespace Contents

variable {α : Type} {m m' : Contents α} {size : α → UInt32} {start stop a k : Address} {v : α}

/-- From `start` up to `stop` no entry starts, and no entry contains an address. -/
def Vacant (m : Contents α) (size : α → UInt32) (start stop : Address) : Prop :=
  ∀ a, start ≤ a → a < stop → m a = none ∧ ∀ k v, ¬m.Covers size a k v

/-- The entry with the greatest start that is not above an address is found if it contains the
address, and no other one is. -/
theorem IsFloor.finds (h : m.IsFloor a (some (k, v))) :
    m.Finds size a (if Address.InRange k (size v).toUInt64 a then some (k, v) else none) := by
  split
  · exact ⟨h, ‹_›⟩
  · intro l w hl
    obtain ⟨rfl, rfl⟩ := h.unique hl
    assumption

/-- Entries that are added to a vacant range and keep to it change no lookup outside of it. -/
theorem Vacant.finds_outside (h : m.Vacant size start stop)
    (hkept : ∀ k v, m k = some v → m' k = some v)
    (hadded : ∀ k v, m' k = some v → m k = some v ∨
      start ≤ k ∧ k < stop ∧ ∀ a, Address.InRange k (size v).toUInt64 a → a < stop)
    (ha : ¬(start ≤ a ∧ a < stop)) {found : Option (Address × α)} (hfound : m'.Finds size a found) :
    m.Finds size a found := by
  cases found with
  | some entry =>
    obtain ⟨k, v⟩ := entry
    obtain ⟨⟨hk, hka, hbehind⟩, hrange⟩ := hfound
    have hlive : m k = some v := by
      -- an entry that was added ends within the range, so it does not contain the address
      rcases hadded k v hk with hold | ⟨hstart, -, hstop⟩
      · exact hold
      · exact absurd ⟨UInt64.le_trans hstart hka, hstop a hrange⟩ ha
    refine ⟨⟨hlive, hka, fun l hkl hla => ?_⟩, hrange⟩
    by_contra hl
    obtain ⟨w, hw⟩ := Option.ne_none_iff_exists'.1 hl
    exact absurd (hkept l w hw) (by rw [hbehind l hkl hla]; exact nofun)
  | none =>
    intro k v hfloor hrange
    obtain ⟨hk, hka, hbehind⟩ := hfloor
    refine hfound k v ⟨hkept k v hk, hka, fun l hkl hla => ?_⟩ hrange
    by_contra hl
    obtain ⟨w, hw⟩ := Option.ne_none_iff_exists'.1 hl
    rcases hadded l w hw with hold | ⟨hstart, hstop, -⟩
    · rw [hbehind l hkl hla] at hold
      cases hold
    · -- an entry that reaches beyond the range would contain an address of it
      have hcovers : m.Covers size a k v := ⟨hk, hrange⟩
      exact (h l hstart hstop).2 k v (hcovers.of_between (UInt64.le_of_lt hkl) hla)

end Contents

/-! ## (2) Registering -/

namespace Registry

variable {r r' : Registry} {start stop : Address} {positions : List Offset} {depths : List UInt32}
  {piece : Piece}

namespace Cuts

/-- A piece of the code from `start` up to `stop` starts within the code. -/
theorem toNat_start_lt (h : Cuts (stop - start) positions depths) (hstop : start ≤ stop)
    (hpiece : piece ∈ pieces (stop - start) positions depths) :
    start.toNat + piece.position.toNat < stop.toNat := by
  have hlt := (h.piece_within hpiece).1
  rw [UInt64.toNat_sub_of_le _ _ hstop] at hlt
  omega

/-- A piece starts at its position, counted from the start of the code. -/
theorem toNat_start (h : Cuts (stop - start) positions depths) (hstop : start ≤ stop)
    (hpiece : piece ∈ pieces (stop - start) positions depths) :
    (start + piece.position.toUInt64).toNat = start.toNat + piece.position.toNat :=
  Address.toNat_add_offset (Nat.lt_trans (h.toNat_start_lt hstop hpiece) stop.toNat_lt)

/-- That is within the code. -/
theorem inRange_start (h : Cuts (stop - start) positions depths) (hstop : start ≤ stop)
    (hpiece : piece ∈ pieces (stop - start) positions depths) :
    Address.InRange start (stop - start) (start + piece.position.toUInt64) := by
  have hlt := h.toNat_start_lt hstop hpiece
  rw [Address.inRange_sub_iff hstop, UInt64.le_iff_toNat_le, UInt64.lt_iff_toNat_lt,
    h.toNat_start hstop hpiece]
  omega

/-- A piece of the code ends within the code. -/
theorem lt_stop_of_inRange (h : Cuts (stop - start) positions depths) (hstop : start ≤ stop)
    (hpiece : piece ∈ pieces (stop - start) positions depths) {a : Address}
    (ha : Address.InRange (start + piece.position.toUInt64) piece.size.toUInt64 a) : a < stop := by
  have hend := (h.piece_within hpiece).2
  have hle := UInt64.le_iff_toNat_le.1 hstop
  obtain ⟨-, ha⟩ := ha
  rw [h.toNat_start hstop hpiece, UInt32.toNat_toUInt64] at ha
  rw [UInt64.toNat_sub_of_le _ _ hstop] at hend
  exact UInt64.lt_iff_toNat_lt.2 (by omega)

/-- Where no block is in the way of the pieces, registering depths comes to an end. -/
theorem exists_outcome_registerDepths (h : Cuts (stop - start) positions depths)
    (hgate : ¬r.gate.Invalid) (hstop : start ≤ stop)
    (hfree : ∀ piece ∈ pieces (stop - start) positions depths,
      r.liveBlocks (start + piece.position.toUInt64) = none) :
    ∃ result r', (r.registerDepths start stop positions depths).outcome = .ok (result, r') := by
  have hfit : ∀ piece ∈ pieces (stop - start) positions depths,
      start.toNat + piece.position.toNat < UInt64.size := fun piece hpiece =>
    Nat.lt_trans (h.toNat_start_lt hstop hpiece) stop.toNat_lt
  have hapart : (pieces (stop - start) positions depths).Pairwise fun p q =>
      start + p.position.toUInt64 ≠ start + q.position.toUInt64 :=
    (pairwise_pieces h.ascending).imp fun hlt heq =>
      UInt32.ne_of_lt hlt (Address.add_offset_inj heq)
  obtain ⟨result, r', hout, -⟩ :=
    (holds_of_clear hgate).registerDepths h.paired hfit hfree hapart
  exact ⟨result, r', hout⟩

end Cuts

/-! ## (3) What is left after a refusal -/

/-- **Depths that are refused**, at whichever piece, leave the gate clear and the regions as they
were, and of the blocks those that start outside of the code. So the blocks are what they were
exactly if none started in the code, be it only between the pieces. -/
theorem cleared_of_refused (hgate : ¬r.gate.Invalid) (hstop : start ≤ stop)
    (hcuts : Cuts (stop - start) positions depths)
    (hfree : ∀ piece ∈ pieces (stop - start) positions depths,
      r.liveBlocks (start + piece.position.toUInt64) = none) :
    ∃ result r', (r.registerDepths start stop positions depths).outcome = .ok (result, r') ∧
      ∀ e, result = .error e → ¬r'.gate.Invalid ∧ r'.liveRegions = r.liveRegions ∧
        r'.liveBlocks = r.liveBlocks.eraseRange start (stop - start) ∧
        (r'.liveBlocks = r.liveBlocks ↔ ∀ a, start ≤ a → a < stop → r.liveBlocks a = none) := by
  obtain ⟨result, r', hout⟩ := hcuts.exists_outcome_registerDepths hgate hstop hfree
  refine ⟨result, r', hout, ?_⟩
  rintro e rfl
  obtain ⟨n, -, hedited⟩ := edited_registerDepths hout
  -- whatever pieces were added start in the range that is cleared
  have hblocks : r'.liveBlocks = r.liveBlocks.eraseRange start (stop - start) := by
    refine hedited.blocks.eq_eraseRange fun e he => ?_
    obtain ⟨piece, hpiece, rfl⟩ := List.mem_map.1 he
    exact ⟨_, _, rfl, hcuts.inRange_start hstop (List.mem_of_mem_take hpiece)⟩
  refine ⟨fun h => hgate (hedited.gate.1 h), hedited.regions.eq_of_nil, hblocks, ?_⟩
  rw [hblocks]
  constructor
  · intro h a hstart hlt
    rw [← h, Contents.eraseRange, if_pos ((Address.inRange_sub_iff hstop).2 ⟨hstart, hlt⟩)]
  · intro h
    refine Contents.eraseRange_of_none fun a ha => ?_
    obtain ⟨hstart, hlt⟩ := (Address.inRange_sub_iff hstop).1 ha
    exact h a hstart hlt

/-- A block in code whose only piece starts behind it: there is no slot for the piece, and with the
refusal the block is lost, though the piece was not in its way. -/
theorem block_lost_with_refusal : ∃ r r',
    ((empty { maxNodes := 1 }).addBlock 0x1000 16 7).outcome = .ok (.ok (), r) ∧
      (r.registerDepths 0x1000 0x1040 [32] [1]).outcome = .ok (.error ⟨80⟩, r') ∧
      r.liveBlocks 0x1000 = some ⟨16, 7⟩ ∧ r'.liveBlocks 0x1000 = none ∧
      r'.liveBlocks ≠ r.liveBlocks := by
  have hadded : ((empty { maxNodes := 1 }).addBlock 0x1000 16 7).outcome.map (·.1) =
      .ok (.ok ()) := by decide +kernel
  have hrefused : ((empty { maxNodes := 1 }).addBlock 0x1000 16 7 >>=
      fun p => p.2.registerDepths 0x1000 0x1040 [32] [1]).outcome.map (·.1) =
        .ok (.error ⟨80⟩) := by decide +kernel
  obtain ⟨⟨_, r⟩, hadd, rfl⟩ := Traced.exists_of_map_eq_ok hadded
  rw [Traced.outcome_bind_of_ok hadd] at hrefused
  have hholds : r.Holds Contents.empty
      (Function.update Contents.empty 0x1000 (some ⟨16, 7⟩)) := by
    obtain ⟨result, r₁, hout, hholds⟩ :=
      @Holds.addBlock _ _ _ 0x1000 (holds_empty { maxNodes := 1 }) rfl 16 7
    obtain ⟨rfl, rfl⟩ := Prod.mk.inj (Except.ok.inj (hadd.symm.trans hout))
    exact hholds
  obtain ⟨result, r', hout, hleft⟩ := @cleared_of_refused r 0x1000 0x1040 [32] [1] hholds.gate
    (by decide) ⟨rfl, by decide, by simp⟩ (by rw [hholds.liveBlocks]; decide +kernel)
  rw [hout] at hrefused
  obtain rfl : result = .error ⟨80⟩ := Except.ok.inj hrefused
  obtain ⟨-, -, hblocks, hsame⟩ := hleft _ rfl
  have hlive : r.liveBlocks 0x1000 = some ⟨16, 7⟩ := by rw [hholds.liveBlocks]; rfl
  have hlost : r'.liveBlocks 0x1000 = none := by
    rw [hblocks, Contents.eraseRange, if_pos (by decide)]
  refine ⟨r, r', hadd, hout, hlive, hlost, fun heq => ?_⟩
  have hnone := hsame.1 heq 0x1000 (by decide) (by decide)
  rw [hlive] at hnone
  cases hnone

/-! ## (4) What lookups show -/

/-- The depth that positions state at an offset: the one beside the last position that is not behind
it. No block is longer than its size can tell, and so nothing is stated further away. -/
def depthStated? (positions : List Offset) (depths : List UInt32) (offset : Nat) : Option UInt32 :=
  ((lastAt? positions depths offset).filter fun last =>
    offset - last.1.toNat < UInt32.size - 1).map (·.2)

/-- Adding pieces makes no edits but additions. -/
theorem adds_addPieces {ps : List Piece} :
    ∀ e ∈ ps.map (addPiece start), ∃ a w, e = .add a w := by
  intro e he
  obtain ⟨piece, -, rfl⟩ := List.mem_map.1 he
  exact ⟨_, _, rfl⟩

/-- The blocks after depths were registered: those of the pieces, and those there were. -/
theorem liveBlocks_of_registerDepths {k : Address} {block : Block}
    (h : (r.registerDepths start stop positions depths).outcome = .ok (.ok (), r')) :
    r'.liveBlocks k = some block ↔
      (∃ piece ∈ pieces (stop - start) positions depths,
        start + piece.position.toUInt64 = k ∧ ⟨piece.size, piece.depth⟩ = block) ∨
      r.liveBlocks k = some block := by
  rw [(edited_registerDepths h).blocks.eq_some_iff_of_adds adds_addPieces, List.mem_map]
  simp only [addPiece, Edit.add.injEq]

/-- In code that was vacant only blocks of pieces start. -/
theorem exists_piece_of_live (hvacant : r.liveBlocks.Vacant Block.size start stop)
    (h : (r.registerDepths start stop positions depths).outcome = .ok (.ok (), r'))
    {k : Address} (hstart : start ≤ k) (hlt : k < stop) (hlive : r'.liveBlocks k ≠ none) :
    ∃ piece ∈ pieces (stop - start) positions depths, start + piece.position.toUInt64 = k := by
  obtain ⟨block, hblock⟩ := Option.ne_none_iff_exists'.1 hlive
  rcases (liveBlocks_of_registerDepths h).1 hblock with ⟨piece, hpiece, hk, -⟩ | hold
  · exact ⟨piece, hpiece, hk⟩
  · rw [(hvacant k hstart hlt).1] at hold
    cases hold

/-- The nearest block from an offset down is the piece of the last position that is not behind it.
-/
theorem isFloor_of_lastAt? (hstop : start ≤ stop) (hcuts : Cuts (stop - start) positions depths)
    (hvacant : r.liveBlocks.Vacant Block.size start stop)
    (h : (r.registerDepths start stop positions depths).outcome = .ok (.ok (), r'))
    {offset : Address} (hoffset : offset < stop - start) {position : Offset} {depth : UInt32}
    (hlast : lastAt? positions depths offset.toNat = some (position, depth)) :
    ∃ k size, r'.liveBlocks.IsFloor (start + offset) (some (k, ⟨size, depth⟩)) ∧
      (Address.InRange k size.toUInt64 (start + offset) ↔
        offset.toNat - position.toNat < UInt32.size - 1) := by
  obtain ⟨haddress, hlt⟩ := Address.toNat_add_of_lt_sub hstop hoffset
  obtain ⟨hle, hothers, piece, hpiece, rfl, rfl, hsize⟩ :=
    hcuts.piece_of_lastAt? (UInt64.lt_iff_toNat_lt.1 hoffset) hlast
  have hstart := hcuts.toNat_start hstop hpiece
  have hbelow : start + piece.position.toUInt64 ≤ start + offset := by
    rw [UInt64.le_iff_toNat_le, hstart, haddress]
    exact Nat.add_le_add_left hle _
  refine ⟨start + piece.position.toUInt64, piece.size,
    ⟨(liveBlocks_of_registerDepths h).2 (.inl ⟨piece, hpiece, rfl, rfl⟩), hbelow, ?_⟩, ?_⟩
  · intro k hk hka
    by_contra hlive
    rw [UInt64.lt_iff_toNat_lt, hstart] at hk
    rw [UInt64.le_iff_toNat_le, haddress] at hka
    obtain ⟨q, hq, rfl⟩ := exists_piece_of_live hvacant h (UInt64.le_iff_toNat_le.2 (by omega))
      (UInt64.lt_iff_toNat_lt.2 (by omega)) hlive
    rw [hcuts.toNat_start hstop hq] at hk hka
    -- it starts in front of the piece or behind the offset
    rcases hothers _ (position_mem_of_mem_pieces hq) with hfront | hbehind
    · have := UInt32.le_iff_toNat_le.1 hfront
      omega
    · omega
  · rw [← hsize, Address.InRange, and_iff_right hbelow, hstart, haddress, UInt32.toNat_toUInt64]
    omega

/-- An offset in the code has the depth that the positions state there. -/
theorem depthAt?_of_registerDepths (hgate : ¬r'.gate.Invalid) (hstop : start ≤ stop)
    (hcuts : Cuts (stop - start) positions depths)
    (hvacant : r.liveBlocks.Vacant Block.size start stop)
    (h : (r.registerDepths start stop positions depths).outcome = .ok (.ok (), r'))
    {offset : Address} (hoffset : offset < stop - start) :
    r'.depthAt? (start + offset) = depthStated? positions depths offset.toNat := by
  obtain ⟨haddress, hlt⟩ := Address.toNat_add_of_lt_sub hstop hoffset
  obtain ⟨found, hfound, hdepth⟩ := finds_depthAt? hgate (start + offset)
  rw [hdepth, depthStated?]
  cases hlast : lastAt? positions depths offset.toNat with
  | none =>
    have hnone : r'.liveBlocks.Finds Block.size (start + offset) none := by
      intro k block ⟨hk, hka, _⟩ hrange
      rcases (liveBlocks_of_registerDepths h).1 hk with ⟨piece, hpiece, rfl, -⟩ | hold
      · -- the piece starts behind the offset
        have hbehind :=
          lt_of_lastAt?_eq_none hcuts.paired hlast _ (position_mem_of_mem_pieces hpiece)
        rw [UInt64.le_iff_toNat_le, hcuts.toNat_start hstop hpiece, haddress] at hka
        omega
      · exact (hvacant (start + offset) (UInt64.le_iff_toNat_le.2 (by omega))
          (UInt64.lt_iff_toNat_lt.2 (by omega))).2 k block ⟨hold, hrange⟩
    rw [hfound.unique hnone]
    rfl
  -- the piece of the last position that is not behind the offset is the nearest block
  | some last =>
    obtain ⟨position, depth⟩ := last
    obtain ⟨k, size, hfloor, hrange⟩ := isFloor_of_lastAt? hstop hcuts hvacant h hoffset hlast
    rw [hfound.unique hfloor.finds]
    by_cases hnear : offset.toNat - position.toNat < UInt32.size - 1
    · rw [if_pos (hrange.2 hnear), Option.filter_some_pos (by exact decide_eq_true hnear)]
      rfl
    · rw [if_neg (hrange.not.2 hnear), Option.filter_some_neg (by exact decide_eq_false hnear)]
      rfl

/-- An address outside of the code has the depth that it had. -/
theorem depthAt?_outside_of_registerDepths (hgate : ¬r.gate.Invalid) (hstop : start ≤ stop)
    (hcuts : Cuts (stop - start) positions depths)
    (hvacant : r.liveBlocks.Vacant Block.size start stop)
    (h : (r.registerDepths start stop positions depths).outcome = .ok (.ok (), r'))
    {a : Address} (ha : ¬(start ≤ a ∧ a < stop)) : r'.depthAt? a = r.depthAt? a := by
  have hgate' : ¬r'.gate.Invalid := fun h' => hgate ((edited_registerDepths h).gate.1 h')
  have hlive {k : Address} {block : Block} := @liveBlocks_of_registerDepths _ _ _ _ _ _ k block h
  obtain ⟨found, hfound, hdepth⟩ := finds_depthAt? hgate a
  obtain ⟨found', hfound', hdepth'⟩ := finds_depthAt? hgate' a
  have hsame : r.liveBlocks.Finds Block.size a found' := by
    refine hvacant.finds_outside (fun k block hk => hlive.2 (.inr hk)) ?_ ha hfound'
    intro k block hk
    rcases hlive.1 hk with ⟨piece, hpiece, rfl, rfl⟩ | hold
    · obtain ⟨hstart, hlt⟩ := (Address.inRange_sub_iff hstop).1 (hcuts.inRange_start hstop hpiece)
      exact .inr ⟨hstart, hlt, fun b hb => hcuts.lt_stop_of_inRange hstop hpiece hb⟩
    · exact .inl hold
  rw [hdepth, hdepth', hfound.unique hsame]

/-- There are as many more blocks as there are offsets in the code with a position. -/
theorem size_of_registerDepths (hcuts : Cuts (stop - start) positions depths)
    (h : (r.registerDepths start stop positions depths).outcome = .ok (.ok (), r')) :
    r'.blocks.size =
      r.blocks.size + (positions.filter (·.toUInt64 < stop - start)).toFinset.card := by
  have hcount := (edited_registerDepths h).blocks.count_of_adds adds_addPieces
  rw [List.length_map, hcuts.length_pieces] at hcount
  rwa [DepthBlocks.size, DepthBlocks.size, Index.size_eq_count, Index.size_eq_count]

/-- **Depths that are registered** in vacant code, with positions that do not go back and do not
leave the code: each offset has the depth beside the last position that is not behind it, as far as
a block reaches, and none in front of the first position. Outside of the code every address has the
depth that it had. There is one more block for each offset within the code with a position. -/
theorem depths_of_registerDepths (hgate : ¬r.gate.Invalid) (hstop : start ≤ stop)
    (hcuts : Cuts (stop - start) positions depths)
    (hvacant : r.liveBlocks.Vacant Block.size start stop) :
    ∃ result r', (r.registerDepths start stop positions depths).outcome = .ok (result, r') ∧
      (result = .ok () →
        (∀ offset < stop - start,
          r'.depthAt? (start + offset) = depthStated? positions depths offset.toNat) ∧
        (∀ a, ¬(start ≤ a ∧ a < stop) → r'.depthAt? a = r.depthAt? a) ∧
        r'.blocks.size =
          r.blocks.size + (positions.filter (·.toUInt64 < stop - start)).toFinset.card) := by
  have hfree : ∀ piece ∈ pieces (stop - start) positions depths,
      r.liveBlocks (start + piece.position.toUInt64) = none := by
    intro piece hpiece
    obtain ⟨hstart, hlt⟩ := (Address.inRange_sub_iff hstop).1 (hcuts.inRange_start hstop hpiece)
    exact (hvacant _ hstart hlt).1
  obtain ⟨result, r', hout⟩ := hcuts.exists_outcome_registerDepths hgate hstop hfree
  refine ⟨result, r', hout, ?_⟩
  rintro rfl
  have hgate' : ¬r'.gate.Invalid := fun h => hgate ((edited_registerDepths hout).gate.1 h)
  exact ⟨fun offset => depthAt?_of_registerDepths hgate' hstop hcuts hvacant hout,
    fun a => depthAt?_outside_of_registerDepths hgate hstop hcuts hvacant hout,
    size_of_registerDepths hcuts hout⟩

/-- Code that is longer than a block can be, with two positions at one offset. Depths are stated
from the first position on, by the later one of those two, and in the last piece as far as its block
reaches. -/
theorem long_code_registered :
    let positions : List Offset := [8, 24, 24, 64]
    let depths : List UInt32 := [1, 2, 3, 4]
    ∃ r, ((empty .standard).registerDepths 0x1000 0x200001000 positions depths).outcome =
        .ok (.ok (), r) ∧
      r.depthAt? (0x1000 + 7) = none ∧ r.depthAt? (0x1000 + 23) = some 1 ∧
      r.depthAt? (0x1000 + 24) = some 3 ∧ r.depthAt? (0x1000 + 0x10000003e) = some 4 ∧
      r.depthAt? (0x1000 + 0x10000003f) = none ∧ r.blocks.size = 3 := by
  intro positions depths
  have hadded : ((empty .standard).registerDepths 0x1000 0x200001000 positions
      depths).outcome.map (·.1) = .ok (.ok ()) := by decide +kernel
  have hholds := holds_empty .standard
  have hvacant : (empty .standard).liveBlocks.Vacant Block.size 0x1000 0x200001000 := by
    intro a _ _
    rw [hholds.liveBlocks]
    exact ⟨rfl, fun k v hk => by cases hk.1⟩
  obtain ⟨result, r, hout, hshown⟩ := depths_of_registerDepths hholds.gate
    (by decide : (0x1000 : Address) ≤ 0x200001000)
    (⟨rfl, by decide, by simp [positions]⟩ : Cuts (0x200001000 - 0x1000) positions depths) hvacant
  rw [hout] at hadded
  obtain rfl : result = .ok () := Except.ok.inj hadded
  obtain ⟨hinside, -, hsize⟩ := hshown rfl
  refine ⟨r, hout, (hinside 7 (by decide)).trans ?_, (hinside 23 (by decide)).trans ?_,
    (hinside 24 (by decide)).trans ?_, (hinside 0x10000003e (by decide)).trans ?_,
    (hinside 0x10000003f (by decide)).trans ?_, hsize.trans ?_⟩
  all_goals decide +kernel

end Registry

end TraceAtlas
