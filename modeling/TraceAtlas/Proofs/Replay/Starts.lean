import TraceAtlas.Proofs.Registry.Depths
import TraceAtlas.Proofs.Registry.Mutations
import TraceAtlas.Proofs.Replay.Claims

/-! # Starts that are claimed and starts that are added

Code is cut into pieces twice: by a replay that claims their starts, with a length that stops at
zero, and by the registry that adds their blocks, with a length that goes around the address space.
For code that does not end before it starts, and positions that lie in it and do not go back, both
come to the same starts, each of them once and in ascending order. A replay whose claims cover what
is live can therefore not add a block where one starts already.

## Main definitions
* `Traced.addedStarts` : the starts at which blocks are added in the course of a call.
* `Traced.AddsAt` : a call adds blocks at some starts in order, as far as it gets.
* `Registry.pieceStarts` : the starts of the pieces of code.
* `Replay.Claims` : what comes of claiming some starts.
* `Replay.ClaimsThenAdds` : a call claims some starts and then adds blocks at them.
* `Replay.StartsAgree` : code is cut at some starts in both ways.

## Main statements
* `Registry.addsAt_registerDepths` : the registry adds blocks where pieces start.
* `Registry.Cuts.fault_registerDepths_iff` : where no block is in the way, only a set gate is.
* `Replay.claimsThenAdds_apply` : a replay claims the same starts first.
* `Replay.starts_claimed_and_added` : the two together.
-/

namespace TraceAtlas

/-! ## (1) What notices tell of added blocks -/

namespace Notice

/-- The start of the block that is about to be added. -/
def blockStart? : Notice → Option Address
  | addingBlock start _ _ => some start
  | _ => none

/-- A stretch that is idle tells of no block. -/
theorem Idle.filterMap_blockStart? {notices : List Notice} (h : Idle notices) :
    notices.filterMap blockStart? = [] := by
  rw [List.filterMap_eq_nil_iff]
  intro n hn
  have hopens := List.countP_eq_zero.1 h.1 n hn
  cases n with
  | addingBlock => exact absurd rfl hopens
  | _ => rfl

end Notice

namespace Traced

variable {α β : Type}

/-- The starts at which blocks are added in the course of a call, in order. The last of them may be
one that is not taken. -/
def addedStarts (x : Traced α) : List Address := x.notices.filterMap Notice.blockStart?

/-- A call and what follows it add blocks one after the other. -/
theorem addedStarts_bind_of_ok {x : Traced α} {a : α} (h : x.outcome = .ok a) (f : α → Traced β) :
    (x >>= f).addedStarts = x.addedStarts ++ (f a).addedStarts := by
  rw [bind_def, andThen, h]
  exact List.filterMap_append

/-- Nothing follows a fault. -/
theorem addedStarts_bind_of_error {x : Traced α} {e : Fault} (h : x.outcome = .error e)
    (f : α → Traced β) : (x >>= f).addedStarts = x.addedStarts := by
  rw [bind_def, andThen, h]
  rfl

/-- A notice may tell of one block itself. -/
theorem addedStarts_note_bind (n : Notice) (f : Unit → Traced β) :
    (note n >>= f).addedStarts = n.blockStart?.toList ++ (f ()).addedStarts := by
  cases n <;> rfl

/-- What adds no block may follow unnoticed. -/
theorem addedStarts_bind_of_forall {x : Traced α} {f : α → Traced β}
    (hf : ∀ a, (f a).addedStarts = []) : (x >>= f).addedStarts = x.addedStarts := by
  cases h : x.outcome with
  | error e => exact addedStarts_bind_of_error h f
  | ok a => rw [addedStarts_bind_of_ok h, hf, List.append_nil]

/-- A call adds blocks at some starts, one after the other, as far as it gets. -/
structure AddsAt (x : Traced (Except OutOfMemory Unit × α)) (starts : List Address) : Prop where
  isPrefix : x.addedStarts <+: starts
  eq_of_ok {a : α} : x.outcome = .ok (.ok (), a) → x.addedStarts = starts

namespace AddsAt

variable {starts : List Address}

/-- A call that ends in a fault has only begun to add its blocks. -/
theorem of_error {x : Traced (Except OutOfMemory Unit × α)} {e : Fault} (h : x.outcome = .error e)
    (hstarts : x.addedStarts <+: starts) : x.AddsAt starts := by
  refine ⟨hstarts, fun hout => ?_⟩
  rw [h] at hout
  cases hout

/-- A notice of something else changes nothing about the blocks. -/
theorem note_bind {n : Notice} {f : Unit → Traced (Except OutOfMemory Unit × α)}
    (h : (f ()).AddsAt starts) (hn : n.blockStart? = none) : (note n >>= f).AddsAt starts := by
  have hsame : (note n >>= f).addedStarts = (f ()).addedStarts := by
    rw [addedStarts_note_bind, hn]
    rfl
  refine ⟨hsame ▸ h.isPrefix, fun hout => ?_⟩
  rw [hsame]
  exact h.eq_of_ok hout

/-- What follows adds no block and does not turn a refusal into a success. -/
theorem bind {x : Traced (Except OutOfMemory Unit × α)}
    {f : Except OutOfMemory Unit × α → Traced (Except OutOfMemory Unit × β)} (h : x.AddsAt starts)
    (hf : ∀ p, (f p).addedStarts = [])
    (hok : ∀ p b, (f p).outcome = .ok (.ok (), b) → p.1 = .ok ()) : (x >>= f).AddsAt starts := by
  refine ⟨?_, fun hout => ?_⟩
  · rw [addedStarts_bind_of_forall hf]
    exact h.isPrefix
  · obtain ⟨⟨added, a⟩, hx, hout⟩ := outcome_bind_eq_ok.1 hout
    obtain rfl : added = .ok () := hok (added, a) _ hout
    rw [addedStarts_bind_of_forall hf]
    exact h.eq_of_ok hx

end AddsAt

end Traced

open Notice

/-- A mutation is idle if its body is. -/
theorem Gate.idle_mutate {α : Type} (g : Gate) {body : Traced α} (h : Idle body.notices) :
    Idle (g.mutate body).notices := by
  have hset : Idle g.setInvalid.notices := by
    unfold setInvalid
    split <;> exact idle_nil
  refine hset.bind fun g' => h.bind fun a => ?_
  have hclear : Idle g'.clearInvalid.notices := by
    unfold clearInvalid
    split <;> exact idle_nil
  exact hclear.bind fun _ => idle_nil

namespace DepthBlocks

variable (m : DepthBlocks) (gate : Gate) (start : Address)

/-- Adding a block is nothing but that, be it taken or not. -/
theorem addedStarts_add (size depth : UInt32) :
    (m.add gate start size depth).addedStarts = [start] := by
  rw [add, Traced.addedStarts_note_bind]
  refine congrArg (start :: ·) (Idle.filterMap_blockStart? ?_)
  refine (gate.idle_mutate (m.index.idle_insert _ _)).bind ?_
  rintro ⟨⟨added, index⟩, gate'⟩
  cases added with
  | error e => exact idle_nil
  | ok _ => exact (index.idle_collect gate').bind fun _ => idle_nil

/-- Clearing a range adds no block. -/
theorem addedStarts_clearRange (size : Address) :
    (m.clearRange gate start size).addedStarts = [] := by
  unfold clearRange
  split
  · rfl
  · rw [Traced.addedStarts_note_bind]
    refine Idle.filterMap_blockStart? ((gate.idle_mutate idle_nil).bind ?_)
    exact fun ⟨⟨_, index⟩, gate'⟩ => (index.idle_collect gate').bind fun _ => idle_nil

end DepthBlocks

/-! ## (2) Where the registry adds blocks -/

namespace Registry

variable {r : Registry}

/-- Registering one block adds it. -/
theorem addedStarts_addBlock (r : Registry) (start : Address) (size depth : UInt32) :
    (r.addBlock start size depth).addedStarts = [start] :=
  (Traced.addedStarts_bind_of_forall fun _ => rfl).trans
    (r.blocks.addedStarts_add r.gate start size depth)

/-- Clearing blocks through the registry adds none. -/
theorem addedStarts_clearBlocks (r : Registry) (start size : Address) :
    (r.clearBlocks start size).addedStarts = [] :=
  (Traced.addedStarts_bind_of_forall fun _ => rfl).trans
    (r.blocks.addedStarts_clearRange r.gate start size)

/-- Pieces are added where they start. -/
theorem addsAt_addPieces (r : Registry) (start : Address) (ps : List Piece) :
    (r.addPieces start ps).AddsAt (ps.map fun piece => start + piece.position.toUInt64) := by
  -- a block is set out on before it is known whether it is taken
  induction ps generalizing r with
  | nil => exact ⟨List.prefix_refl _, fun _ => rfl⟩
  | cons piece rest ih =>
    have hfirst := r.addedStarts_addBlock (start + piece.position.toUInt64) piece.size piece.depth
    rw [addPieces, List.map_cons]
    split
    · exact .of_error rfl List.nil_prefix
    · generalize r.addBlock (start + piece.position.toUInt64) piece.size piece.depth = x at hfirst ⊢
      cases hadd : x.outcome with
      | error e =>
        refine .of_error (Traced.outcome_bind_of_error hadd _) ?_
        rw [Traced.addedStarts_bind_of_error hadd, hfirst]
        exact List.prefix_append [_] _
      | ok p =>
        obtain ⟨added, r₁⟩ := p
        -- behind the first block come those of the other pieces, if it was taken
        rw [← List.singleton_append, ← hfirst]
        cases added with
        | error e =>
          constructor
          · rw [Traced.addedStarts_bind_of_ok hadd]
            exact (List.prefix_append_right_inj _).2 List.nil_prefix
          · rw [Traced.outcome_bind_of_ok hadd]
            intro a hout
            cases hout
        | ok _ =>
          constructor
          · rw [Traced.addedStarts_bind_of_ok hadd]
            exact (List.prefix_append_right_inj _).2 (ih r₁).isPrefix
          · rw [Traced.outcome_bind_of_ok hadd, Traced.addedStarts_bind_of_ok hadd]
            exact fun hrest => congrArg _ ((ih r₁).eq_of_ok hrest)

variable {start stop : Address} {positions : List Offset} {depths : List UInt32}

/-- The starts of the pieces of the code from `start` up to `stop`. -/
def pieceStarts (start stop : Address) (positions : List Offset) (depths : List UInt32) :
    List Address :=
  (pieces (stop - start) positions depths).map fun piece => start + piece.position.toUInt64

/-- The starts of the pieces, each by its position in the code. -/
theorem mem_pieceStarts {a : Address} : a ∈ pieceStarts start stop positions depths ↔
    ∃ piece ∈ pieces (stop - start) positions depths, start + piece.position.toUInt64 = a :=
  List.mem_map

/-- Registering depths adds the blocks of the pieces at their starts, and nothing is added while the
code is cleared because one of them was refused. -/
theorem addsAt_registerDepths (r : Registry) (start stop : Address) (positions : List Offset)
    (depths : List UInt32) : (r.registerDepths start stop positions depths).AddsAt
      (pieceStarts start stop positions depths) := by
  rw [registerDepths]
  split
  · exact .of_error rfl List.nil_prefix
  · refine Traced.AddsAt.note_bind ?_ rfl
    refine (r.addsAt_addPieces start _).bind ?_ ?_
    · rintro ⟨added, r₁⟩
      cases added with
      | ok _ => rfl
      | error e =>
        refine (Traced.addedStarts_note_bind _ _).trans ?_
        exact (Traced.addedStarts_bind_of_forall fun _ => rfl).trans
          (r₁.addedStarts_clearBlocks start (stop - start))
    · rintro ⟨added, r₁⟩ r₂ hout
      cases added with
      | ok _ => rfl
      | error e =>
        rw [Traced.outcome_note_bind] at hout
        obtain ⟨r₃, -, hlast⟩ := Traced.outcome_bind_eq_ok.1 hout
        cases hlast

/-- Behind a set gate the first block is a fault, and there is none only if there are no pieces. -/
theorem fault_registerDepths_of_invalid (hgate : r.gate.Invalid)
    (hpairs : positions.length = depths.length)
    (hfit : ∀ piece ∈ pieces (stop - start) positions depths,
      start.toNat + piece.position.toNat < UInt64.size) (e : Fault) :
    (r.registerDepths start stop positions depths).outcome = .error e ↔
      e = .gateAlreadySet ∧ pieceStarts start stop positions depths ≠ [] := by
  rw [registerDepths, if_neg (by simp [hpairs]), pieceStarts]
  simp only [Traced.outcome_note_bind]
  cases hpieces : pieces (stop - start) positions depths with
  | nil => exact iff_of_false (fun h => by cases h) fun h => h.2 rfl
  | cons piece rest =>
    have hadd : (r.addBlock (start + piece.position.toUInt64) piece.size piece.depth).outcome =
        .error .gateAlreadySet := by
      refine Traced.outcome_bind_of_error ?_ _
      rw [DepthBlocks.add, Traced.outcome_note_bind,
        Traced.outcome_bind_of_error (Gate.outcome_mutate_of_invalid hgate _)]
    have hpieces : (r.addPieces start (piece :: rest)).outcome = .error .gateAlreadySet := by
      rw [addPieces, if_neg (Nat.not_le.2 (hfit piece (by simp [hpieces])))]
      exact Traced.outcome_bind_of_error hadd _
    rw [Traced.outcome_bind_of_error hpieces, Except.error.injEq, eq_comm]
    exact (and_iff_left (List.cons_ne_nil _ _)).symm

/-- Where depths are registered, blocks are live at the starts of the pieces and where they were
before. -/
theorem live_iff_of_registerDepths {r' : Registry}
    (h : (r.registerDepths start stop positions depths).outcome = .ok (.ok (), r')) (a : Address) :
    r'.liveBlocks a ≠ none ↔
      a ∈ pieceStarts start stop positions depths ∨ r.liveBlocks a ≠ none := by
  have hlive (block : Block) := (edited_registerDepths h).blocks.eq_some_iff_of_adds
    (k := a) (v := block) fun e he => by
      obtain ⟨piece, -, rfl⟩ := List.mem_map.1 he
      exact ⟨_, _, rfl⟩
  rw [Option.ne_none_iff_exists', Option.ne_none_iff_exists']
  simp only [hlive, exists_or]
  refine or_congr_left ?_
  constructor
  · rintro ⟨block, hblock⟩
    obtain ⟨piece, hpiece, heq⟩ := List.mem_map.1 hblock
    injection heq with hstart
    exact mem_pieceStarts.2 ⟨piece, hpiece, hstart⟩
  · intro ha
    obtain ⟨piece, hpiece, rfl⟩ := mem_pieceStarts.1 ha
    exact ⟨_, List.mem_map_of_mem hpiece⟩

/-- Positions in code that does not end before it starts cut it. -/
theorem cuts_of_inside (hstop : start ≤ stop) (hpairs : positions.length = depths.length)
    (hascending : Op.Ascending positions)
    (hinside : ∀ p ∈ positions, start.toNat + p.toNat ≤ stop.toNat) :
    Cuts (stop - start) positions depths where
  paired := hpairs
  ascending := hascending
  within p hp := by
    have := hinside p hp
    rw [UInt64.le_iff_toNat_le, UInt32.toNat_toUInt64, UInt64.toNat_sub_of_le _ _ hstop]
    omega

namespace Cuts

/-- Each piece has a start of its own, and they go forward. -/
theorem pairwise_pieceStarts (h : Cuts (stop - start) positions depths) (hstop : start ≤ stop) :
    (pieceStarts start stop positions depths).Pairwise (· < ·) := by
  refine List.pairwise_map.2 ((pairwise_pieces h.ascending).imp_of_mem fun hp hq hlt => ?_)
  rw [UInt64.lt_iff_toNat_lt, h.toNat_start hstop hp, h.toNat_start hstop hq]
  exact Nat.add_lt_add_left (UInt32.lt_iff_toNat_lt.1 hlt) _

/-- Pieces start at the positions in front of the end of the code. -/
theorem mem_pieceStarts_iff (h : Cuts (stop - start) positions depths) (hstop : start ≤ stop)
    (a : Address) : a ∈ pieceStarts start stop positions depths ↔
      ∃ p ∈ positions, start.toNat + p.toNat < stop.toNat ∧ a = start + p.toUInt64 := by
  rw [mem_pieceStarts]
  constructor
  · rintro ⟨piece, hpiece, rfl⟩
    exact ⟨_, position_mem_of_mem_pieces hpiece, h.toNat_start_lt hstop hpiece, rfl⟩
  · rintro ⟨p, hp, hlt, rfl⟩
    obtain ⟨piece, hpiece, rfl⟩ := h.exists_piece hp (by
      rw [UInt64.toNat_sub_of_le _ _ hstop]
      omega)
    exact ⟨piece, hpiece, rfl⟩

/-- Where no block is live at the starts of the pieces, only a set gate stops their registration. -/
theorem fault_registerDepths_iff (h : Cuts (stop - start) positions depths) (hstop : start ≤ stop)
    (hfree : ∀ a ∈ pieceStarts start stop positions depths, r.liveBlocks a = none) (e : Fault) :
    (r.registerDepths start stop positions depths).outcome = .error e ↔
      e = .gateAlreadySet ∧ r.gate.Invalid ∧ pieceStarts start stop positions depths ≠ [] := by
  by_cases hgate : r.gate.Invalid
  · rw [fault_registerDepths_of_invalid hgate h.paired fun piece hpiece =>
      Nat.lt_trans (h.toNat_start_lt hstop hpiece) stop.toNat_lt, and_iff_right hgate]
  · obtain ⟨result, r', hout⟩ := h.exists_outcome_registerDepths hgate hstop fun piece hpiece =>
      hfree _ (mem_pieceStarts.2 ⟨piece, hpiece, rfl⟩)
    rw [hout]
    exact iff_of_false nofun fun hset => hgate hset.2.1

end Cuts

end Registry

/-! ## (3) The two ways of cutting -/

namespace Replay

open Registry (pieceStarts)

/-- Claiming starts leaves no notice. -/
theorem notices_claimBlocks (r : Replay) (start : Address) (positions : List Offset) :
    (r.claimBlocks start positions).notices = [] := by
  induction positions generalizing r with
  | nil => rfl
  | cons position positions ih =>
    rw [claimBlocks]
    split
    · rfl
    · by_cases htaken : start + position.toUInt64 ∈ r.blocks
      · simp only [claimBlock, if_pos htaken]
        rfl
      · simp only [claimBlock, if_neg htaken]
        exact ih _

/-- The starts that are claimed are those of the pieces. -/
theorem startsAt_claimed {start stop : Address} (hstop : start ≤ stop) {positions : List Offset}
    {depths : List UInt32} (hpairs : positions.length = depths.length) :
    startsAt start (claimed (Address.distance start stop) positions) =
      pieceStarts start stop positions depths := by
  have hlength : Address.distance start stop = stop - start := if_pos hstop
  rw [hlength, claimed_eq_map_pieces _ hpairs, startsAt, List.map_map]
  rfl

/-- What comes of claiming starts: the first one that is taken is refused, with those in front of it
claimed, or all of them are claimed. -/
inductive Claims (r : Replay) (starts : List Address) : Except ReplayError Unit → Replay → Prop
  | refused {n : Nat} {a : Address} : starts[n]? = some a → a ∈ r.blocks →
    (∀ b ∈ starts.take n, b ∉ r.blocks) → r.Claims starts (.error (.blockTaken a))
      { r with blocks := (starts.take n).reverse ++ r.blocks }
  | all : (∀ a ∈ starts, a ∉ r.blocks) →
    r.Claims starts (.ok ()) { r with blocks := starts.reverse ++ r.blocks }

/-- Starts that lie in the address space are claimed, or refused, without a fault. -/
theorem claims_of_inside (r : Replay) {start : Address} {positions : List Offset}
    (hpositions : positions.Pairwise (· < ·))
    (hinside : ∀ p ∈ positions, start.toNat + p.toNat < UInt64.size) :
    ∃ result r₁, (r.claimBlocks start positions).outcome = .ok (result, r₁) ∧
      r.Claims (startsAt start positions) result r₁ := by
  rcases outcome_claimBlocks r start hpositions with
    ⟨⟨⟨p, hp, hbehind⟩, -⟩, -⟩ | ⟨-, result, n, hout, hfree, hresult⟩
  · exact absurd (hinside p hp) (Nat.not_lt.2 hbehind)
  -- claiming may be refused in the middle, so only some of the starts are claimed
  have htake : startsAt start (positions.take n) = (startsAt start positions).take n :=
    List.map_take
  have hstarts : ∀ a ∈ (startsAt start positions).take n, a ∉ r.blocks := by
    rw [← htake]
    intro a ha
    obtain ⟨p, hp, rfl⟩ := mem_startsAt.1 ha
    exact (hfree p hp).2
  rw [htake] at hout
  refine ⟨_, _, hout, ?_⟩
  cases result with
  | ok _ =>
    have hall : (startsAt start positions).take n = startsAt start positions := by
      rw [← htake, List.take_of_length_le hresult]
    rw [hall] at hstarts ⊢
    exact .all hstarts
  | error e =>
    obtain ⟨p, hp, htaken, rfl⟩ := hresult
    refine .refused ?_ htaken hstarts
    rw [startsAt, List.getElem?_map, hp]
    rfl

variable {start stop : Address} {positions : List Offset} {depths : List UInt32}

/-- Depths whose starts are not all free are refused before a block is added. -/
theorem apply_of_refused {r r₁ : Replay} {e : ReplayError} (depths : List UInt32)
    (hclaim : (r.claimBlocks start (claimed (Address.distance start stop) positions)).outcome =
      .ok (.error e, r₁)) :
    (r.apply (.frameDepths start stop positions depths)).outcome = .ok (.error e, r₁) ∧
      (r.apply (.frameDepths start stop positions depths)).addedStarts = [] := by
  constructor
  · simp only [apply, Traced.outcome_note_bind, Traced.outcome_bind_of_ok hclaim]
    rfl
  · simp only [apply, Traced.addedStarts_note_bind, Traced.addedStarts_bind_of_ok hclaim]
    simp only [Traced.addedStarts, notices_claimBlocks]
    rfl

/-- Depths whose starts are all claimed are registered. -/
theorem apply_of_claimed {r r₁ : Replay} (depths : List UInt32)
    (hclaim : (r.claimBlocks start (claimed (Address.distance start stop) positions)).outcome =
      .ok (.ok (), r₁)) :
    (r.apply (.frameDepths start stop positions depths)).outcome =
        (r₁.registry.registerDepths start stop positions depths).outcome.map (fun p =>
          (p.1.mapError .outOfMemory, { r₁ with registry := p.2 })) ∧
      (r.apply (.frameDepths start stop positions depths)).addedStarts =
        (r₁.registry.registerDepths start stop positions depths).addedStarts := by
  constructor
  · simp only [apply, Traced.outcome_note_bind, Traced.outcome_bind_of_ok hclaim]
    cases h : (r₁.registry.registerDepths start stop positions depths).outcome with
    | error e => exact Traced.outcome_bind_of_error h _
    | ok p => exact Traced.outcome_bind_of_ok h _
  · simp only [apply, Traced.addedStarts_note_bind, Traced.addedStarts_bind_of_ok hclaim]
    rw [Traced.addedStarts_bind_of_forall fun _ => rfl, Traced.addedStarts, notices_claimBlocks]
    rfl

/-- A call of a replay claims some starts and then adds blocks at them. -/
structure ClaimsThenAdds (r : Replay) (call : Traced (Except ReplayError Unit × Replay))
    (starts : List Address) : Prop where
  /-- If one of them is taken, those in front of it stay claimed, and nothing is added. -/
  refused {r' : Replay} {a : Address} : call.outcome = .ok (.error (.blockTaken a), r') →
    call.addedStarts = [] ∧ ∃ n, starts[n]? = some a ∧ a ∈ r.blocks ∧
      (∀ b ∈ starts.take n, b ∉ r.blocks) ∧ r'.blocks = (starts.take n).reverse ++ r.blocks
  /-- If not, all of them are claimed, and blocks are added at them, be it not at all of them. -/
  claimed {r' : Replay} {result : Except ReplayError Unit} : call.outcome = .ok (result, r') →
    (∀ a, result ≠ .error (.blockTaken a)) →
    (∀ a ∈ starts, a ∉ r.blocks) ∧ r'.blocks = starts.reverse ++ r.blocks ∧
      call.addedStarts <+: starts ∧ (result = .ok () → call.addedStarts = starts)
  /-- Where all live blocks are claimed, no block is added where one is live: nothing but a set gate
  is in the way, and only if there is a block to add. -/
  fault_iff : (∀ a, r.registry.liveBlocks a ≠ none → a ∈ r.blocks) → ∀ e,
    call.outcome = .error e ↔
      e = .gateAlreadySet ∧ r.registry.gate.Invalid ∧ starts ≠ [] ∧ ∀ a ∈ starts, a ∉ r.blocks

/-- A replay claims the starts of the pieces, which all lie in the code. -/
theorem claims_pieceStarts (r : Replay) (hstop : start ≤ stop)
    (hcuts : Registry.Cuts (stop - start) positions depths) : ∃ result r₁,
      (r.claimBlocks start (claimed (Address.distance start stop) positions)).outcome =
        .ok (result, r₁) ∧ r.Claims (pieceStarts start stop positions depths) result r₁ := by
  have hinside : ∀ p ∈ claimed (Address.distance start stop) positions,
      start.toNat + p.toNat < UInt64.size := by
    intro p hp
    have hwithin := hcuts.within p ((claimed_sublist _ positions).subset hp)
    rw [UInt64.le_iff_toNat_le, UInt64.toNat_sub_of_le _ _ hstop, UInt32.toNat_toUInt64] at hwithin
    have := UInt64.le_iff_toNat_le.1 hstop
    exact Nat.lt_of_le_of_lt (by omega) stop.toNat_lt
  rw [← startsAt_claimed hstop hcuts.paired]
  exact r.claims_of_inside (pairwise_claimed _ hcuts.ascending) hinside

/-- **A replay claims what the registry adds.** -/
theorem claimsThenAdds_apply (r : Replay) (hstop : start ≤ stop)
    (hcuts : Registry.Cuts (stop - start) positions depths) :
    r.ClaimsThenAdds (r.apply (.frameDepths start stop positions depths))
      (pieceStarts start stop positions depths) := by
  obtain ⟨result, r₁, hclaim, hclaims⟩ := r.claims_pieceStarts hstop hcuts
  cases hclaims with
  | @refused n a hn htaken hfree =>
    -- a start was taken, and the registry was not asked
    obtain ⟨hout, hnothing⟩ := apply_of_refused depths hclaim
    refine ⟨fun {r' b} hb => ?_, fun {r' result} hresult hother => ?_, fun hlive e => ?_⟩
    · obtain ⟨hsame, rfl⟩ := Prod.mk.inj (Except.ok.inj (hout.symm.trans hb))
      obtain ⟨⟩ := hsame
      exact ⟨hnothing, n, hn, htaken, hfree, rfl⟩
    · obtain ⟨rfl, -⟩ := Prod.mk.inj (Except.ok.inj (hout.symm.trans hresult))
      exact absurd rfl (hother a)
    · rw [hout]
      exact iff_of_false nofun fun h => h.2.2.2 a (List.mem_of_getElem? hn) htaken
  | all hfree =>
    obtain ⟨hout, hadded⟩ := apply_of_claimed depths hclaim
    have hadds := r.registry.addsAt_registerDepths start stop positions depths
    refine ⟨fun {r' b} hb => ?_, fun {r' result} hresult hother => ?_, fun hlive e => ?_⟩
    · -- once all are claimed, nothing but memory is refused
      obtain ⟨⟨added, registry⟩, -, heq⟩ := Traced.exists_of_map_eq_ok (hout.symm.trans hb)
      cases added <;> cases heq
    · obtain ⟨⟨added, registry⟩, hregister, heq⟩ :=
        Traced.exists_of_map_eq_ok (hout.symm.trans hresult)
      obtain ⟨hsame, rfl⟩ := Prod.mk.inj heq
      refine ⟨hfree, rfl, hadded ▸ hadds.isPrefix, ?_⟩
      rintro rfl
      cases added with
      | ok _ => exact hadded.trans (hadds.eq_of_ok hregister)
      | error e => cases hsame
    · -- what is live was claimed before, and what is claimed now was not
      have hvacant : ∀ a ∈ pieceStarts start stop positions depths,
          r.registry.liveBlocks a = none := by
        intro a ha
        by_contra h
        exact hfree a ha (hlive a h)
      rw [and_iff_left hfree, ← hcuts.fault_registerDepths_iff hstop hvacant e, hout]
      cases (r.registry.registerDepths start stop positions depths).outcome <;> simp [Except.map]

/-- Code from `start` up to `stop` is cut at some starts, by a replay that claims them as well as by
the registry that adds blocks there. -/
structure StartsAgree (start stop : Address) (positions : List Offset) (depths : List UInt32)
    (starts : List Address) : Prop where
  ascending : starts.Pairwise (· < ·)
  /-- They are the addresses of the positions in front of the end. -/
  mem_iff (a : Address) : a ∈ starts ↔
    ∃ p ∈ positions, start.toNat + p.toNat < stop.toNat ∧ a = start + p.toUInt64
  /-- A registry adds blocks at them, whatever else it holds. -/
  added (r : Registry) : (r.registerDepths start stop positions depths).AddsAt starts
  live_iff {r r' : Registry} :
    (r.registerDepths start stop positions depths).outcome = .ok (.ok (), r') →
    ∀ a, r'.liveBlocks a ≠ none ↔ a ∈ starts ∨ r.liveBlocks a ≠ none
  /-- And so does a replay, which claims them before. -/
  claimed (r : Replay) :
    r.ClaimsThenAdds (r.apply (.frameDepths start stop positions depths)) starts

/-- **Starts that are claimed and starts that are added.** For code that does not end before it
starts, and positions in it that do not go back, the starts that a replay claims are those at which
the registry adds blocks, in the same order and each of them once. So depths whose starts could all
be claimed add no block where one is live, if all live blocks were claimed. -/
theorem starts_claimed_and_added (hstop : start ≤ stop) (hpairs : positions.length = depths.length)
    (hascending : Op.Ascending positions)
    (hinside : ∀ p ∈ positions, start.toNat + p.toNat ≤ stop.toNat) :
    StartsAgree start stop positions depths
      (startsAt start (claimed (Address.distance start stop) positions)) := by
  have hcuts := Registry.cuts_of_inside hstop hpairs hascending hinside
  rw [startsAt_claimed hstop hpairs]
  exact {
    ascending := hcuts.pairwise_pieceStarts hstop
    mem_iff := hcuts.mem_pieceStarts_iff hstop
    added := fun r => r.addsAt_registerDepths start stop positions depths
    live_iff := Registry.live_iff_of_registerDepths
    claimed := fun r => r.claimsThenAdds_apply hstop hcuts }

/-- Code that ends at the highest address, with positions that are repeated and two at its end. -/
theorem starts_at_the_end_claimed_and_added :
    startsAt 0xffffffffffffffbf (claimed (Address.distance 0xffffffffffffffbf 0xffffffffffffffff)
        [0, 0, 16, 64, 64]) = [0xffffffffffffffbf, 0xffffffffffffffcf] ∧
      StartsAgree 0xffffffffffffffbf 0xffffffffffffffff [0, 0, 16, 64, 64] [1, 2, 3, 4, 5]
        [0xffffffffffffffbf, 0xffffffffffffffcf] := by
  have hstarts : startsAt 0xffffffffffffffbf
      (claimed (Address.distance 0xffffffffffffffbf 0xffffffffffffffff) [0, 0, 16, 64, 64]) =
        [0xffffffffffffffbf, 0xffffffffffffffcf] := by decide
  refine ⟨hstarts, ?_⟩
  rw [← hstarts]
  exact starts_claimed_and_added (by decide) rfl (by decide) (by simp)

end Replay

end TraceAtlas
