import TraceAtlas.Proofs.Registry

/-! # Looking addresses up

A lookup asks one entry only, the one with the nearest start that is not above the address. Where no
two ranges overlap this is the entry that contains the address, if any does, apart from one case: an
empty entry overlaps nothing, but from its start on it stands in front of the entry that it starts
in. Here lookups are said in terms of what is live, and that case is told exactly.

## Main definitions
* `Contents.Covers`, `Contents.Finds` : an entry contains an address, and what a lookup finds.
* `Contents.Apart` : no two ranges overlap.
* `Contents.EmptyInside` : an empty entry starts within the range of another.
* `Registry.region?` : the region that is found at an address.

## Main statements
* `Registry.finds_region?`, `Registry.finds_depthAt?` : lookups behind a clear gate.
* `Registry.lookups_exact_iff` : lookups among ranges that do not overlap.
-/

namespace TraceAtlas

/-! ## (1) Maps of ranges -/

namespace Contents

variable {α : Type} {m : Contents α} {size : α → UInt32} {a k : Address} {v : α}

/-- An entry contains an address. -/
def Covers (m : Contents α) (size : α → UInt32) (a k : Address) (v : α) : Prop :=
  m k = some v ∧ Address.InRange k (size v).toUInt64 a

/-- What a lookup finds: the entry with the greatest start that is not above the address, if it
contains the address. -/
def Finds (m : Contents α) (size : α → UInt32) (a : Address) : Option (Address × α) → Prop
  | none => ∀ k v, m.IsFloor a (some (k, v)) → ¬Address.InRange k (size v).toUInt64 a
  | some (k, v) => m.IsFloor a (some (k, v)) ∧ Address.InRange k (size v).toUInt64 a

/-- No two ranges overlap: an address is in one of them at most. -/
def Apart (m : Contents α) (size : α → UInt32) : Prop :=
  ∀ ⦃a k l : Address⦄ ⦃v w : α⦄, m.Covers size a k v → m.Covers size a l w → k = l

/-- An empty entry starts behind a start, but not behind an address. -/
def EmptyBetween (m : Contents α) (size : α → UInt32) (k a : Address) : Prop :=
  ∃ l w, k < l ∧ l ≤ a ∧ m l = some w ∧ size w = 0

/-- An empty entry starts within the range of another one. -/
def EmptyInside (m : Contents α) (size : α → UInt32) : Prop :=
  ∃ k v l w, m.Covers size l k v ∧ k ≠ l ∧ m l = some w ∧ size w = 0

/-- There is one greatest entry at most. -/
theorem IsFloor.unique {l : Address} {w : α} (h : m.IsFloor a (some (k, v)))
    (h' : m.IsFloor a (some (l, w))) : k = l ∧ v = w := by
  obtain ⟨hk, hka, hbehind⟩ := h
  obtain ⟨hl, hla, hbehind'⟩ := h'
  have hkl : ¬k < l := by
    intro hlt
    rw [hbehind l hlt hla] at hl
    cases hl
  have hlk : ¬l < k := by
    intro hlt
    rw [hbehind' k hlt hka] at hk
    cases hk
  obtain rfl : k = l := UInt64.le_antisymm (UInt64.not_lt.1 hlk) (UInt64.not_lt.1 hkl)
  exact ⟨rfl, Option.some.inj (hk.symm.trans hl)⟩

/-- A lookup has one result. -/
theorem Finds.unique {found found' : Option (Address × α)} (h : m.Finds size a found)
    (h' : m.Finds size a found') : found = found' := by
  match found, found' with
  | none, none => rfl
  | none, some (k, v) => exact absurd h'.2 (h k v h'.1)
  | some (k, v), none => exact absurd h.2 (h' k v h.1)
  | some (k, v), some (l, w) =>
    obtain ⟨rfl, rfl⟩ := h.1.unique h'.1
    rfl

/-- An entry is found exactly if it contains the address and none starts in between. -/
theorem finds_some_iff : m.Finds size a (some (k, v)) ↔
    m.Covers size a k v ∧ ∀ l, k < l → l ≤ a → m l = none := by
  constructor
  · rintro ⟨⟨hk, -, hbehind⟩, hrange⟩
    exact ⟨⟨hk, hrange⟩, hbehind⟩
  · rintro ⟨⟨hk, hrange⟩, hbehind⟩
    exact ⟨⟨hk, hrange.1, hbehind⟩, hrange⟩

/-- A range that is not empty contains its start. -/
theorem covers_start_iff : m.Covers size k k v ↔ m k = some v ∧ size v ≠ 0 := by
  refine and_congr_right fun _ => ?_
  rw [Address.InRange, and_iff_right (UInt64.le_refl k), UInt32.toNat_toUInt64,
    Nat.lt_add_right_iff_pos, Nat.pos_iff_ne_zero, Ne, ← UInt32.toNat_zero, UInt32.toNat_inj]

namespace Covers

/-- A range contains what lies between its start and an address in it. -/
theorem of_between {l : Address} (h : m.Covers size a k v) (hkl : k ≤ l) (hla : l ≤ a) :
    m.Covers size l k v := by
  refine ⟨h.1, hkl, ?_⟩
  exact Nat.lt_of_le_of_lt (UInt64.le_iff_toNat_le.1 hla) h.2.2

/-- Where no empty entry starts within a range, none stands between its start and an address in it.
-/
theorem not_emptyBetween (h : m.Covers size a k v) (hempty : ¬m.EmptyInside size) :
    ¬m.EmptyBetween size k a := by
  rintro ⟨l, w, hkl, hla, hl, hsize⟩
  have hinside := h.of_between (UInt64.le_of_lt hkl) hla
  exact hempty ⟨k, v, l, w, hinside, UInt64.ne_of_lt hkl, hl, hsize⟩

end Covers

/-- At the start of an empty entry nothing is found, be it within the range of another one. -/
theorem EmptyInside.exists_lost (h : m.EmptyInside size) :
    ∃ a k v, m.Covers size a k v ∧ m.Finds size a none := by
  obtain ⟨k, v, l, w, hcovers, -, hl, hsize⟩ := h
  refine ⟨l, k, v, hcovers, ?_⟩
  -- the empty entry itself is the one that a lookup at its start asks
  have hself : m.IsFloor l (some (l, w)) :=
    ⟨hl, UInt64.le_refl l, fun x hlt hle => absurd hle (UInt64.not_le.2 hlt)⟩
  intro k' v' hfloor hrange
  obtain ⟨rfl, rfl⟩ := hfloor.unique hself
  exact (covers_start_iff.1 ⟨hl, hrange⟩).2 hsize

namespace Apart

/-- Without entries none overlap. -/
theorem empty (size : α → UInt32) : Contents.empty.Apart size := by
  intro a k l v w hk
  cases hk.1

/-- An entry may be added whose range has no address in common with another one. -/
theorem update (h : m.Apart size)
    (hnew : ∀ a l w, Address.InRange k (size v).toUInt64 a → ¬m.Covers size a l w) :
    Contents.Apart (Function.update m k (some v)) size := by
  -- a range after the update is the new one or an old one
  have hcovers {a l : Address} {w : α}
      (hl : Contents.Covers (Function.update m k (some v)) size a l w) :
      l = k ∧ Address.InRange k (size v).toUInt64 a ∨ m.Covers size a l w := by
    obtain ⟨hlive, hrange⟩ := hl
    by_cases hlk : l = k
    · subst hlk
      rw [Function.update_self] at hlive
      obtain rfl := Option.some.inj hlive
      exact .inl ⟨rfl, hrange⟩
    · rw [Function.update_of_ne hlk] at hlive
      exact .inr ⟨hlive, hrange⟩
  intro a l l' w w' hl hl'
  rcases hcovers hl with ⟨hlk, hrange⟩ | hold <;> rcases hcovers hl' with ⟨hlk', hrange'⟩ | hold'
  · rw [hlk, hlk']
  · exact absurd hold' (hnew a l' w' hrange)
  · exact absurd hold (hnew a l w hrange')
  · exact h hold hold'

/-- Where no two ranges overlap, only an empty entry can stand between the start of a range and an
address in it. -/
theorem finds_some_iff (h : m.Apart size) : m.Finds size a (some (k, v)) ↔
    m.Covers size a k v ∧ ¬m.EmptyBetween size k a := by
  rw [Contents.finds_some_iff]
  refine and_congr_right fun hcovers => ?_
  constructor
  · rintro hbehind ⟨l, w, hkl, hla, hl, -⟩
    rw [hbehind l hkl hla] at hl
    cases hl
  · intro hempty l hkl hla
    by_contra hlive
    obtain ⟨w, hw⟩ := Option.ne_none_iff_exists'.1 hlive
    by_cases hsize : size w = 0
    · exact hempty ⟨l, w, hkl, hla, hw, hsize⟩
    · -- an entry that is not empty would share its start with the range
      have hinside := hcovers.of_between (UInt64.le_of_lt hkl) hla
      have hstart : m.Covers size l l w := covers_start_iff.2 ⟨hw, hsize⟩
      exact UInt64.ne_of_lt hkl (h hinside hstart)

/-- Where moreover no empty entry starts within a range, what contains an address is found there. -/
theorem finds_some_iff_covers (h : m.Apart size) (hempty : ¬m.EmptyInside size) :
    m.Finds size a (some (k, v)) ↔ m.Covers size a k v := by
  rw [h.finds_some_iff]
  exact and_iff_left_of_imp fun hcovers => hcovers.not_emptyBetween hempty

end Apart

end Contents

/-! ## (2) One entry of an index -/

namespace Index

variable {α : Type}

/-- The entry with the greatest key that is not above an address, if its range contains the address.
-/
def covering? (ix : Index α) (size : α → UInt32) (a : Address) : Option (Address × α) :=
  (ix.floor? a).filter fun entry => a - entry.1 < (size entry.2).toUInt64

/-- The entry that covers an address is what a lookup is to find. -/
theorem finds_covering? (ix : Index α) (size : α → UInt32) (a : Address) :
    ix.contents.Finds size a (ix.covering? size a) := by
  have hfloor := ix.floor?_spec a
  unfold covering?
  cases hfound : ix.floor? a with
  | none =>
    rw [hfound] at hfloor
    intro k v hk
    have hnone := hfloor k hk.2.1
    rw [hk.1] at hnone
    cases hnone
  | some entry =>
    obtain ⟨k, v⟩ := entry
    rw [hfound] at hfloor
    have hrange : Address.InRange k (size v).toUInt64 a ↔ a - k < (size v).toUInt64 :=
      Address.inRange_iff_sub_lt hfloor.2.1
    by_cases hlt : a - k < (size v).toUInt64
    · rw [Option.filter_some_pos (by simpa using hlt)]
      exact ⟨hfloor, hrange.2 hlt⟩
    · rw [Option.filter_some_neg (by simpa using hlt)]
      intro l w hl
      obtain ⟨rfl, rfl⟩ := hfloor.unique hl
      exact fun h => hlt (hrange.1 h)

/-- It depends on nothing but the entries. -/
theorem covering?_congr {ix ix' : Index α} (h : ix.contents = ix'.contents) (size : α → UInt32)
    (a : Address) : ix.covering? size a = ix'.covering? size a := by
  have hfinds := ix.finds_covering? size a
  rw [h] at hfinds
  exact hfinds.unique (ix'.finds_covering? size a)

end Index

/-! ## (3) Lookups in a registry -/

namespace Registry

variable {r : Registry} {a : Address}

/-- The region that is found at an address, with its start. -/
def region? (r : Registry) (a : Address) : Option (Address × Region) :=
  (r.find a).1.map fun handle => (handle.start, handle.region)

/-- A lookup finds the covering region unless the gate is set. -/
theorem region?_eq (r : Registry) (a : Address) : r.region? a =
    if r.gate.Invalid then none else r.regions.index.covering? Region.size a := by
  simp only [region?, find, Regions.find, Index.covering?, Gate.valid_read_iff]
  cases r.regions.index.floor? a with
  | none => simp
  | some entry =>
    by_cases hle : entry.2.size.toUInt64 ≤ a - entry.1 <;> by_cases hgate : r.gate.Invalid <;>
      simp [Option.filter, hle, hgate, ← UInt64.not_le]

/-- It gives the depth of the covering block unless the gate is set. -/
theorem depthAt?_eq (r : Registry) (a : Address) : r.depthAt? a =
    if r.gate.Invalid then none
    else (r.blocks.index.covering? Block.size a).map (·.2.depth) := by
  simp only [depthAt?, DepthBlocks.depthAt?, Index.covering?, Gate.valid_read_iff]
  cases r.blocks.index.floor? a with
  | none => simp
  | some entry =>
    by_cases hle : entry.2.size.toUInt64 ≤ a - entry.1 <;> by_cases hgate : r.gate.Invalid <;>
      simp [Option.filter, hle, hgate, ← UInt64.not_le]

/-- The frames at an address are those that the region found there has at it. -/
theorem traceback_eq (r : Registry) (a : Address) : r.traceback a =
    match r.region? a with
    | none => .ok []
    | some (start, region) => region.chain.frames (a - start).toNat := by
  have hvalid := Gate.valid_read_iff (g := r.gate)
  simp only [traceback, region?, find, Regions.find]
  cases r.regions.index.floor? a with
  | none => rfl
  | some entry =>
    by_cases hle : entry.2.size.toUInt64 ≤ a - entry.1
    · simp [hle]
    · by_cases hgate : r.gate.Invalid
      · simp [hle, hvalid, hgate]
      · have hkept (x : Except Fault (List FrameId)) : x.map (fun frames => frames) = x := by
          cases x <;> rfl
        simp [hle, hvalid, hgate, RegionHandle.Consistent, RegionHandle.frames,
          RegionHandle.offsetOf, hkept]

/-- Behind a clear gate the region is found that a lookup in the live regions finds. -/
theorem finds_region? (hgate : ¬r.gate.Invalid) (a : Address) :
    r.liveRegions.Finds Region.size a (r.region? a) := by
  rw [region?_eq, if_neg hgate]
  exact r.regions.index.finds_covering? Region.size a

/-- Behind a clear gate the depth is that of the block that a lookup in the live blocks finds. -/
theorem finds_depthAt? (hgate : ¬r.gate.Invalid) (a : Address) :
    ∃ found, r.liveBlocks.Finds Block.size a found ∧ r.depthAt? a = found.map (·.2.depth) := by
  rw [depthAt?_eq, if_neg hgate]
  exact ⟨_, r.blocks.index.finds_covering? Block.size a, rfl⟩

/-- While the gate is clear, lookups find what they are to find. -/
theorem region?_eq_some_iff (hgate : ¬r.gate.Invalid) {start : Address} {region : Region} :
    r.region? a = some (start, region) ↔
      r.liveRegions.Finds Region.size a (some (start, region)) :=
  ⟨fun h => h ▸ finds_region? hgate a, fun h => (finds_region? hgate a).unique h⟩

/-- And the depth is that of the block to be found. -/
theorem depthAt?_eq_some_iff (hgate : ¬r.gate.Invalid) {depth : UInt32} :
    r.depthAt? a = some depth ↔ ∃ start block,
      r.liveBlocks.Finds Block.size a (some (start, block)) ∧ block.depth = depth := by
  obtain ⟨found, hfound, hdepth⟩ := finds_depthAt? hgate a
  rw [hdepth, Option.map_eq_some_iff]
  constructor
  · rintro ⟨⟨start, block⟩, rfl, rfl⟩
    exact ⟨start, block, hfound, rfl⟩
  · rintro ⟨start, block, h, rfl⟩
    exact ⟨(start, block), hfound.unique h, rfl⟩

/-- **Lookups among ranges that do not overlap**, behind a clear gate. The region that contains an
address is found unless an empty region starts behind its start and not behind the address; nothing
else is ever found. So lookups find exactly what contains an address, at every address, if and only
if no empty region starts within another one. The depth at an address is that of the block that
contains it, in the same way. -/
theorem lookups_exact_iff (hgate : ¬r.gate.Invalid) :
    (r.liveRegions.Apart Region.size →
      (∀ a start region, r.region? a = some (start, region) ↔
        r.liveRegions.Covers Region.size a start region ∧
          ¬r.liveRegions.EmptyBetween Region.size start a) ∧
      ((∀ a start region, r.region? a = some (start, region) ↔
          r.liveRegions.Covers Region.size a start region) ↔
        ¬r.liveRegions.EmptyInside Region.size)) ∧
    (r.liveBlocks.Apart Block.size →
      (∀ a depth, r.depthAt? a = some depth ↔ ∃ start block,
        r.liveBlocks.Covers Block.size a start block ∧
          ¬r.liveBlocks.EmptyBetween Block.size start a ∧ block.depth = depth) ∧
      ((∀ a depth, r.depthAt? a = some depth ↔ ∃ start block,
          r.liveBlocks.Covers Block.size a start block ∧ block.depth = depth) ↔
        ¬r.liveBlocks.EmptyInside Block.size)) := by
  constructor
  · intro hapart
    have hfound (a start region) : r.region? a = some (start, region) ↔
        r.liveRegions.Finds Region.size a (some (start, region)) := region?_eq_some_iff hgate
    simp only [hfound]
    refine ⟨fun a start region => hapart.finds_some_iff, ?_, ?_⟩
    · -- an empty region inside another one hides it at some address
      intro hall hinside
      obtain ⟨a, start, region, hcovers, hnone⟩ := hinside.exists_lost
      cases hnone.unique ((hall a start region).2 hcovers)
    · intro hempty a start region
      exact hapart.finds_some_iff_covers hempty
  · intro hapart
    have hfound (a depth) : r.depthAt? a = some depth ↔ ∃ start block,
        r.liveBlocks.Finds Block.size a (some (start, block)) ∧ block.depth = depth :=
      depthAt?_eq_some_iff hgate
    simp only [hfound]
    refine ⟨?_, ?_, ?_⟩
    · intro a depth
      simp only [hapart.finds_some_iff, and_assoc]
    · intro hall hinside
      obtain ⟨a, start, block, hcovers, hnone⟩ := hinside.exists_lost
      obtain ⟨start', block', hfinds, -⟩ := (hall a block.depth).2 ⟨start, block, hcovers, rfl⟩
      cases hnone.unique hfinds
    · intro hempty a depth
      simp only [hapart.finds_some_iff_covers hempty]

/-- Two regions that do not overlap, the second one empty and starting within the first: behind it
no region is found at an address that the first one contains. -/
theorem empty_region_hides : ∃ r, ((empty .standard).registerCode 0x1000 256 ⟨[1, 0, 256, 4]⟩ >>=
        fun p => p.2.registerCode 0x1050 0 ⟨[]⟩).outcome = .ok (.ok (), r) ∧
      ¬r.gate.Invalid ∧ r.liveRegions.Apart Region.size ∧
      (∃ region, r.liveRegions.Covers Region.size 0x1060 0x1000 region) ∧
      r.region? 0x1060 = none := by
  have hfirst : ((empty .standard).registerCode 0x1000 256 ⟨[1, 0, 256, 4]⟩).outcome.map (·.1) =
      .ok (.ok ()) := by decide +kernel
  have hsecond : ((empty .standard).registerCode 0x1000 256 ⟨[1, 0, 256, 4]⟩ >>=
      fun p => p.2.registerCode 0x1050 0 ⟨[]⟩).outcome.map (·.1) = .ok (.ok ()) := by
    decide +kernel
  obtain ⟨⟨_, r₁⟩, hadd, rfl⟩ := Traced.exists_of_map_eq_ok hfirst
  rw [Traced.outcome_bind_of_ok hadd] at hsecond ⊢
  obtain ⟨⟨_, r₂⟩, hadd₂, rfl⟩ := Traced.exists_of_map_eq_ok hsecond
  -- what the registry holds after the one call and after the other
  have hholds : r₁.Holds (Function.update Contents.empty 0x1000
      (some ⟨256, ⟨[1, 0, 256, 4]⟩, (empty .standard).regions.issued⟩)) Contents.empty := by
    obtain ⟨result, r, hout, hholds⟩ :=
      (holds_empty .standard).registerCode rfl 256 ⟨[1, 0, 256, 4]⟩
    obtain ⟨rfl, rfl⟩ := Prod.mk.inj (Except.ok.inj (hadd.symm.trans hout))
    exact hholds
  have hholds₂ : r₂.Holds (Function.update (Function.update Contents.empty 0x1000
      (some ⟨256, ⟨[1, 0, 256, 4]⟩, (empty .standard).regions.issued⟩)) 0x1050
      (some ⟨0, ⟨[]⟩, r₁.regions.issued⟩)) Contents.empty := by
    obtain ⟨result, r, hout, hholds₂⟩ := @Holds.registerCode r₁ _ _ 0x1050 hholds rfl 0 ⟨[]⟩
    obtain ⟨rfl, rfl⟩ := Prod.mk.inj (Except.ok.inj (hadd₂.symm.trans hout))
    exact hholds₂
  have hlive := hholds₂.liveRegions
  have hapart : r₂.liveRegions.Apart Region.size := by
    rw [hlive]
    refine ((Contents.Apart.empty Region.size).update ?_).update ?_
    · intro a l w _ hl
      cases hl.1
    · intro a l w hrange
      exact absurd hrange Address.not_inRange_zero
  have hcovers : r₂.liveRegions.Covers Region.size 0x1060 0x1000
      ⟨256, ⟨[1, 0, 256, 4]⟩, (empty .standard).regions.issued⟩ := by
    rw [hlive]
    exact ⟨rfl, by decide⟩
  have hbetween : r₂.liveRegions.EmptyBetween Region.size 0x1000 0x1060 := by
    rw [hlive]
    exact ⟨0x1050, ⟨0, ⟨[]⟩, r₁.regions.issued⟩, by decide, by decide, rfl, rfl⟩
  refine ⟨r₂, hadd₂, hholds₂.gate, hapart, ⟨_, hcovers⟩, ?_⟩
  have hexact := ((lookups_exact_iff hholds₂.gate).1 hapart).1
  cases hfound : r₂.region? 0x1060 with
  | none => rfl
  | some entry =>
    obtain ⟨start, region⟩ := entry
    obtain ⟨hstart, hnone⟩ := (hexact 0x1060 start region).1 hfound
    obtain rfl := hapart hstart hcovers
    exact absurd hbetween hnone

end Registry

end TraceAtlas
