import TraceAtlas.Fault

/-! # Tuning

The settings of an address index. Memory for slots is taken in chunks, each twice as long as the one
before; the first is a power of two, so it is kept as an exponent. The height bound and the seed
shape the search structure and never change an answer.

Two things are left to the surroundings of a program: which words a seed stands for, and whether
there is memory when a list has to grow. Nothing is assumed of either.

## Main definitions
* `Height` : how many levels there may be.
* `Surroundings` : what is left to the surroundings.
* `Tuning` : the settings, with their standard values as defaults.
* `Tuning.Overrides` : settings that are given, each on its own.
* `Tuning.override` : the settings with the given ones put in place.
-/

namespace TraceAtlas

/-- The number of levels of any search structure. -/
def maxLevels : Nat := 16

/-- How many levels there may be: one at least. -/
abbrev Height := { levels : Nat // 0 < levels ∧ levels ≤ maxLevels }

/-- A word that looks like none of its neighbours: the state of a generator, mixed. -/
def scrambled (seed : UInt64) (n : Nat) : UInt32 :=
  let z := seed + UInt64.ofNat (n + 1) * 0x9e3779b97f4a7c15
  let z := (z ^^^ (z >>> 30)) * 0xbf58476d1ce4e5b9
  let z := (z ^^^ (z >>> 27)) * 0x94d049bb133111eb
  (z >>> 32).toUInt32

/-- What the surroundings of a program decide. The defaults are one way among all others. -/
structure Surroundings where
  /-- The words that a seed stands for. -/
  words : UInt64 → Nat → UInt32 := scrambled
  /-- Whether an index has room for one more slot in its lists of free and retired slots, when it
  asks for that the n-th time. Indexes are told apart by the bytes of a slot. -/
  slotLists : Nat → Nat → Bool := fun _ _ => true
  /-- Whether there is room for one more region in the list of removed ones, when that is asked for
  the n-th time. -/
  regionList : Nat → Bool := fun _ => true

/-- The settings of an address index, in their surroundings. -/
structure Tuning extends Surroundings where
  /-- Bounds the height of the search structure. -/
  maxHeight : Height := ⟨12, by decide⟩
  /-- The first chunk holds two to this power many slots. -/
  chunkOrder : Fin 64 := 6
  /-- Seeds the choice of heights. -/
  seed : UInt64 := 0x6a69746d6170
  /-- How many slots each index may take, at most. -/
  maxNodes : UInt32 := 0xffffffff

namespace Tuning

/-- The standard settings. -/
def standard (given : Surroundings := {}) : Tuning := { given with }

/-- The number of slots in the first chunk. -/
def chunkSize (t : Tuning) : Nat := 1 <<< t.chunkOrder.val

/-- The settings in the form in which log lines show them. -/
def describe (t : Tuning) : String :=
  s!"Config \x7b max_height: {t.maxHeight.val}, chunk_size: {t.chunkSize}, " ++
    s!"seed: {t.seed}, max_nodes: {t.maxNodes} \x7d"

/-! ## (1) Values that are rounded -/

/-- Heights are between one and sixteen. -/
def clampHeight (height : UInt64) : Height :=
  ⟨min (max height.toNat 1) maxLevels, by simp only [maxLevels]; omega⟩

/-- The least power of two, as an exponent, that is at least `size` and at least one; none if an
address cannot hold it. -/
def chunkOrder? (size : UInt64) : Option (Fin 64) :=
  let order := if size.toNat ≤ 1 then 0 else (size.toNat - 1).log2 + 1
  if h : order < 64 then some ⟨order, h⟩ else none

/-! ## (2) Overrides -/

/-- Settings that are given, each on its own. -/
structure Overrides where
  maxHeight : Option UInt64 := none
  chunkSize : Option UInt64 := none
  seed : Option UInt64 := none
  maxNodes : Option UInt32 := none
  deriving DecidableEq, Repr

/-- The settings with the given ones put in place. Only a first chunk past any power of two is at
fault. -/
def override (t : Tuning) (o : Overrides) : Except Fault Tuning := do
  -- the only setting that can fail; the others are clamped or taken as they are
  let chunkOrder ← match o.chunkSize with
    | none => pure t.chunkOrder
    | some size =>
      match chunkOrder? size with
      | some order => pure order
      | none => throw .chunkTooLarge
  return { t with
    maxHeight := (o.maxHeight.map clampHeight).getD t.maxHeight
    chunkOrder
    seed := o.seed.getD t.seed
    maxNodes := o.maxNodes.getD t.maxNodes }

end Tuning

end TraceAtlas
