import TraceAtlas.Tuning

/-! # Lanes

Nodes that are linked on several levels. The ground level leads through every node in order of the
keys, and each level above it leaves some of them out, so a search runs along the sparse levels
first and comes down where the next key would be too high. A node keeps its links when it is taken
out.

## Main definitions
* `Node`, `Lanes` : a node with its links, and the memory that holds them with the links of the
  head.
* `Lanes.walk`, `Lanes.descend` : a search along one level, and down the levels.
* `Lanes.find?`, `Lanes.floor?`, `Lanes.toList` : what is found that way.
* `Lanes.insert`, `Lanes.unlink` : the changes.
-/

namespace TraceAtlas

/-- Where a search stands: before all nodes, or at the node in a slot. -/
abbrev Place := Option Nat

/-- Where the levels lead from a place, each to a slot or to its end. -/
abbrev Links := Vector (Option Nat) maxLevels

/-- An entry with its links. -/
structure Node (α : Type) where
  key : Address
  value : α
  next : Links

/-- The links of the head, and the nodes by their slots. -/
structure Lanes (α : Type) where
  head : Links
  nodes : Array (Node α)

namespace Lanes

variable {α : Type}

/-- The level that leads through every node. -/
def ground : Fin maxLevels := ⟨0, by decide⟩

/-- No nodes. -/
def empty : Lanes α := ⟨.replicate _ none, #[]⟩

/-! ## (1) Links -/

/-- The slot that a level leads to from a place. -/
def link (m : Lanes α) (level : Fin maxLevels) : Place → Option Nat
  | none => m.head.get level
  | some slot => m.nodes[slot]?.bind (·.next.get level)

/-- The node that a level leads to from a place, with its slot. -/
def next? (m : Lanes α) (level : Fin maxLevels) (place : Place) : Option (Nat × Node α) :=
  (m.link level place).bind fun slot => m.nodes[slot]?.map (slot, ·)

/-- The entry in a slot. -/
def item? (m : Lanes α) (slot : Nat) : Option (Address × α) :=
  m.nodes[slot]?.map fun node => (node.key, node.value)

/-- Writes a node into a slot. The first slot never written is the one behind all others. -/
def write (m : Lanes α) (slot : Nat) (node : Node α) : Lanes α :=
  { m with nodes := if h : slot < m.nodes.size then m.nodes.set slot node else m.nodes.push node }

/-- Makes a level lead elsewhere from a place. -/
def setLink (m : Lanes α) (level : Fin maxLevels) (place : Place) (target : Option Nat) : Lanes α :=
  match place with
  | none => { m with head := m.head.set level target level.isLt }
  | some slot =>
    { m with
      nodes := m.nodes.modify slot fun n =>
        { n with next := n.next.set level target level.isLt } }

/-! ## (2) Searching -/

/-- The least number a key behind a place can have. -/
def bound (m : Lanes α) : Place → Nat
  | none => 0
  | some slot =>
    match m.nodes[slot]? with
    | none => UInt64.size
    | some node => node.key.toNat + 1

/-- The next node is the one in the slot that the level leads to. -/
theorem nodes_of_next?_eq_some {m : Lanes α} {level : Fin maxLevels} {place : Place} {slot : Nat}
    {node : Node α} (h : m.next? level place = some (slot, node)) :
    m.link level place = some slot ∧ m.nodes[slot]? = some node := by
  obtain ⟨s, hlink, hnode⟩ := Option.bind_eq_some_iff.1 h
  obtain ⟨n, hn, heq⟩ := Option.map_eq_some_iff.1 hnode
  obtain ⟨rfl, rfl⟩ := Prod.mk.inj heq
  exact ⟨hlink, hn⟩

/-- Every step along a level comes closer to the end of the address space. -/
theorem bound_of_next? {m : Lanes α} {level : Fin maxLevels} {place : Place} {slot : Nat}
    {node : Node α} (h : m.next? level place = some (slot, node))
    (hbound : m.bound place ≤ node.key.toNat) :
    UInt64.size - m.bound (some slot) < UInt64.size - m.bound place := by
  have hsize : UInt64.size = 2 ^ 64 := rfl
  have hkey := node.key.toNat_lt
  have hnew : m.bound (some slot) = node.key.toNat + 1 := by
    simp only [bound, (nodes_of_next?_eq_some h).2]
  omega

/-- Goes on along a level while the keys pass a test. That the next key is above the place ends the
walk whatever the links are; along the levels of towers it always is (`Lanes.walk_step`). -/
def walk (m : Lanes α) (level : Fin maxLevels) (go : Address → Bool) (place : Place) : Place :=
  match _ : m.next? level place with
  | none => place
  | some (slot, node) =>
    if _ : m.bound place ≤ node.key.toNat ∧ go node.key then m.walk level go (some slot) else place
termination_by UInt64.size - m.bound place
decreasing_by exact bound_of_next? ‹_› (‹_ ∧ _›).1

/-- Goes down the levels below `n` from a place, and keeps the place where each of them is left. -/
def descend (m : Lanes α) (go : Address → Bool) : (n : Nat) → n ≤ maxLevels → Place → Vector Place n
  | 0, _, _ => #v[]
  | n + 1, h, place =>
    let place := m.walk ⟨n, h⟩ go place
    (m.descend go n (Nat.le_of_succ_le h) place).push place

/-- On each level, the last place before a key. -/
@[irreducible]
def before (m : Lanes α) (key : Address) : Vector Place maxLevels :=
  m.descend (· < key) maxLevels (Nat.le_refl _) none

/-- The slot and the value of the node with exactly this key. -/
def find? (m : Lanes α) (key : Address) : Option (Nat × α) :=
  match m.next? ground ((m.before key).get ground) with
  | none => none
  | some (slot, node) => if node.key = key then some (slot, node.value) else none

/-- The entry with the greatest key that is not above `query`, searched from a height. -/
def floor? (m : Lanes α) (height : Height) (query : Address) : Option (Address × α) :=
  match (m.descend (· ≤ query) height.val height.property.2 none).get ⟨0, height.property.1⟩ with
  | none => none
  | some slot => m.item? slot

/-- The entries behind a place, in the order of the ground level. -/
def listFrom (m : Lanes α) (place : Place) : List (Address × α) :=
  match _ : m.next? ground place with
  | none => []
  | some (slot, node) =>
    if _ : m.bound place ≤ node.key.toNat then (node.key, node.value) :: m.listFrom (some slot)
    else []
termination_by UInt64.size - m.bound place
decreasing_by exact bound_of_next? ‹_› ‹_›

/-- All entries, lowest key first. -/
def toList (m : Lanes α) : List (Address × α) := m.listFrom none

/-! ## (3) Changes -/

/-- Makes the levels below `n` lead to a slot from the places in front of it, the lowest first. -/
def publish (m : Lanes α) (places : Vector Place maxLevels) (slot : Nat) :
    (n : Nat) → n ≤ maxLevels → Lanes α
  | 0, _ => m
  | n + 1, h =>
    (m.publish places slot n (Nat.le_of_succ_le h)).setLink ⟨n, h⟩ (places.get ⟨n, h⟩) (some slot)

/-- Puts a node of a height in a slot and on its levels. -/
def insert (m : Lanes α) (slot : Nat) (height : Height) (key : Address) (value : α) : Lanes α :=
  let places := m.before key
  let next := Vector.ofFn fun level =>
    if level.val < height.val then m.link level (places.get level) else none
  -- the node is complete before anything leads to it
  (m.write slot ⟨key, value, next⟩).publish places slot height.val height.property.2

/-- Makes the levels below `n` that lead to a slot lead past it, the highest first. -/
def bypass (m : Lanes α) (places : Vector Place maxLevels) (slot : Nat) :
    (n : Nat) → n ≤ maxLevels → Lanes α
  | 0, _ => m
  | n + 1, h =>
    let m :=
      if m.link ⟨n, h⟩ (places.get ⟨n, h⟩) = some slot then
        m.setLink ⟨n, h⟩ (places.get ⟨n, h⟩) (m.link ⟨n, h⟩ (some slot))
      else m
    m.bypass places slot n (Nat.le_of_succ_le h)

/-- Takes the node in a slot, which has this key, off its levels. The node itself stays as it is. -/
def unlink (m : Lanes α) (slot : Nat) (key : Address) : Lanes α :=
  m.bypass (m.before key) slot maxLevels (Nat.le_refl _)

end Lanes

end TraceAtlas
