/-
Nodes of the state tree and their hashes.

A leaf may stand at any level and is hashed as the subtree in which it is alone; an internal node is
hashed from the hashes in its child references, four binary levels at once.  The specification
hashes the full binary tree with a leaf for each of the `2 ^ 256` keys.

* `LeafNode.hash_eq_prefixHash`, `InternalNode.hash_eq_prefixHash` — nodes have the hash of the
  subtree they stand for.
-/
import Mathlib
import ViaCore.FullTree
import ViaCore.Nibbles
import ViaCore.Outcome

namespace MerkleTree

abbrev ValueHash := BitVec 256

structure HashTree where
  name : String
  hashLeaf : ValueHash → UInt64 → ValueHash
  hashBranch : ValueHash → ValueHash → ValueHash
  emptySubtreeHash : ℕ → ValueHash

namespace HashTree

def emptyTreeHash (hasher : HashTree) : ValueHash := hasher.emptySubtreeHash 256

/-- An empty subtree is hashed as a branch of two empty subtrees. -/
def Lawful (hasher : HashTree) : Prop :=
  ∀ depth < 256, hasher.emptySubtreeHash (depth + 1) =
    hasher.hashBranch (hasher.emptySubtreeHash depth) (hasher.emptySubtreeHash depth)

/-- `HasherWithStats::hash_optional_branch`; `none` stands for an empty subtree. -/
def hashOptionalBranch (hasher : HashTree) (subtreeDepth : ℕ) :
    Option ValueHash → Option ValueHash → Option ValueHash
  | none, none => none
  | some lhs, none => some (hasher.hashBranch lhs (hasher.emptySubtreeHash subtreeDepth))
  | none, some rhs => some (hasher.hashBranch (hasher.emptySubtreeHash subtreeDepth) rhs)
  | some lhs, some rhs => some (hasher.hashBranch lhs rhs)

end HashTree

structure TreeEntry where
  key : Key
  value : ValueHash
  leafIndex : UInt64
  deriving DecidableEq

structure LeafNode where
  fullKey : Key
  valueHash : ValueHash
  leafIndex : UInt64
  deriving DecidableEq

namespace LeafNode

def new (entry : TreeEntry) : LeafNode := ⟨entry.key, entry.value, entry.leafIndex⟩

def updateFrom (leaf : LeafNode) (entry : TreeEntry) : LeafNode :=
  { leaf with valueHash := entry.value, leafIndex := entry.leafIndex }

/-- The hash of the subtree below `level` in which this is the only leaf. -/
def hash (leaf : LeafNode) (hasher : HashTree) (level : ℕ) : ValueHash :=
  let hashingIterations := 256 - level
  (List.range hashingIterations).foldl (fun hash depth =>
    let emptyTreeHash := hasher.emptySubtreeHash depth
    if leaf.fullKey.bit depth then hasher.hashBranch emptyTreeHash hash
    else hasher.hashBranch hash emptyTreeHash) (hasher.hashLeaf leaf.valueHash leaf.leafIndex)

end LeafNode

structure ChildRef where
  hash : ValueHash
  version : ℕ
  isLeaf : Bool
  deriving DecidableEq

namespace ChildRef

def leaf (version : ℕ) : ChildRef := ⟨0, version, true⟩

def internal (version : ℕ) : ChildRef := ⟨0, version, false⟩

end ChildRef

/-- Cache of the hashes inside of an internal node, one row for each of the three binary levels
below it.  `none` stands for the hash of an empty subtree. -/
structure InternalNodeCache where
  level1 : List (Option ValueHash)
  level2 : List (Option ValueHash)
  level3 : List (Option ValueHash)
  deriving DecidableEq

namespace InternalNodeCache

def empty : InternalNodeCache :=
  ⟨List.replicate 2 none, List.replicate 4 none, List.replicate 8 none⟩

def setLevel (cache : InternalNodeCache) (levelInTree : ℕ) (source : List (Option ValueHash)) :
    InternalNodeCache :=
  match levelInTree with
  | 1 => { cache with level1 := source.take 2 }
  | 2 => { cache with level2 := source.take 4 }
  | 3 => { cache with level3 := source.take 8 }
  | _ => cache

end InternalNodeCache

/-- Internal node with up to 16 children, a map from nibbles (`SmallMap`). -/
structure InternalNode where
  children : Nibble → Option ChildRef
  cache : Option InternalNodeCache

namespace InternalNode

def empty : InternalNode := ⟨fun _ => none, none⟩

/-- A clone does not have the cache. -/
def clone (node : InternalNode) : InternalNode := { node with cache := none }

def childRef (node : InternalNode) (nibble : Nibble) : Option ChildRef := node.children nibble

def insertChildRef (node : InternalNode) (nibble : Nibble) (childRef : ChildRef) : InternalNode :=
  { node with children := Function.update node.children nibble (some childRef) }

def childHashes (node : InternalNode) : List (Option ValueHash) :=
  (List.range 16).map fun i => (node.children (BitVec.ofNat 4 i)).map ChildRef.hash

/-- One round of `hash_inner`: neighbours are merged in place, from the left. -/
def mergeLevel (hasher : HashTree) (subtreeDepth nextLevelLen : ℕ)
    (levelHashes : List (Option ValueHash)) : List (Option ValueHash) :=
  (List.range nextLevelLen).foldl (fun levelHashes i =>
    levelHashes.set i (hasher.hashOptionalBranch subtreeDepth (levelHashes.getD (2 * i) none)
      (levelHashes.getD (2 * i + 1) none))) levelHashes

/-- Hashes a node given the hashes of its children and the level of its tip, and fills the cache
if there is one. -/
def hashInner (levelHashes : List (Option ValueHash)) (hasher : HashTree) (level : ℕ)
    (cache : Option InternalNodeCache) : ValueHash × Option InternalNodeCache :=
  let merged := [4, 3, 2, 1].foldl (fun (levelHashes, nextLevelLen, cache) levelInTree =>
    let overallLevel := level + levelInTree
    let subtreeDepth := 256 - overallLevel
    let levelHashes := mergeLevel hasher subtreeDepth nextLevelLen levelHashes
    (levelHashes, nextLevelLen / 2,
      cache.map fun cache => cache.setLevel (levelInTree - 1) levelHashes))
    (levelHashes, levelHashes.length / 2, cache)
  ((merged.1.getD 0 none).getD (hasher.emptySubtreeHash (256 - level)), merged.2.2)

def hash (node : InternalNode) (hasher : HashTree) (level : ℕ) : ValueHash :=
  (hashInner node.childHashes hasher level none).1

end InternalNode

inductive Node where
  | internal (node : InternalNode)
  | leaf (leaf : LeafNode)

namespace Node

def isLeaf : Node → Bool
  | internal _ => false
  | leaf _ => true

def clone : Node → Node
  | internal node => internal node.clone
  | leaf leafNode => leaf leafNode

def hash (hasher : HashTree) (level : ℕ) : Node → ValueHash
  | .internal node => node.hash hasher level
  | .leaf leafNode => leafNode.hash hasher level

end Node

/-- Root of the tree.  The leaf count is a `NonZeroU64`. -/
inductive Root where
  | empty
  | filled (leafCount : ℕ+) (node : Node)

namespace Root

/-- Panics when there is a node but no leaf. -/
def new {ε : Type} (leafCount : ℕ) (node : Node) : Outcome ε Root :=
  if h : 0 < leafCount then .ok (filled ⟨leafCount, h⟩ node) else .panic

def leafCount : Root → ℕ
  | empty => 0
  | filled leafCount _ => leafCount

def clone : Root → Root
  | empty => empty
  | filled leafCount node => filled leafCount node.clone

def hash (hasher : HashTree) : Root → ValueHash
  | empty => hasher.emptyTreeHash
  | filled _ node => node.hash hasher 0

end Root

/-! ### The specification -/

/-- What has been written: the value and the leaf index for each key. -/
abbrev Contents := Key → Option (ValueHash × UInt64)

def leafHash (hasher : HashTree) (contents : Contents) (i : ℕ) : ValueHash :=
  match contents (BitVec.ofNat 256 i) with
  | some (value, leafIndex) => hasher.hashLeaf value leafIndex
  | none => hasher.emptySubtreeHash 0

/-- **The specified root hash**: of the full binary tree of depth 256, in which the leaf of an
occupied key has the hash of its value and index. -/
def treeHash (hasher : HashTree) (contents : Contents) : ValueHash :=
  FullTree.hash hasher.hashBranch (leafHash hasher contents) 256 0

/-- The specified hash of the subtree that the first `n` nibbles of a key lead to. -/
def prefixHash (hasher : HashTree) (contents : Contents) (key : Key) (n : ℕ) : ValueHash :=
  FullTree.hash hasher.hashBranch (leafHash hasher contents) (256 - 4 * n) (prefixIndex key n)

section Specification

variable {hasher : HashTree} {contents contents' : Contents} {key : Key} {n : ℕ}

theorem prefixHash_zero (key : Key) :
    prefixHash hasher contents key 0 = treeHash hasher contents := by
  rw [prefixHash, prefixIndex_zero]
  rfl

theorem new_ofNat_of_div (hn : n ≤ 64) {i : ℕ} (hi : i / 2 ^ (256 - 4 * n) = prefixIndex key n) :
    (BitVec.ofNat 256 i).toNat = i ∧ Nibbles.new (BitVec.ofNat 256 i) n = Nibbles.new key n := by
  have hbound := prefixIndex_lt key hn
  have hlt : i < 2 ^ 256 := by
    rw [← hi, Nat.div_lt_iff_lt_mul (by positivity), ← pow_add,
      show 4 * n + (256 - 4 * n) = 256 by omega] at hbound
    exact hbound
  have htoNat : (BitVec.ofNat 256 i).toNat = i := by
    rw [BitVec.toNat_ofNat, Nat.mod_eq_of_lt hlt]
  refine ⟨htoNat, (new_eq_new_iff_prefixIndex hn).2 ?_⟩
  rw [prefixIndex, htoNat, hi]

theorem prefixHash_congr (hn : n ≤ 64)
    (h : ∀ key', Nibbles.new key' n = Nibbles.new key n → contents key' = contents' key') :
    prefixHash hasher contents key n = prefixHash hasher contents' key n := by
  refine FullTree.hash_congr _ _ _ fun i hi => ?_
  rw [leafHash, leafHash, h _ (new_ofNat_of_div hn hi).2]

theorem prefixHash_vacant (hlaw : hasher.Lawful) (hn : n ≤ 64)
    (h : ∀ key', Nibbles.new key' n = Nibbles.new key n → contents key' = none) :
    prefixHash hasher contents key n = hasher.emptySubtreeHash (256 - 4 * n) := by
  refine FullTree.hash_vacant hlaw _ (by omega) fun i hi => ?_
  rw [leafHash, h _ (new_ofNat_of_div hn hi).2]

theorem LeafNode.hash_eq_prefixHash (hlaw : hasher.Lawful) (hn : n ≤ 64) {leaf : LeafNode}
    (hpos : Nibbles.new leaf.fullKey n = Nibbles.new key n)
    (hself : contents leaf.fullKey = some (leaf.valueHash, leaf.leafIndex))
    (hothers : ∀ key', Nibbles.new key' n = Nibbles.new key n → key' ≠ leaf.fullKey →
      contents key' = none) : leaf.hash hasher (4 * n) = prefixHash hasher contents key n := by
  have hidx : prefixIndex key n = leaf.fullKey.toNat / 2 ^ (256 - 4 * n) :=
    ((new_eq_new_iff_prefixIndex hn).1 hpos).symm
  have hleaf : leafHash hasher contents leaf.fullKey.toNat =
      hasher.hashLeaf leaf.valueHash leaf.leafIndex := by
    have hkey : BitVec.ofNat 256 leaf.fullKey.toNat = leaf.fullKey := by simp
    rw [leafHash, hkey, hself]
  have hvacant : ∀ i, i / 2 ^ (256 - 4 * n) = leaf.fullKey.toNat / 2 ^ (256 - 4 * n) →
      i ≠ leaf.fullKey.toNat → leafHash hasher contents i = hasher.emptySubtreeHash 0 := by
    intro i hi hne
    obtain ⟨htoNat, hnew⟩ := new_ofNat_of_div hn (hi.trans hidx.symm)
    rw [leafHash, hothers _ hnew fun hcon => hne (by rw [← htoNat, hcon])]
  rw [prefixHash, hidx, FullTree.hash_single hlaw _ (Nat.sub_le 256 (4 * n)) hvacant, hleaf]
  rfl

/-! ### Internal nodes -/

theorem HashTree.hashOptionalBranch_getD (hlaw : hasher.Lawful) {depth : ℕ} (hdepth : depth < 256)
    (lhs rhs : Option ValueHash) :
    (hasher.hashOptionalBranch depth lhs rhs).getD (hasher.emptySubtreeHash (depth + 1)) =
      hasher.hashBranch (lhs.getD (hasher.emptySubtreeHash depth))
        (rhs.getD (hasher.emptySubtreeHash depth)) := by
  cases lhs <;> cases rhs <;> simp [HashTree.hashOptionalBranch, hlaw depth hdepth]

namespace InternalNode

/-- What a round has done after `i` steps: the writes never overtake the reads. -/
theorem mergeLevel_spec (hasher : HashTree) (depth len : ℕ) (row : List (Option ValueHash))
    (hlen : len ≤ row.length) :
    (mergeLevel hasher depth len row).length = row.length ∧
      ∀ j, (mergeLevel hasher depth len row).getD j none =
        if j < len then
          hasher.hashOptionalBranch depth (row.getD (2 * j) none) (row.getD (2 * j + 1) none)
        else row.getD j none := by
  induction len with
  | zero => exact ⟨rfl, fun j => by rw [if_neg (Nat.not_lt_zero j)]; rfl⟩
  | succ len ih =>
    obtain ⟨ihlen, ihrow⟩ := ih (by omega)
    -- the row is merged in place: pairs behind `len` are not touched yet
    have hstep : mergeLevel hasher depth (len + 1) row =
        (mergeLevel hasher depth len row).set len
          (hasher.hashOptionalBranch depth (row.getD (2 * len) none)
            (row.getD (2 * len + 1) none)) := by
      have hleft := ihrow (2 * len)
      have hright := ihrow (2 * len + 1)
      rw [if_neg (by omega)] at hleft hright
      rw [← hleft, ← hright, mergeLevel, List.range_succ, List.foldl_append]
      rfl
    rw [hstep]
    refine ⟨by rw [List.length_set, ihlen], fun j => ?_⟩
    rw [List.getD_eq_getElem?_getD, List.getElem?_set, ihlen]
    by_cases hj : len = j
    · subst hj
      rw [if_pos rfl, if_pos (by omega), if_pos (Nat.lt_succ_self len), Option.getD_some]
    · rw [if_neg hj, ← List.getD_eq_getElem?_getD, ihrow j]
      by_cases hlt : j < len
      · rw [if_pos hlt, if_pos (by omega)]
      · rw [if_neg hlt, if_neg (by omega)]

variable {row : List (Option ValueHash)} {leaf : ℕ → ValueHash}

theorem row_mergeLevel (hlaw : hasher.Lawful) {depth first len : ℕ} (hdepth : depth < 256)
    (hrow : FullTree.Row hasher.hashBranch leaf hasher.emptySubtreeHash depth (2 * first) (2 * len)
      row) :
    FullTree.Row hasher.hashBranch leaf hasher.emptySubtreeHash (depth + 1) first len
      (mergeLevel hasher depth len row) := by
  obtain ⟨hlen, hhash⟩ := hrow
  obtain ⟨hlen', hmerged⟩ := mergeLevel_spec hasher depth len row (by omega)
  refine ⟨by omega, fun j hj => ?_⟩
  rw [hmerged j, if_pos hj, HashTree.hashOptionalBranch_getD hlaw hdepth, hhash _ (by omega),
    hhash _ (by omega), FullTree.hash, mul_add, add_assoc]

theorem hashInner_eq (hlaw : hasher.Lawful) {level first : ℕ} (hlevel : level + 4 ≤ 256)
    (hlen : row.length = 16) (cache : Option InternalNodeCache)
    (hrow : FullTree.Row hasher.hashBranch leaf hasher.emptySubtreeHash (256 - (level + 4))
      (16 * first) 16 row) :
    (hashInner row hasher level cache).1 =
      FullTree.hash hasher.hashBranch leaf (256 - level) first := by
  obtain ⟨d, hd⟩ : ∃ d, level + 4 + d = 256 := ⟨256 - (level + 4), by omega⟩
  have hd4 : 256 - (level + 4) = d := by omega
  have hd3 : 256 - (level + 3) = d + 1 := by omega
  have hd2 : 256 - (level + 2) = d + 2 := by omega
  have hd1 : 256 - (level + 1) = d + 3 := by omega
  have hd0 : 256 - level = d + 4 := by omega
  rw [hd4, show 16 * first = 2 * (8 * first) by ring, show 16 = 2 * 8 by rfl] at hrow
  have h8 := row_mergeLevel hlaw (by omega) hrow
  rw [show 8 * first = 2 * (4 * first) by ring, show 8 = 2 * 4 by rfl] at h8
  have h4 := row_mergeLevel hlaw (by omega) h8
  rw [show 4 * first = 2 * (2 * first) by ring, show 4 = 2 * 2 by rfl] at h4
  have h2 := row_mergeLevel hlaw (by omega) h4
  have h1 : FullTree.Row hasher.hashBranch leaf hasher.emptySubtreeHash (d + 3 + 1) first 1 _ :=
    row_mergeLevel hlaw (by omega) h2
  have hroot := h1.2 0 Nat.one_pos
  rw [hashInner, hlen]
  simp only [List.foldl_cons, List.foldl_nil, hd4, hd3, hd2, hd1, hd0]
  exact hroot

theorem row_childHashes (hn : n < 64) {node : InternalNode}
    (hchildren : ∀ key', Nibbles.new key' n = Nibbles.new key n →
      ((node.children (Nibbles.nibble key' n)).map ChildRef.hash).getD
        (hasher.emptySubtreeHash (256 - 4 * (n + 1))) = prefixHash hasher contents key' (n + 1)) :
    FullTree.Row hasher.hashBranch (leafHash hasher contents) hasher.emptySubtreeHash
      (256 - (4 * n + 4)) (16 * prefixIndex key n) 16 node.childHashes := by
  refine ⟨by simp [childHashes], fun j hj => ?_⟩
  obtain ⟨key', hpos, hnibble⟩ := exists_key_nibble key hn (BitVec.ofNat 4 j)
  have hidx : prefixIndex key' (n + 1) = 16 * prefixIndex key n + j := by
    rw [prefixIndex_succ key' hn, hnibble, (new_eq_new_iff_prefixIndex hn.le).1 hpos,
      BitVec.toNat_ofNat, Nat.mod_eq_of_lt hj]
  have hchild := hchildren key' hpos
  rw [hnibble, prefixHash, hidx] at hchild
  have hentry : node.childHashes.getD j none =
      (node.children (BitVec.ofNat 4 j)).map ChildRef.hash := by
    rw [childHashes, List.getD_eq_getElem?_getD, List.getElem?_map, List.getElem?_range hj]
    rfl
  rw [hentry, show 4 * n + 4 = 4 * (n + 1) by ring, hchild]

/-- **An internal node is hashed as the subtree it stands for**, when the hashes of its children
are those of theirs and there is no key below a missing child. -/
theorem hash_eq_prefixHash (hlaw : hasher.Lawful) (hn : n < 64) {node : InternalNode}
    (hchildren : ∀ key', Nibbles.new key' n = Nibbles.new key n →
      ((node.children (Nibbles.nibble key' n)).map ChildRef.hash).getD
        (hasher.emptySubtreeHash (256 - 4 * (n + 1))) = prefixHash hasher contents key' (n + 1)) :
    node.hash hasher (4 * n) = prefixHash hasher contents key n := by
  exact hashInner_eq hlaw (by omega) (by simp [childHashes]) none (row_childHashes hn hchildren)

end InternalNode

end Specification

end MerkleTree
