/-
Merkle paths, and caches of hashes inside of nodes.

An internal node stands for four binary levels.  When proofs are made, the node remembers the hashes
of the levels between itself and its children, and the hashes next to a path are read off.  As in
`hasher/nodes.rs`.

* `InternalNode.extendMerklePath_spec` — the hashes next to a path.
-/
import ViaCore.MerkleNodes
import ViaCore.TreePath

namespace MerkleTree

open Nibbles (nibble)

open FullTree (sibling)

def siblingHash (hasher : HashTree) (M : Contents) (key : Key) (d : ℕ) : ValueHash :=
  FullTree.hash hasher.hashBranch (leafHash hasher M) d (sibling key.toNat d)

/-! ### Paths -/

/-- A Merkle path under construction: the hashes below the current level. -/
structure MerklePath where
  currentLevel : ℕ
  hashes : List ValueHash
  deriving DecidableEq

namespace MerklePath

def new (level : ℕ) : MerklePath := ⟨level, []⟩

/-- Hashes of empty subtrees are skipped as long as there is no other one. -/
def push (path : MerklePath) (hasher : HashTree) (maybeHash : Option ValueHash) : MerklePath where
  currentLevel := path.currentLevel - 1
  hashes :=
    match maybeHash with
    | some hash => path.hashes ++ [hash]
    | none =>
      if path.hashes.isEmpty then path.hashes
      else path.hashes ++ [hasher.emptySubtreeHash (256 - path.currentLevel)]

@[simp] theorem currentLevel_push (path : MerklePath) (hasher : HashTree)
    (maybeHash : Option ValueHash) :
    (path.push hasher maybeHash).currentLevel = path.currentLevel - 1 := rfl

/-- The path has the given hashes at the heights below its level, except that those of empty
subtrees may be left out at the bottom. -/
structure For (path : MerklePath) (hasher : HashTree) (adjacent : ℕ → ValueHash) : Prop where
  level_le : path.currentLevel ≤ 256
  length_le : path.hashes.length ≤ 256 - path.currentLevel
  vacant : ∀ d, d + path.hashes.length < 256 - path.currentLevel →
    adjacent d = hasher.emptySubtreeHash d
  hash_eq : ∀ j < path.hashes.length, path.hashes[j]? =
    some (adjacent (256 - path.currentLevel - path.hashes.length + j))

variable {path : MerklePath} {hasher : HashTree} {adjacent adjacent' : ℕ → ValueHash}

theorem For.new {level : ℕ} (hlevel : level ≤ 256)
    (h : ∀ d < 256 - level, adjacent d = hasher.emptySubtreeHash d) :
    (MerklePath.new level).For hasher adjacent where
  level_le := hlevel
  length_le := Nat.zero_le _
  vacant := h
  hash_eq := fun j hj => absurd hj (Nat.not_lt_zero j)

theorem For.push (h : path.For hasher adjacent) (hlevel : 0 < path.currentLevel)
    {maybeHash : Option ValueHash}
    (hhash : maybeHash.getD (hasher.emptySubtreeHash (256 - path.currentLevel))
      = adjacent (256 - path.currentLevel)) : (path.push hasher maybeHash).For hasher adjacent := by
  obtain ⟨level, hashes⟩ := path
  obtain ⟨hle, hlen, hvacant, heq⟩ := h
  simp only at hle hlen hvacant heq hlevel hhash
  -- a hash at the end of the list is the one for the next height
  have happend : ∀ hash, hash = adjacent (256 - level) →
      (⟨level - 1, hashes ++ [hash]⟩ : MerklePath).For hasher adjacent := by
    intro hash hash_eq
    refine ⟨by simp only; omega, by simp only [List.length_append, List.length_singleton]; omega,
      fun d hd => ?_, fun j hj => ?_⟩
    · simp only [List.length_append, List.length_singleton] at hd
      exact hvacant d (by omega)
    · simp only [List.length_append, List.length_singleton] at hj ⊢
      have hstart : 256 - (level - 1) - (hashes.length + 1) = 256 - level - hashes.length := by
        omega
      rw [hstart]
      rcases Nat.lt_succ_iff_lt_or_eq.1 hj with hlt | rfl
      · rw [List.getElem?_append_left hlt, heq j hlt]
      · rw [List.getElem?_append_right le_rfl, Nat.sub_self, hash_eq]
        exact congrArg (fun d => some (adjacent d)) (by omega)
  cases maybeHash with
  | some hash => exact happend hash hhash
  | none =>
    by_cases hempty : hashes = []
    · subst hempty
      refine ⟨?_, ?_, fun d hd => ?_, fun j hj => absurd hj (Nat.not_lt_zero j)⟩
      · simp only [MerklePath.push]
        omega
      · exact Nat.zero_le _
      · replace hd : d < 256 - (level - 1) := hd
        rcases Nat.lt_or_ge d (256 - level) with hlt | hge
        · exact hvacant d hlt
        · obtain rfl : d = 256 - level := by omega
          exact hhash.symm
    · have hnot : ¬ hashes.isEmpty = true := by rwa [List.isEmpty_iff]
      have hpush : MerklePath.push ⟨level, hashes⟩ hasher none
          = ⟨level - 1, hashes ++ [hasher.emptySubtreeHash (256 - level)]⟩ := by
        simp only [MerklePath.push, if_neg hnot]
      rw [hpush]
      exact happend _ hhash

end MerklePath

namespace InternalNodeCache

def extendMerklePath (cache : InternalNodeCache) (hasher : HashTree) (merklePath : MerklePath)
    (nibble : Nibble) : MerklePath :=
  let idx := nibble.toNat / 2
  let merklePath := merklePath.push hasher (cache.level3.getD (idx ^^^ 1) none)
  let idx := idx / 2
  let merklePath := merklePath.push hasher (cache.level2.getD (idx ^^^ 1) none)
  let idx := idx / 2
  merklePath.push hasher (cache.level1.getD (idx ^^^ 1) none)

end InternalNodeCache

namespace InternalNode

def extendMerklePath (node : InternalNode) (hasher : HashTree) (level : ℕ) (nibble : Nibble)
    (merklePath : MerklePath) : MerklePath × InternalNode :=
  let adjacentHash := (node.childRef (nibble ^^^ 1)).map ChildRef.hash
  let merklePath := merklePath.push hasher adjacentHash
  let cache := match node.cache with
    | some cache => cache
    | none => (hashInner node.childHashes hasher level (some .empty)).2.getD .empty
  (cache.extendMerklePath hasher merklePath nibble, { node with cache := some cache })

end InternalNode

section Rows

variable {hasher : HashTree} {M M' : Contents} {key : Key} {n : ℕ}

abbrev SubtreeRow (hasher : HashTree) (M : Contents) (h first width : ℕ)
    (row : List (Option ValueHash)) : Prop :=
  FullTree.Row hasher.hashBranch (leafHash hasher M) hasher.emptySubtreeHash h first width row

/-- The cache agrees with the specification, for a node with `n` nibbles of the key. -/
structure InternalNodeCache.Right (cache : InternalNodeCache) (hasher : HashTree) (M : Contents)
    (key : Key) (n : ℕ) : Prop where
  level1 : SubtreeRow hasher M (256 - (4 * n + 1)) (2 * prefixIndex key n) 2 cache.level1
  level2 : SubtreeRow hasher M (256 - (4 * n + 2)) (4 * prefixIndex key n) 4 cache.level2
  level3 : SubtreeRow hasher M (256 - (4 * n + 3)) (8 * prefixIndex key n) 8 cache.level3

def InternalNode.Right (node : InternalNode) (hasher : HashTree) (M : Contents) (key : Key)
    (n : ℕ) : Prop :=
  ∀ key', Nibbles.new key' n = Nibbles.new key n →
    ((node.children (nibble key' n)).map ChildRef.hash).getD
      (hasher.emptySubtreeHash (256 - 4 * (n + 1))) = prefixHash hasher M key' (n + 1)

theorem InternalNode.hashInner_cache (hlaw : hasher.Lawful) (hn : n < 64)
    {row : List (Option ValueHash)} (hlen : row.length = 16) (cache : InternalNodeCache)
    (hrow : SubtreeRow hasher M (256 - (4 * n + 4)) (16 * prefixIndex key n) 16 row) :
    ∃ cache', (InternalNode.hashInner row hasher (4 * n) (some cache)).2 = some cache'
      ∧ cache'.Right hasher M key n := by
  obtain ⟨d, hd⟩ : ∃ d, 4 * n + 4 + d = 256 := ⟨256 - (4 * n + 4), by omega⟩
  have hd4 : 256 - (4 * n + 4) = d := by omega
  have hd3 : 256 - (4 * n + 3) = d + 1 := by omega
  have hd2 : 256 - (4 * n + 2) = d + 2 := by omega
  have hd1 : 256 - (4 * n + 1) = d + 3 := by omega
  rw [hd4, show 16 * prefixIndex key n = 2 * (8 * prefixIndex key n) by ring,
    show 16 = 2 * 8 by rfl] at hrow
  -- sixteen, eight, four, two: the rows that are kept
  have h8 := row_mergeLevel hlaw (by omega) hrow
  have h8' := h8
  rw [show 8 * prefixIndex key n = 2 * (4 * prefixIndex key n) by ring,
    show 8 = 2 * 4 by rfl] at h8'
  have h4 := row_mergeLevel hlaw (by omega) h8'
  have h4' := h4
  rw [show 4 * prefixIndex key n = 2 * (2 * prefixIndex key n) by ring,
    show 4 = 2 * 2 by rfl] at h4'
  have h2 := row_mergeLevel hlaw (by omega) h4'
  rw [hashInner, hlen]
  simp only [List.foldl_cons, List.foldl_nil, hd4, hd3, hd2, hd1]
  refine ⟨_, rfl, ?_, ?_, ?_⟩
  · rw [hd1]
    exact FullTree.Row.take h2
  · rw [hd2]
    exact FullTree.Row.take h4
  · rw [hd3]
    exact FullTree.Row.take h8

theorem div_of_nibble (key : Key) (hn : n < 64) :
    key.toNat / 2 ^ (256 - (4 * n + 4)) = 16 * prefixIndex key n + (nibble key n).toNat := by
  rw [← prefixIndex_succ key hn]
  rfl

theorem div_of_nibble_half {d m : ℕ} {a : ℕ} (hd : key.toNat / 2 ^ d = 2 * a + m) :
    key.toNat / 2 ^ (d + 1) = a + m / 2 := by
  rw [FullTree.div_two_pow_succ, hd]
  omega

theorem siblingHash_of_row {h a width j : ℕ} {row : List (Option ValueHash)}
    (hrow : SubtreeRow hasher M h (2 * a) (2 * width) row) (hdiv : key.toNat / 2 ^ h = 2 * a + j)
    (hj : j < 2 * width) :
    (row.getD (j ^^^ 1) none).getD (hasher.emptySubtreeHash h) = siblingHash hasher M key h := by
  have hlt : j ^^^ 1 < 2 * width := by
    rw [FullTree.xor_one]
    split <;> omega
  rw [siblingHash, FullTree.sibling_eq hdiv]
  exact hrow.2 _ hlt

theorem InternalNodeCache.Right.extendMerklePath {cache : InternalNodeCache}
    (hcache : cache.Right hasher M key n) (hn : n < 64) {path : MerklePath}
    (hpath : path.For hasher (siblingHash hasher M key)) (hlevel : path.currentLevel = 4 * n + 3) :
    (cache.extendMerklePath hasher path (nibble key n)).For hasher (siblingHash hasher M key)
      ∧ (cache.extendMerklePath hasher path (nibble key n)).currentLevel = 4 * n := by
  have hidx := (nibble key n).isLt
  obtain ⟨d, hd⟩ : ∃ d, 4 * n + 4 + d = 256 := ⟨256 - (4 * n + 4), by omega⟩
  have hd3 : 256 - (4 * n + 3) = d + 1 := by omega
  have hd2 : 256 - (4 * n + 2) = d + 2 := by omega
  have hd1 : 256 - (4 * n + 1) = d + 3 := by omega
  have hdiv4 := div_of_nibble key hn
  rw [show 256 - (4 * n + 4) = d by omega,
    show 16 * prefixIndex key n = 2 * (8 * prefixIndex key n) by ring] at hdiv4
  have hdiv3 := div_of_nibble_half hdiv4
  rw [show 8 * prefixIndex key n = 2 * (4 * prefixIndex key n) by ring] at hdiv3
  have hdiv2 := div_of_nibble_half hdiv3
  rw [show 4 * prefixIndex key n = 2 * (2 * prefixIndex key n) by ring] at hdiv2
  have hdiv1 := div_of_nibble_half hdiv2
  have hrow3 : SubtreeRow hasher M (d + 1) (2 * (4 * prefixIndex key n)) (2 * 4) cache.level3 := by
    rw [← hd3, show 2 * (4 * prefixIndex key n) = 8 * prefixIndex key n by ring]
    exact hcache.level3
  have hrow2 : SubtreeRow hasher M (d + 2) (2 * (2 * prefixIndex key n)) (2 * 2) cache.level2 := by
    rw [← hd2, show 2 * (2 * prefixIndex key n) = 4 * prefixIndex key n by ring]
    exact hcache.level2
  have hrow1 : SubtreeRow hasher M (d + 3) (2 * prefixIndex key n) (2 * 1) cache.level1 := by
    rw [← hd1]
    exact hcache.level1
  -- the three pushes, from the lowest level up
  set path3 := path.push hasher (cache.level3.getD ((nibble key n).toNat / 2 ^^^ 1) none)
    with hpath3
  have h3 : path3.For hasher (siblingHash hasher M key) := by
    refine hpath.push (by omega) ?_
    rw [hlevel, hd3]
    exact siblingHash_of_row hrow3 hdiv3 (by omega)
  have hlevel3 : path3.currentLevel = 4 * n + 2 := by
    rw [hpath3, MerklePath.currentLevel_push, hlevel]
    rfl
  set path2 := path3.push hasher (cache.level2.getD ((nibble key n).toNat / 2 / 2 ^^^ 1) none)
    with hpath2
  have h2 : path2.For hasher (siblingHash hasher M key) := by
    refine h3.push (by omega) ?_
    rw [hlevel3, hd2]
    exact siblingHash_of_row hrow2 hdiv2 (by omega)
  have hlevel2 : path2.currentLevel = 4 * n + 1 := by
    rw [hpath2, MerklePath.currentLevel_push, hlevel3]
    rfl
  have h1 : (path2.push hasher (cache.level1.getD
      ((nibble key n).toNat / 2 / 2 / 2 ^^^ 1) none)).For hasher
        (siblingHash hasher M key) := by
    refine h2.push (by omega) ?_
    rw [hlevel2, hd1]
    exact siblingHash_of_row hrow1 hdiv1 (by omega)
  refine ⟨h1, ?_⟩
  exact (congrArg (· - 1) hlevel2).trans (Nat.add_sub_cancel _ 1)

namespace InternalNode

variable {node : InternalNode}

theorem Right.row (h : node.Right hasher M key n) (hn : n < 64) :
    SubtreeRow hasher M (256 - (4 * n + 4)) (16 * prefixIndex key n) 16 node.childHashes :=
  row_childHashes hn h

theorem getD_childHashes (node : InternalNode) {i : ℕ} (hi : i < 16) :
    node.childHashes.getD i none = (node.children (BitVec.ofNat 4 i)).map ChildRef.hash := by
  rw [childHashes, List.getD_eq_getElem?_getD, List.getElem?_map, List.getElem?_range hi]
  rfl

theorem extendMerklePath_spec (hlaw : hasher.Lawful) (hn : n < 64) (h : node.Right hasher M key n)
    (hcache : ∀ cache, node.cache = some cache → cache.Right hasher M key n) {path : MerklePath}
    (hpath : path.For hasher (siblingHash hasher M key))
    (hlevel : path.currentLevel = 4 * (n + 1)) :
    ∃ path' cache, node.extendMerklePath hasher (4 * n) (nibble key n) path
        = (path', { node with cache := some cache })
      ∧ path'.For hasher (siblingHash hasher M key) ∧ path'.currentLevel = 4 * n
      ∧ cache.Right hasher M key n := by
  have hidx := (nibble key n).isLt
  -- the neighbour among the children
  have hpush : (path.push hasher
      ((node.childRef (nibble key n ^^^ 1)).map ChildRef.hash)).For hasher
        (siblingHash hasher M key) := by
    refine hpath.push (by omega) ?_
    have hlt : (nibble key n).toNat ^^^ 1 < 16 := by
      rw [FullTree.xor_one]
      split <;> omega
    have hnibble : nibble key n ^^^ 1
        = BitVec.ofNat 4 ((nibble key n).toNat ^^^ 1) := by
      apply BitVec.eq_of_toNat_eq
      rw [BitVec.toNat_xor, BitVec.toNat_ofNat, Nat.mod_eq_of_lt (by omega)]
      rfl
    have hdiv := div_of_nibble key hn
    have hrow := h.row hn
    rw [show 16 * prefixIndex key n = 2 * (8 * prefixIndex key n) by ring] at hdiv hrow
    rw [show 16 = 2 * 8 by rfl] at hrow
    rw [hnibble, childRef, ← getD_childHashes node hlt, hlevel,
      show 4 * (n + 1) = 4 * n + 4 by ring]
    exact siblingHash_of_row hrow hdiv (by omega)
  have hlevel' : (path.push hasher ((node.childRef (nibble key n ^^^ 1)).map
      ChildRef.hash)).currentLevel = 4 * n + 3 := by
    rw [MerklePath.currentLevel_push, hlevel]
    omega
  obtain ⟨cache, hcache_eq, hright⟩ : ∃ cache, (match node.cache with
      | some cache => cache
      | none => (hashInner node.childHashes hasher (4 * n) (some .empty)).2.getD .empty) = cache
      ∧ cache.Right hasher M key n := by
    cases hc : node.cache with
    | some cache => exact ⟨cache, rfl, hcache cache hc⟩
    | none =>
      obtain ⟨cache, hfilled, hright⟩ := hashInner_cache hlaw hn (by simp [childHashes]) .empty
        (h.row hn)
      exact ⟨cache, by rw [hfilled]; rfl, hright⟩
  obtain ⟨hfor, hend⟩ := hright.extendMerklePath hn hpush hlevel'
  refine ⟨_, cache, ?_, hfor, hend, hright⟩
  rw [extendMerklePath, hcache_eq]

end InternalNode

end Rows

end MerkleTree
