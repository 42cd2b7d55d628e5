/-
Proofs for single keys.

A proof is made after the descent along the key: below its end there are only empty subtrees, except
that a leaf with another key may stand there, and above it the nodes on the way give four hashes
each.  As in `storage/patch.rs`.

* `createProof_spec` — the proof has the hashes next to the path.
-/
import ViaCore.NodeCache
import ViaCore.TreeInsert

namespace MerkleTree

open Nibbles (new nibble)
open FullTree (sibling)

def leadingZeros (x : Key) : ℕ := 256 - x.toNat.size

def findDivergingBit (lhs rhs : Key) : ℕ := leadingZeros (lhs ^^^ rhs)

namespace WorkingPatchSet

/-- The path below the end of the descent. -/
def startPath (hasher : HashTree) (key : Key) : TraverseOutcome → MerklePath
  | .leafMismatch nibbles leaf =>
    -- keys that differ in their first bit part at level 1
    let divergingLevel := findDivergingBit key leaf.fullKey + 1
    let path := MerklePath.new divergingLevel
    let path := path.push hasher (some (leaf.hash hasher divergingLevel))
    (List.range (divergingLevel - (4 * nibbles.nibbleCount + 1))).foldl
      (fun path _ => path.push hasher none) path
  | .leafMatch nibbles _ => .new (nibbles.nibbleCount * 4)
  | .missingChild nibbles => .new (nibbles.nibbleCount * 4)

/-- The loop over the nodes above a position. -/
def climbProof (hasher : HashTree) (rootNibbleCount : ℕ) (nibbles : Nibbles)
    (merklePath : MerklePath) (set : WorkingPatchSet) :
    Outcome DatabaseError (MerklePath × WorkingPatchSet) :=
  match _hsplit : nibbles.splitLast with
  | none => .ok (merklePath, set)
  | some (parentNibbles, lastNibble) =>
    if parentNibbles.nibbleCount < rootNibbleCount then .ok (merklePath, set)
    else
      match set.get parentNibbles with
      | some (.internal parent) =>
        let parentLevel := parentNibbles.nibbleCount * 4
        let (merklePath, parent) := parent.extendMerklePath hasher parentLevel lastNibble merklePath
        climbProof hasher rootNibbleCount parentNibbles merklePath
          (set.insert parentNibbles (.internal parent))
      | _ => .panic
termination_by nibbles.nibbleCount
decreasing_by exact Nibbles.splitLast_lt _hsplit

/-- A Merkle proof for a key, up to the level of `rootNibbleCount`. -/
def createProof (set : WorkingPatchSet) (hasher : HashTree) (key : Key) (parentNibbles : Nibbles)
    (rootNibbleCount : ℕ) :
    Outcome DatabaseError ((Option LeafNode × MerklePath) × WorkingPatchSet) := do
  let outcome ← set.traverse key parentNibbles
  let (merklePath, set) ←
    climbProof hasher rootNibbleCount outcome.position (startPath hasher key outcome) set
  let leaf := match outcome with
    | .leafMatch _ leaf => some leaf
    | _ => none
  .ok ((leaf, merklePath), set)

end WorkingPatchSet

open WorkingPatchSet (startPath climbProof entry_insert_self entry_insert_of_ne)

section Below

variable {hasher : HashTree} {M : Contents} {key : Key} {n d : ℕ}

theorem toNat_of_sibling {i : ℕ} (hd : d < 256) (hi : i / 2 ^ d = sibling key.toNat d) :
    (BitVec.ofNat 256 i).toNat = i := by
  have hroot := FullTree.div_of_sibling hi hd
  rw [Nat.div_eq_of_lt key.isLt, Nat.div_eq_zero_iff_lt (by positivity)] at hroot
  rw [BitVec.toNat_ofNat, Nat.mod_eq_of_lt hroot]

theorem new_of_sibling (hn : n ≤ 64) (hd : d < 256 - 4 * n) {key' : Key}
    (h : key'.toNat / 2 ^ d = sibling key.toNat d) : new key' n = new key n := by
  rw [new_eq_new_iff_prefixIndex hn]
  exact FullTree.div_of_sibling h hd

theorem siblingHash_of_vacant (hlaw : hasher.Lawful) (hd : d < 256)
    (h : ∀ key' : Key, key'.toNat / 2 ^ d = sibling key.toNat d → M key' = none) :
    siblingHash hasher M key d = hasher.emptySubtreeHash d := by
  refine FullTree.hash_vacant hlaw _ hd.le fun i hi => ?_
  rw [leafHash, h _ (by rw [toNat_of_sibling hd hi, hi])]

theorem siblingHash_of_lone (hlaw : hasher.Lawful) (hd : d < 256) {leaf : LeafNode}
    (hleaf : leaf.fullKey.toNat / 2 ^ d = sibling key.toNat d)
    (hself : M leaf.fullKey = some (leaf.valueHash, leaf.leafIndex))
    (hothers : ∀ key' : Key, key'.toNat / 2 ^ d = sibling key.toNat d → key' ≠ leaf.fullKey →
      M key' = none) : leaf.hash hasher (256 - d) = siblingHash hasher M key d := by
  have hhash : leafHash hasher M leaf.fullKey.toNat =
      hasher.hashLeaf leaf.valueHash leaf.leafIndex := by
    have hkey : BitVec.ofNat 256 leaf.fullKey.toNat = leaf.fullKey := by simp
    rw [leafHash, hkey, hself]
  have hvacant : ∀ i, i / 2 ^ d = leaf.fullKey.toNat / 2 ^ d → i ≠ leaf.fullKey.toNat →
      leafHash hasher M i = hasher.emptySubtreeHash 0 := by
    intro i hi hne
    rw [hleaf] at hi
    have htoNat := toNat_of_sibling hd hi
    rw [leafHash, hothers _ (by rw [htoNat, hi]) fun hcon => hne (by rw [← htoNat, hcon])]
  rw [siblingHash, ← hleaf, FullTree.hash_single hlaw _ hd.le hvacant, hhash, LeafNode.hash,
    show 256 - (256 - d) = d by omega]
  rfl

theorem MerklePath.For.push_none {path : MerklePath} {adjacent : ℕ → ValueHash}
    (h : path.For hasher adjacent) (count : ℕ) (hcount : count ≤ path.currentLevel)
    (hvacant : ∀ d, 256 - path.currentLevel ≤ d → d < 256 - path.currentLevel + count →
      adjacent d = hasher.emptySubtreeHash d) :
    ((List.range count).foldl (fun path _ => path.push hasher none) path).For hasher adjacent ∧
      ((List.range count).foldl (fun path _ => path.push hasher none) path).currentLevel
        = path.currentLevel - count := by
  have hle := h.level_le
  induction count with
  | zero => exact ⟨h, rfl⟩
  | succ count ih =>
    obtain ⟨hfor, hlevel⟩ := ih (by omega) fun d hd hlt => hvacant d hd (by omega)
    rw [List.range_succ, List.foldl_append, List.foldl_cons, List.foldl_nil]
    refine ⟨hfor.push (by omega) ?_, ?_⟩
    · rw [hlevel, Option.getD_none, hvacant _ (by omega) (by omega)]
    · rw [MerklePath.currentLevel_push, hlevel]
      omega

theorem exists_diverging (hn : n ≤ 64) {key' : Key} (hpos : new key' n = new key n)
    (hne : key' ≠ key) :
    ∃ d < 256 - 4 * n, findDivergingBit key key' + 1 = 256 - d ∧
      ∀ e, key'.toNat / 2 ^ e = sibling key.toNat e ↔ e = d := by
  have hsize : ∀ e, key'.toNat / 2 ^ e = sibling key.toNat e ↔
      (key.toNat ^^^ key'.toNat).size = e + 1 := fun e => FullTree.div_eq_sibling_iff
  have hpositive : 0 < (key.toNat ^^^ key'.toNat).size := by
    rw [Nat.size_pos, Nat.pos_iff_ne_zero, Ne, Nat.xor_eq_zero_iff]
    exact fun heq => hne (BitVec.eq_of_toNat_eq heq.symm)
  have hbound : (key.toNat ^^^ key'.toNat).size ≤ 256 - 4 * n := by
    rw [Nat.size_le, ← Nat.div_eq_zero_iff_lt (by positivity), ← Nat.shiftRight_eq_div_pow,
      Nat.shiftRight_xor_distrib, Nat.xor_eq_zero_iff, Nat.shiftRight_eq_div_pow,
      Nat.shiftRight_eq_div_pow]
    exact ((new_eq_new_iff_prefixIndex hn).1 hpos).symm
  refine ⟨(key.toNat ^^^ key'.toNat).size - 1, by omega, ?_, fun e => ?_⟩
  · rw [findDivergingBit, leadingZeros, BitVec.toNat_xor]
    omega
  · rw [hsize]
    omega

theorem startPath_spec (hlaw : hasher.Lawful) (hn : n ≤ 64) {found : Option Node}
    (hunder : ∀ key' v, new key' n = new key n →
      (M key' = some v ↔ found = some (.leaf ⟨key', v.1, v.2⟩))) {outcome : TraverseOutcome}
    (houtcome : found = none ∧ outcome = .missingChild (new key n) ∨
      ∃ leaf, found = some (.leaf leaf) ∧ new leaf.fullKey n = new key n ∧
        outcome = if leaf.fullKey = key then .leafMatch (new key n) leaf
          else .leafMismatch (new key n) leaf) :
    (startPath hasher key outcome).For hasher (siblingHash hasher M key) ∧
      (startPath hasher key outcome).currentLevel = 4 * n := by
  -- a sibling is vacant unless the leaf at the end of the descent is in it
  have hvacant : ∀ d < 256 - 4 * n, (∀ leaf, found = some (.leaf leaf) →
      leaf.fullKey.toNat / 2 ^ d ≠ sibling key.toNat d) →
      siblingHash hasher M key d = hasher.emptySubtreeHash d := by
    intro d hd hleaf
    refine siblingHash_of_vacant hlaw (by omega) fun key' hkey' => ?_
    rw [Option.eq_none_iff_forall_ne_some]
    intro v hv
    exact hleaf _ ((hunder key' v (new_of_sibling hn hd hkey')).1 hv) hkey'
  rcases houtcome with ⟨hnone, rfl⟩ | ⟨leaf, hfound, hpos, rfl⟩
  · have hlevel : (new key n).nibbleCount * 4 = 4 * n := Nat.mul_comm _ _
    rw [startPath, hlevel]
    refine ⟨.new (by omega) fun d hd => hvacant d hd fun leaf hleaf => ?_, rfl⟩
    cases hnone.symm.trans hleaf
  · by_cases hkey : leaf.fullKey = key
    · have hlevel : (new key n).nibbleCount * 4 = 4 * n := Nat.mul_comm _ _
      rw [if_pos hkey, startPath, hlevel]
      refine ⟨.new (by omega) fun d hd => hvacant d hd fun leaf' hleaf' => ?_, rfl⟩
      rw [hfound, Option.some.injEq, Node.leaf.injEq] at hleaf'
      rw [← hleaf', hkey]
      exact FullTree.sibling_ne _ _
    · obtain ⟨d, hd, hlevel, hparts⟩ := exists_diverging hn hpos hkey
      have hother : ∀ e < 256 - 4 * n, e ≠ d →
          siblingHash hasher M key e = hasher.emptySubtreeHash e := by
        intro e he hne
        refine hvacant e he fun leaf' hleaf' => ?_
        rw [hfound, Option.some.injEq, Node.leaf.injEq] at hleaf'
        rw [← hleaf', Ne, hparts]
        exact hne
      have hself : M leaf.fullKey = some (leaf.valueHash, leaf.leafIndex) :=
        (hunder leaf.fullKey (leaf.valueHash, leaf.leafIndex) hpos).2 hfound
      have hlone : leaf.hash hasher (256 - d) = siblingHash hasher M key d := by
        refine siblingHash_of_lone hlaw (by omega) ((hparts d).2 rfl) hself fun key' hkey' hne => ?_
        rw [Option.eq_none_iff_forall_ne_some]
        intro v hv
        have hleaf' := (hunder key' v (new_of_sibling hn hd hkey')).1 hv
        rw [hfound, Option.some.injEq, Node.leaf.injEq] at hleaf'
        exact hne (congrArg LeafNode.fullKey hleaf').symm
      have hstart : (MerklePath.new (256 - d)).For hasher (siblingHash hasher M key) :=
        .new (Nat.sub_le _ _) fun e he => hother e (by omega) (by omega)
      have hpush : ((MerklePath.new (256 - d)).push hasher (some (leaf.hash hasher (256 - d)))).For
          hasher (siblingHash hasher M key) := by
        refine hstart.push (show 0 < 256 - d by omega) ?_
        show leaf.hash hasher (256 - d) = siblingHash hasher M key (256 - (256 - d))
        rw [show 256 - (256 - d) = d by omega]
        exact hlone
      have hpushLevel : ((MerklePath.new (256 - d)).push hasher
          (some (leaf.hash hasher (256 - d)))).currentLevel = 256 - d - 1 := rfl
      have hrest := hpush.push_none (256 - d - (4 * n + 1)) (by omega)
        fun e he hlt => hother e (by omega) (by omega)
      rw [if_neg hkey, startPath, hlevel]
      refine ⟨hrest.1, hrest.2.trans ?_⟩
      omega

end Below

/-! ### Above the end of the descent -/

/-- Only the caches of nodes have changed. -/
structure Recached (W W' : WorkingPatchSet) : Prop where
  rootVersion_eq : W'.rootVersion = W.rootVersion
  entry_eq : ∀ q, (W'.entry q).map (fun e => (e.inner.clone, e.prevVersion))
    = (W.entry q).map fun e => (e.inner.clone, e.prevVersion)

/-- From some level on, the references and the caches in a working patch set agree with the
specification. -/
structure HashedFrom (hasher : HashTree) (M : Contents) (lo : ℕ) (W : WorkingPatchSet) : Prop where
  refs : ∀ k n node, lo ≤ n → n < 64 → W.get (new k n) = some (.internal node) →
    node.Right hasher M k n
  cache : ∀ k n node cache, lo ≤ n → n < 64 → W.get (new k n) = some (.internal node) →
    node.cache = some cache → cache.Right hasher M k n

section Above

variable {hasher : HashTree} {M : Contents} {W W' W'' : WorkingPatchSet} {key : Key} {lo n : ℕ}

theorem Recached.refl (W : WorkingPatchSet) : Recached W W := ⟨rfl, fun _ => rfl⟩

theorem Recached.trans (h : Recached W W') (h' : Recached W' W'') : Recached W W'' :=
  ⟨h'.rootVersion_eq.trans h.rootVersion_eq, fun q => (h'.entry_eq q).trans (h.entry_eq q)⟩

theorem Recached.get_eq (h : Recached W W') (q : Nibbles) :
    (W'.get q).map Node.clone = (W.get q).map Node.clone := by
  have hmap := congrArg (Option.map Prod.fst) (h.entry_eq q)
  rw [Option.map_map, Option.map_map] at hmap
  rw [WorkingPatchSet.get, WorkingPatchSet.get, Option.map_map, Option.map_map]
  exact hmap

variable {node : InternalNode}

theorem Recached.get_internal (h : Recached W W') {q : Nibbles}
    (hnode : W.get q = some (.internal node)) :
    ∃ cache, W'.get q = some (.internal { node with cache }) := by
  have hget := h.get_eq q
  rw [hnode, Option.map_some, Option.map_eq_some_iff] at hget
  obtain ⟨node', hnode', hclone⟩ := hget
  cases node' with
  | leaf leaf => cases hclone
  | internal node' =>
    have hnodes : node'.clone = node.clone := Node.internal.inj hclone
    have hchildren : node'.children = node.children := by
      show node'.clone.children = node.clone.children
      rw [hnodes]
    exact ⟨node'.cache, by rw [hnode', ← hchildren]⟩

theorem recached_insert {q : Nibbles}
    (hnode : W.get q = some (.internal node)) (cache : Option InternalNodeCache) :
    Recached W (W.insert q (.internal { node with cache })) := by
  refine ⟨rfl, fun q' => ?_⟩
  by_cases hq : q' = q
  · subst hq
    obtain ⟨e, he, hinner⟩ := WorkingPatchSet.get_eq_some.1 hnode
    rw [entry_insert_self, he, Option.map_some, Option.map_some, hinner]
    rfl
  · rw [entry_insert_of_ne _ _ hq]

variable {cache : InternalNodeCache}

theorem InternalNodeCache.Right.congr {key' : Key}
    (h : cache.Right hasher M key n) (hn : n ≤ 64) (hpos : new key' n = new key n) :
    cache.Right hasher M key' n := by
  have hindex := (new_eq_new_iff_prefixIndex hn).1 hpos
  exact ⟨hindex ▸ h.level1, hindex ▸ h.level2, hindex ▸ h.level3⟩

theorem HashedFrom.insert (h : HashedFrom hasher M lo W) (hlo : lo ≤ n)
    (hn : n < 64) (hnode : W.get (new key n) = some (.internal node))
    (hcache : cache.Right hasher M key n) :
    HashedFrom hasher M lo
      (W.insert (new key n) (.internal { node with cache := some cache })) := by
  have hself : (W.insert (new key n) (.internal { node with cache := some cache })).get (new key n)
      = some (.internal { node with cache := some cache }) := by
    rw [WorkingPatchSet.get, entry_insert_self]
    rfl
  have hother : ∀ q, q ≠ new key n →
      (W.insert (new key n) (.internal { node with cache := some cache })).get q = W.get q := by
    intro q hq
    rw [WorkingPatchSet.get, entry_insert_of_ne _ _ hq]
    rfl
  -- the node keeps its references, and the new cache is right
  constructor
  · intro k m node' hm hm64 hnode'
    by_cases hq : new k m = new key n
    · rw [hq, hself, Option.some.injEq, Node.internal.injEq] at hnode'
      subst hnode'
      obtain rfl := new_level hq
      have hhere : W.get (new k m) = some (.internal node) := by rw [hq, hnode]
      exact h.refs k m node hm hm64 hhere
    · rw [hother _ hq] at hnode'
      exact h.refs k m node' hm hm64 hnode'
  · intro k m node' cache' hm hm64 hnode' hcache'
    by_cases hq : new k m = new key n
    · rw [hq, hself, Option.some.injEq, Node.internal.injEq] at hnode'
      subst hnode'
      obtain rfl := new_level hq
      cases hcache'
      exact hcache.congr hm64.le hq
    · rw [hother _ hq] at hnode'
      exact h.cache k m node' cache' hm hm64 hnode' hcache'

theorem climbProof_spec (hlaw : hasher.Lawful) (h : HashedFrom hasher M lo W) (hlo : lo ≤ n)
    (hn : n ≤ 64) (habove : ∀ j, lo ≤ j → j < n → ∃ node, W.get (new key j) = some (.internal node))
    {path : MerklePath} (hpath : path.For hasher (siblingHash hasher M key))
    (hlevel : path.currentLevel = 4 * n) :
    ∃ path' W', climbProof hasher lo (new key n) path W = .ok (path', W') ∧
      path'.For hasher (siblingHash hasher M key) ∧ path'.currentLevel = 4 * lo ∧
      Recached W W' ∧ HashedFrom hasher M lo W' := by
  -- up along the path; each node adds the hashes of four levels
  induction n generalizing path W with
  | zero =>
    obtain rfl : lo = 0 := by omega
    refine ⟨path, W, ?_, hpath, hlevel, .refl W, h⟩
    rw [climbProof]
    split
    · rfl
    · rename_i hsplit
      cases hsplit
  | succ n ih =>
    have hsplit : (new key (n + 1)).splitLast = some (new key n, nibble key n) :=
      Nibbles.splitLast_new key (by omega)
    have hstep : climbProof hasher lo (new key (n + 1)) path W =
        if n < lo then .ok (path, W)
        else match W.get (new key n) with
          | some (.internal parent) =>
            climbProof hasher lo (new key n)
              (parent.extendMerklePath hasher (n * 4) (nibble key n) path).1
              (W.insert (new key n) (.internal
                (parent.extendMerklePath hasher (n * 4) (nibble key n) path).2))
          | _ => .panic := by
      rw [climbProof]
      split
      · rename_i hnone
        cases hsplit.symm.trans hnone
      · rename_i parent last hsome
        rw [hsplit, Option.some.injEq, Prod.mk.injEq] at hsome
        obtain ⟨rfl, rfl⟩ := hsome
        rfl
    rw [hstep]
    rcases Nat.lt_or_ge n lo with hlt | hge
    · obtain rfl : lo = n + 1 := by omega
      exact ⟨path, W, if_pos hlt, hpath, hlevel, .refl W, h⟩
    · obtain ⟨node, hnode⟩ := habove n hge (Nat.lt_succ_self n)
      obtain ⟨path₁, cache, hextend, hpath₁, hlevel₁, hcache⟩ :=
        InternalNode.extendMerklePath_spec hlaw (by omega) (h.refs key n node hge (by omega) hnode)
          (fun cache hcache => h.cache key n node cache hge (by omega) hnode hcache) hpath hlevel
      -- the node was put back with its cache: later proofs use it
      have hrecached := recached_insert hnode (some cache)
      obtain ⟨path', W', hclimb, hpath', hlevel', hrecached', hhashed'⟩ :=
        ih (h.insert hge (by omega) hnode hcache) hge (by omega) (fun j hj hjn => by
          obtain ⟨node', hnode'⟩ := habove j hj (by omega)
          obtain ⟨c, hc⟩ := hrecached.get_internal hnode'
          exact ⟨_, hc⟩) hpath₁ hlevel₁
      refine ⟨path', W', ?_, hpath', hlevel', hrecached.trans hrecached', hhashed'⟩
      rw [if_neg (Nat.not_lt.2 hge), hnode]
      simp only
      rw [Nat.mul_comm n 4, hextend]
      exact hclimb

/-- **A proof has the hashes next to the path.**  The descent begins somewhere on the way to the end
of the path, and the end holds what has been written below it. -/
theorem createProof_spec (hlaw : hasher.Lawful) (h : HashedFrom hasher M lo W) (hlo : lo ≤ n)
    (hn : n ≤ 64) (habove : ∀ j, lo ≤ j → j < n → ∃ node, W.get (new key j) = some (.internal node))
    (hstop : ∀ node, W.get (new key n) ≠ some (.internal node))
    (hunder : ∀ key' v, new key' n = new key n →
      (M key' = some v ↔ W.get (new key n) = some (.leaf ⟨key', v.1, v.2⟩)))
    (hpos : ∀ leaf, W.get (new key n) = some (.leaf leaf) → new leaf.fullKey n = new key n)
    {m : ℕ} (hlom : lo ≤ m) (hm : m ≤ n) :
    ∃ path W', W.createProof hasher key (new key m) lo =
        .ok (((M key).map fun v => ⟨key, v.1, v.2⟩, path), W') ∧
      path.For hasher (siblingHash hasher M key) ∧ path.currentLevel = 4 * lo ∧
      Recached W W' ∧ HashedFrom hasher M lo W' := by
  have htraverse : W.traverse key (new key m) = W.traverseFrom key n :=
    WorkingPatchSet.traverseFrom_eq hm hn fun j hj hjn => habove j (hlom.trans hj) hjn
  -- the outcome of the descent
  obtain ⟨outcome, hdescent, hposition, hcases, hleaf⟩ : ∃ outcome,
      W.traverseFrom key n = .ok outcome ∧ outcome.position = new key n ∧
      (W.get (new key n) = none ∧ outcome = .missingChild (new key n) ∨
        ∃ leaf, W.get (new key n) = some (.leaf leaf) ∧ new leaf.fullKey n = new key n ∧
          outcome = if leaf.fullKey = key then .leafMatch (new key n) leaf
            else .leafMismatch (new key n) leaf) ∧
      (match outcome with
        | .leafMatch _ leaf => some leaf
        | _ => none) = (M key).map fun v => (⟨key, v.1, v.2⟩ : LeafNode) := by
    cases hget : W.get (new key n) with
    | none =>
      have hnone : M key = none := by
        rw [Option.eq_none_iff_forall_ne_some]
        intro v hv
        rw [hunder key v rfl, hget] at hv
        cases hv
      exact ⟨_, WorkingPatchSet.traverseFrom_none hn hget, rfl, .inl ⟨rfl, rfl⟩, by rw [hnone]; rfl⟩
    | some node =>
      cases node with
      | internal node => exact absurd hget (hstop node)
      | leaf leaf =>
        refine ⟨_, WorkingPatchSet.traverseFrom_leaf hn hget, ?_,
          .inr ⟨leaf, rfl, hpos leaf hget, rfl⟩, ?_⟩
        · split <;> rfl
        · by_cases hkey : leaf.fullKey = key
          · have hsome : M key = some (leaf.valueHash, leaf.leafIndex) := by
              rw [hunder key _ rfl, hget, ← hkey]
            rw [if_pos hkey, hsome, Option.map_some, ← hkey]
          · have hnone : M key = none := by
              rw [Option.eq_none_iff_forall_ne_some]
              intro v hv
              rw [hunder key v rfl, hget, Option.some.injEq, Node.leaf.injEq] at hv
              exact hkey (congrArg LeafNode.fullKey hv)
            rw [if_neg hkey, hnone]
            rfl
  obtain ⟨hstart, hlevel⟩ := startPath_spec hlaw hn hunder hcases
  obtain ⟨path, W', hclimb, hpath, hend, hrecached, hhashed⟩ :=
    climbProof_spec hlaw h hlo hn habove hstart hlevel
  refine ⟨path, W', ?_, hpath, hend, hrecached, hhashed⟩
  rw [WorkingPatchSet.createProof, htraverse, hdescent, Outcome.ok_bind, hposition, hclimb,
    Outcome.ok_bind, ← hleaf]

end Above

end MerkleTree
