/-
Proofs of entries.

A proof of an entry is a list of hashes next to the path from its leaf to the root, from the bottom
up.  Hashes of empty subtrees at the bottom are left out: a path that is shorter than the tree is
deep is filled up with them.  The code computes how many are left out by a subtraction, which wraps
around for a path that is longer than the tree is deep.

* `verify_sound_iff` — which proofs are decided correctly.
-/
import ViaCore.TreeExtend
import ViaCore.TreePath

namespace MerkleTree

open FullTree (climb sibling orient)

namespace TreeEntry

def empty (key : Key) : TreeEntry := ⟨key, 0, 0⟩

def isEmpty (entry : TreeEntry) : Bool := entry.leafIndex = 0 && entry.value = 0

end TreeEntry

def Contents.entry (M : Contents) (key : Key) : TreeEntry :=
  match M key with
  | some (value, leafIndex) => ⟨key, value, leafIndex⟩
  | none => .empty key

theorem Contents.entry_key (M : Contents) (key : Key) : (M.entry key).key = key := by
  rw [Contents.entry]
  cases M key with
  | none => rfl
  | some v => rfl

section Paths

variable {ε : Type} (hasher : HashTree) (path : List ValueHash)

/-- `usize` subtraction of the length of the path from the depth of the tree, which wraps around. -/
def emptyHashCount : ℕ := (256 - UInt64.ofNat path.length).toNat

/-- The item number `depth` of the iterator that extends a path to the depth of the tree. -/
def extendMerklePath (depth : ℕ) : Option ValueHash :=
  if depth < emptyHashCount path then some (hasher.emptySubtreeHash depth)
  else path[depth - emptyHashCount path]?

/-- The loop of `fold_merkle_path`, from some depth on. -/
def foldMerklePathFrom (key : Key) (depth : ℕ) (hash : ValueHash) : Outcome ε ValueHash :=
  match extendMerklePath hasher path depth with
  | none => .ok hash
  | some adjacentHash =>
    if depth < 256 then
      foldMerklePathFrom key (depth + 1)
        (if key.bit depth then hasher.hashBranch adjacentHash hash
          else hasher.hashBranch hash adjacentHash)
    -- `key.bit(256)` is out of bounds
    else .panic
termination_by 256 - depth

def foldMerklePath (entry : TreeEntry) : Outcome ε ValueHash :=
  foldMerklePathFrom hasher path entry.key 0 (hasher.hashLeaf entry.value entry.leafIndex)

def adjacentHash (depth : ℕ) : ValueHash :=
  if depth < 256 - path.length then hasher.emptySubtreeHash depth
  else path.getD (depth - (256 - path.length)) 0

variable {hasher path} {key : Key} {hash : ValueHash} {depth : ℕ}

theorem emptyHashCount_of_le (hpath : path.length ≤ 256) :
    emptyHashCount path = 256 - path.length := by
  have hlength : (UInt64.ofNat path.length).toNat = path.length := by
    rw [UInt64.toNat_ofNat']
    exact Nat.mod_eq_of_lt (by omega)
  have hle : UInt64.ofNat path.length ≤ 256 := by
    rw [UInt64.le_iff_toNat_le, hlength]
    exact hpath
  rw [emptyHashCount, UInt64.toNat_sub_of_le _ _ hle, hlength]
  rfl

theorem extendMerklePath_of_lt (hpath : path.length ≤ 256) (hdepth : depth < 256) :
    extendMerklePath hasher path depth = some (adjacentHash hasher path depth) := by
  rw [extendMerklePath, adjacentHash, emptyHashCount_of_le hpath]
  split
  · rfl
  · rw [List.getD_eq_getElem?_getD, List.getElem?_eq_getElem (by omega), Option.getD_some]

theorem extendMerklePath_of_ge (hpath : path.length ≤ 256) (hdepth : 256 ≤ depth) :
    extendMerklePath hasher path depth = none := by
  rw [extendMerklePath, emptyHashCount_of_le hpath, if_neg (by omega)]
  exact List.getElem?_eq_none (by omega)

variable (hasher) in
theorem extendMerklePath_of_long (hpath : 256 < path.length) (hdepth : depth ≤ 256) :
    ∃ adjacent, extendMerklePath hasher path depth = some adjacent := by
  rw [extendMerklePath]
  split
  · exact ⟨_, rfl⟩
  · exact ⟨_, List.getElem?_eq_getElem (by omega)⟩

theorem hashBranch_orient (bit : Bool) (adjacent x : ValueHash) :
    (if bit then hasher.hashBranch adjacent x else hasher.hashBranch x adjacent)
      = hasher.hashBranch (orient bit adjacent x).1 (orient bit adjacent x).2 := by
  cases bit <;> rfl

theorem foldMerklePathFrom_climb (hpath : path.length ≤ 256) (x : ValueHash)
    (hdepth : depth ≤ 256) :
    foldMerklePathFrom (ε := ε) hasher path key depth
        (climb hasher.hashBranch key.toNat (adjacentHash hasher path) x depth)
      = .ok (climb hasher.hashBranch key.toNat (adjacentHash hasher path) x 256) := by
  induction hdepth using Nat.decreasingInduction with
  | self => rw [foldMerklePathFrom, extendMerklePath_of_ge hpath le_rfl]
  | of_succ depth hlt ih =>
    have hbit : key.bit depth = key.toNat.testBit depth := (BitVec.testBit_toNat key).symm
    rw [foldMerklePathFrom, extendMerklePath_of_lt hpath hlt]
    simp only [hlt, if_true]
    rw [hbit, hashBranch_orient]
    exact ih

/-- **The fold is a climb** through the tree, with the filled-up path next to it. -/
theorem foldMerklePath_eq_climb (hpath : path.length ≤ 256) (entry : TreeEntry) :
    foldMerklePath (ε := ε) hasher path entry
      = .ok (climb hasher.hashBranch entry.key.toNat (adjacentHash hasher path)
          (hasher.hashLeaf entry.value entry.leafIndex) 256) :=
  foldMerklePathFrom_climb hpath _ (Nat.zero_le _)

theorem foldMerklePathFrom_panics (hpath : 256 < path.length) (hdepth : depth ≤ 256) :
    foldMerklePathFrom (ε := ε) hasher path key depth hash = .panic := by
  obtain ⟨adjacent, hadjacent⟩ := extendMerklePath_of_long hasher hpath hdepth
  induction hdepth using Nat.decreasingInduction generalizing hash adjacent with
  | self =>
    rw [foldMerklePathFrom, hadjacent]
    rfl
  | of_succ depth hlt ih =>
    obtain ⟨above, habove⟩ := extendMerklePath_of_long hasher hpath hlt
    rw [foldMerklePathFrom, hadjacent]
    simp only [hlt, if_true]
    exact ih above habove

theorem foldMerklePath_panics (hpath : 256 < path.length) (entry : TreeEntry) :
    foldMerklePath (ε := ε) hasher path entry = .panic :=
  foldMerklePathFrom_panics hpath (Nat.zero_le _)

end Paths

structure TreeEntryWithProof where
  base : TreeEntry
  merklePath : List ValueHash
  deriving DecidableEq

/-- The texts of the conditions in `verify`. -/
inductive VerifyError where
  | invalidMissingValue
  | rootHashMismatch (rootHash trustedRootHash : ValueHash)
  deriving DecidableEq

namespace TreeEntryWithProof

def verify (self : TreeEntryWithProof) (hasher : HashTree) (trustedRootHash : ValueHash) :
    Outcome VerifyError Unit :=
  if self.base.leafIndex = 0 ∧ self.base.value ≠ 0 then .err .invalidMissingValue
  else do
    let rootHash ← foldMerklePath hasher self.merklePath self.base
    if rootHash = trustedRootHash then .ok ()
    else .err (.rootHashMismatch rootHash trustedRootHash)

/-- The proof is decided correctly: it is accepted only if its entry is that of the tree, and it is
refused with an error otherwise. -/
def DecidedFor (self : TreeEntryWithProof) (M : Contents) (result : Outcome VerifyError Unit) :
    Prop :=
  result ≠ .panic ∧ (M.entry self.base.key ≠ self.base → ∃ e, result = .err e)

def branches (self : TreeEntryWithProof) (hasher : HashTree) : Set (ValueHash × ValueHash) :=
  {q | ∃ d < 256, q = orient (self.base.key.toNat.testBit d) (adjacentHash hasher self.merklePath d)
    (climb hasher.hashBranch self.base.key.toNat (adjacentHash hasher self.merklePath)
      (hasher.hashLeaf self.base.value self.base.leafIndex) d)}

def leaves (self : TreeEntryWithProof) : Set (ValueHash × UInt64) :=
  {(self.base.value, self.base.leafIndex)}

end TreeEntryWithProof

/-- The inputs of `hash_branch` in the full tree. -/
def treeBranches (hasher : HashTree) (M : Contents) : Set (ValueHash × ValueHash) :=
  {q | ∃ d < 256, ∃ i, q = (FullTree.hash hasher.hashBranch (leafHash hasher M) d (2 * i),
    FullTree.hash hasher.hashBranch (leafHash hasher M) d (2 * i + 1))}

/-- The inputs of `hash_leaf` in the tree. -/
def treeLeaves (M : Contents) : Set (ValueHash × UInt64) := {q | ∃ key, M key = some q}

/-- No two of the given inputs have the same hash, and only an empty entry that of a vacant leaf. -/
structure HashTree.CollisionFree (hasher : HashTree) (branches : Set (ValueHash × ValueHash))
    (leaves : Set (ValueHash × UInt64)) : Prop where
  branch : Set.InjOn (fun q : ValueHash × ValueHash => hasher.hashBranch q.1 q.2) branches
  leaf : Set.InjOn (fun q : ValueHash × UInt64 => hasher.hashLeaf q.1 q.2) leaves
  vacant : ∀ q ∈ leaves, hasher.hashLeaf q.1 q.2 = hasher.emptySubtreeHash 0 → q = (0, 0)

theorem HashTree.CollisionFree.mono {hasher : HashTree}
    {branches branches' : Set (ValueHash × ValueHash)}
    {leaves leaves' : Set (ValueHash × UInt64)} (h : hasher.CollisionFree branches leaves)
    (hbranches : branches' ⊆ branches) (hleaves : leaves' ⊆ leaves) :
    hasher.CollisionFree branches' leaves' :=
  ⟨h.branch.mono hbranches, h.leaf.mono hleaves, fun q hq => h.vacant q (hleaves hq)⟩

section Soundness

variable {hasher : HashTree} {M : Contents} {p : TreeEntryWithProof}

theorem leafHash_toNat (key : Key) :
    leafHash hasher M key.toNat = match M key with
      | some (value, leafIndex) => hasher.hashLeaf value leafIndex
      | none => hasher.emptySubtreeHash 0 := by
  have hkey : BitVec.ofNat 256 key.toNat = key := by rw [BitVec.ofNat_toNat, BitVec.setWidth_eq]
  cases hM : M key <;> rw [leafHash, hkey, hM]

theorem hashLeaf_entry (hvacant : hasher.hashLeaf 0 0 = hasher.emptySubtreeHash 0) (key : Key) :
    hasher.hashLeaf (M.entry key).value (M.entry key).leafIndex = leafHash hasher M key.toNat := by
  rw [Contents.entry, leafHash_toNat]
  cases M key with
  | none => exact hvacant
  | some v => rfl

theorem entry_eq_of_leafHash_eq {entry : TreeEntry}
    (hfree : hasher.CollisionFree ∅ (treeLeaves M ∪ {(entry.value, entry.leafIndex)}))
    (h : hasher.hashLeaf entry.value entry.leafIndex = leafHash hasher M entry.key.toNat) :
    M.entry entry.key = entry := by
  have hmem : (entry.value, entry.leafIndex) ∈
      treeLeaves M ∪ {(entry.value, entry.leafIndex)} := .inr rfl
  rw [leafHash_toNat] at h
  rw [Contents.entry]
  cases hkey : M entry.key with
  | none =>
    rw [hkey] at h
    have hpair := hfree.vacant _ hmem h
    rw [Prod.mk.injEq] at hpair
    rw [TreeEntry.empty, ← hpair.1, ← hpair.2]
  | some q =>
    obtain ⟨value, leafIndex⟩ := q
    rw [hkey] at h
    have hpair := hfree.leaf hmem (.inl ⟨entry.key, hkey⟩) h
    rw [Prod.mk.injEq] at hpair
    simp only [← hpair.1, ← hpair.2]

theorem entry_eq_of_climb (hfree : hasher.CollisionFree (treeBranches hasher M ∪ p.branches hasher)
      (treeLeaves M ∪ p.leaves))
    (h : climb hasher.hashBranch p.base.key.toNat (adjacentHash hasher p.merklePath)
      (hasher.hashLeaf p.base.value p.base.leafIndex) 256 = treeHash hasher M) :
    M.entry p.base.key = p.base := by
  have hroot : p.base.key.toNat / 2 ^ 256 = 0 := Nat.div_eq_of_lt p.base.key.isLt
  rw [treeHash, ← hroot] at h
  have hleaf := (FullTree.climb_sound hfree.branch (fun d hd => .inl ⟨d, hd, _, rfl⟩)
    (fun d hd => .inr ⟨d, hd, rfl⟩) h).1
  exact entry_eq_of_leafHash_eq (hfree.mono (Set.empty_subset _) subset_rfl) hleaf

theorem verify_decidedFor_iff
    (hfree : hasher.CollisionFree (treeBranches hasher M ∪ p.branches hasher)
      (treeLeaves M ∪ p.leaves)) :
    p.DecidedFor M (p.verify hasher (treeHash hasher M))
      ↔ p.merklePath.length ≤ 256 ∨ p.base.leafIndex = 0 ∧ p.base.value ≠ 0 := by
  rw [TreeEntryWithProof.DecidedFor, TreeEntryWithProof.verify]
  by_cases hmissing : p.base.leafIndex = 0 ∧ p.base.value ≠ 0
  · rw [if_pos hmissing]
    exact iff_of_true ⟨by simp, fun _ => ⟨_, rfl⟩⟩ (.inr hmissing)
  · rw [if_neg hmissing]
    simp only [hmissing, or_false]
    rcases Nat.lt_or_ge 256 p.merklePath.length with hlong | hpath
    · rw [foldMerklePath_panics hlong]
      simp [Nat.not_le.2 hlong]
    · rw [foldMerklePath_eq_climb hpath, Outcome.ok_bind]
      simp only [hpath, iff_true]
      split
      · rename_i heq
        exact ⟨by simp, fun hne => absurd (entry_eq_of_climb hfree heq) hne⟩
      · exact ⟨by simp, fun _ => ⟨_, rfl⟩⟩

variable {DB : Type} [Database DB] [LawfulDatabase DB] {db db' : DB}

/-- **Proofs are sound, unless their path is longer than the tree is deep.**  An entry that is not
in the version is refused with an error if and only if the path has at most 256 hashes or the value
is refused. -/
theorem verify_sound_iff (hlaw : hasher.Lawful) (iteration : WorkingPatchSet.IterationOrder)
    (hempty : (Database.manifestOrDefault db).versionCount = 0) {batches : List (List TreeEntry)}
    {outputs : List BlockOutput} (hall : extendAll hasher iteration db batches = .ok (outputs, db'))
    {i : ℕ} {output : BlockOutput} (hi : outputs[i]? = some output) (p : TreeEntryWithProof)
    (hfree : hasher.CollisionFree
      (treeBranches hasher (lastEntries (batches.take (i + 1)).flatten) ∪ p.branches hasher)
      (treeLeaves (lastEntries (batches.take (i + 1)).flatten) ∪ p.leaves)) :
    p.DecidedFor (lastEntries (batches.take (i + 1)).flatten) (p.verify hasher output.rootHash)
      ↔ p.merklePath.length ≤ 256 ∨ p.base.leafIndex = 0 ∧ p.base.value ≠ 0 := by
  obtain ⟨outputs', db'', hall', -, hversions⟩ := extendAll_versions hlaw iteration hempty batches
  cases hall.symm.trans hall'
  rw [(hversions i output hi).2.1]
  exact verify_decidedFor_iff hfree

end Soundness

def plainHasher : HashTree where
  name := "plain"
  hashLeaf := fun value leafIndex => value + BitVec.ofNat 256 leafIndex.toNat
  hashBranch := fun left right => left + 3 * right
  emptySubtreeHash := fun _ => 0

theorem plainHasher_lawful : plainHasher.Lawful := fun _ _ => rfl

/-- A tree with one entry, for the first key of the right half. -/
def soleEntry : TreeEntry := ⟨1#256 <<< 255, 5, 1⟩

/-- The key zero is absent, with one hash next to its path: that of the right half. -/
def absentProof : TreeEntryWithProof := ⟨⟨0, 0, 0⟩, [6]⟩

theorem lastEntries_soleEntry (key : Key) :
    lastEntries [soleEntry] key = if key = soleEntry.key then some (5, 1) else none := by
  by_cases hkey : soleEntry.key = key
  · subst hkey
    rfl
  · rw [if_neg (Ne.symm hkey), lastEntries, Option.map_eq_none_iff, List.find?_eq_none]
    intro entry hentry
    obtain rfl : entry = soleEntry := by simpa using hentry
    exact fun heq => hkey (of_decide_eq_true heq)

theorem div_of_soleEntry {d k : ℕ} (hd : d ≤ 255) (hk : BitVec.ofNat 256 k = soleEntry.key) :
    ∃ m, k / 2 ^ d = 2 ^ (255 - d) * (2 * m + 1) := by
  have hmod : k % 2 ^ 256 = 2 ^ 255 := by simpa [soleEntry] using congrArg BitVec.toNat hk
  refine ⟨k / 2 ^ 256, Nat.div_eq_of_eq_mul_right (by positivity) ?_⟩
  rw [← Nat.mul_assoc, ← pow_add, Nat.add_sub_cancel' hd]
  omega

theorem hash_vacant_of_ne {d i : ℕ} (hd : d ≤ 255)
    (hi : ∀ m, i ≠ 2 ^ (255 - d) * (2 * m + 1)) :
    FullTree.hash plainHasher.hashBranch
      (leafHash plainHasher (lastEntries [soleEntry])) d i = 0 := by
  refine FullTree.hash_vacant plainHasher_lawful _ (hd.trans (by decide)) fun k hk => ?_
  have hkey : BitVec.ofNat 256 k ≠ soleEntry.key := by
    intro hkey
    obtain ⟨m, hm⟩ := div_of_soleEntry hd hkey
    exact hi m (hk.symm.trans hm)
  rw [leafHash, lastEntries_soleEntry, if_neg hkey]

theorem hash_soleEntry_right {d : ℕ} (hd : d < 255) (i : ℕ) :
    FullTree.hash plainHasher.hashBranch (leafHash plainHasher (lastEntries [soleEntry])) d
      (2 * i + 1) = 0 := by
  refine hash_vacant_of_ne hd.le fun m hm => ?_
  rw [show 255 - d = 254 - d + 1 by omega, pow_succ', Nat.mul_assoc] at hm
  omega

theorem hash_soleEntry_top (i : ℕ) :
    FullTree.hash plainHasher.hashBranch (leafHash plainHasher (lastEntries [soleEntry])) 255
      (2 * i) = 0 := by
  refine hash_vacant_of_ne le_rfl fun m hm => ?_
  rw [Nat.sub_self, pow_zero, Nat.one_mul] at hm
  omega

theorem hash_soleEntry {d : ℕ} (hd : d ≤ 255) (i : ℕ) :
    FullTree.hash plainHasher.hashBranch (leafHash plainHasher (lastEntries [soleEntry])) d i = 0
      ∨ FullTree.hash plainHasher.hashBranch (leafHash plainHasher (lastEntries [soleEntry])) d i
        = 6 := by
  induction d generalizing i with
  | zero =>
    rw [FullTree.hash, leafHash, lastEntries_soleEntry]
    split_ifs
    · exact .inr (by decide)
    · exact .inl rfl
  | succ d ih =>
    rw [FullTree.hash, hash_soleEntry_right (by omega)]
    rcases ih (by omega) (2 * i) with h | h
    · exact .inl (by rw [h]; decide)
    · exact .inr (by rw [h]; decide)

theorem plainHasher_collisionFree :
    plainHasher.CollisionFree {(0, 0), (6, 0), (0, 6)} {(5, 1), (0, 0)} := by
  refine ⟨?_, ?_, ?_⟩
  · rintro q (rfl | rfl | rfl) q' (rfl | rfl | rfl) heq <;>
      first | rfl | exact absurd heq (by decide)
  · rintro q (rfl | rfl) q' (rfl | rfl) heq <;> first | rfl | exact absurd heq (by decide)
  · rintro q (rfl | rfl) heq
    · exact absurd heq (by decide)
    · rfl

theorem treeBranches_soleEntry :
    treeBranches plainHasher (lastEntries [soleEntry]) ⊆ {(0, 0), (6, 0), (0, 6)} := by
  rintro q ⟨d, hd, i, rfl⟩
  rcases Nat.lt_or_ge d 255 with hlt | hge
  · rw [hash_soleEntry_right hlt]
    rcases hash_soleEntry hlt.le (2 * i) with h | h
    · exact .inl (by rw [h])
    · exact .inr (.inl (by rw [h]))
  · obtain rfl : d = 255 := by omega
    rw [hash_soleEntry_top]
    rcases hash_soleEntry le_rfl (2 * i + 1) with h | h
    · exact .inl (by rw [h])
    · exact .inr (.inr (by rw [h]; rfl))

theorem treeLeaves_soleEntry : treeLeaves (lastEntries [soleEntry]) ⊆ {(5, 1), (0, 0)} := by
  rintro q ⟨key, hkey⟩
  rw [lastEntries_soleEntry] at hkey
  split_ifs at hkey
  exact .inl (Option.some.inj hkey).symm

theorem adjacentHash_absentProof {d : ℕ} (hd : d < 256) :
    adjacentHash plainHasher absentProof.merklePath d = if d = 255 then 6 else 0 := by
  rcases Nat.lt_or_ge d 255 with hlt | hge
  · have hempty : d < 256 - absentProof.merklePath.length := hlt
    rw [adjacentHash, if_pos hempty, if_neg hlt.ne]
    rfl
  · obtain rfl : d = 255 := by omega
    rfl

theorem climb_absentProof {d : ℕ} (hd : d ≤ 255) :
    climb plainHasher.hashBranch absentProof.base.key.toNat
      (adjacentHash plainHasher absentProof.merklePath)
      (plainHasher.hashLeaf absentProof.base.value absentProof.base.leafIndex) d = 0 := by
  induction d with
  | zero => rfl
  | succ d ih =>
    have hbit : absentProof.base.key.toNat.testBit d = false := Nat.zero_testBit d
    rw [climb, hbit, ih (by omega), adjacentHash_absentProof (by omega), if_neg (by omega)]
    rfl

theorem collisionFree_absentProof :
    plainHasher.CollisionFree
      (treeBranches plainHasher (lastEntries [soleEntry]) ∪ absentProof.branches plainHasher)
      (treeLeaves (lastEntries [soleEntry]) ∪ absentProof.leaves) := by
  refine plainHasher_collisionFree.mono (Set.union_subset treeBranches_soleEntry ?_)
    (Set.union_subset treeLeaves_soleEntry ?_)
  · rintro q ⟨d, hd, rfl⟩
    have hbit : absentProof.base.key.toNat.testBit d = false := Nat.zero_testBit d
    rw [climb_absentProof (by omega), hbit, adjacentHash_absentProof hd]
    split_ifs
    · exact .inr (.inr rfl)
    · exact .inl rfl
  · rintro q hq
    exact .inr hq

theorem verify_sound_sole :
    ∃ outputs db' output, extendAll plainHasher sampleOrder PatchSet.empty [[soleEntry]]
        = .ok (outputs, db') ∧ outputs[0]? = some output
      ∧ absentProof.DecidedFor (lastEntries [soleEntry])
          (absentProof.verify plainHasher output.rootHash) := by
  obtain ⟨outputs, db', hall, hlength, -⟩ :=
    extendAll_versions plainHasher_lawful sampleOrder (rfl :
      (Database.manifestOrDefault PatchSet.empty).versionCount = 0) [[soleEntry]]
  have hlt : 0 < outputs.length := by
    rw [hlength]
    decide
  have hi : outputs[0]? = some outputs[0] := List.getElem?_eq_getElem hlt
  exact ⟨outputs, db', outputs[0], hall, hi,
    (verify_sound_iff plainHasher_lawful sampleOrder rfl hall hi absentProof
      collisionFree_absentProof).2 (.inl (by decide))⟩

/-- **A path that is too long.**  With one hash more than there are levels, the verification panics,
for the entry that the tree has as for any other. -/
theorem verify_panics_long :
    (⟨soleEntry, List.replicate 257 0⟩ : TreeEntryWithProof).verify plainHasher
        (treeHash plainHasher (lastEntries [soleEntry])) = .panic
      ∧ (⟨⟨0, 6, 1⟩, List.replicate 257 0⟩ : TreeEntryWithProof).verify plainHasher
        (treeHash plainHasher (lastEntries [soleEntry])) = .panic := by
  have hlong : 256 < (List.replicate 257 (0 : ValueHash)).length := by
    rw [List.length_replicate]
    decide
  constructor
  · rw [TreeEntryWithProof.verify, if_neg (by decide), foldMerklePath_panics hlong]
    rfl
  · rw [TreeEntryWithProof.verify, if_neg (by decide), foldMerklePath_panics hlong]
    rfl

end MerkleTree
