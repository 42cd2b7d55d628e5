/-
Reading entries of a version, with and without proofs.

All keys of a request are looked up in one working patch set.  The proofs fill the caches of the
nodes that they pass, and later proofs of the same request use them.  As in `getters.rs`.

* `entriesWithProofs_verified` — the proofs of all versions are accepted.
-/
import ViaCore.MerkleProofs
import ViaCore.TreeProof

namespace MerkleTree

open Nibbles (new nibble)

/-- The version that is missing, and how many there are. -/
structure NoVersionError where
  missingVersion : ℕ
  versionCount : ℕ
  deriving DecidableEq

section Getters

variable {DB : Type} [Database DB] {α : Type}

def transformEntries
    (transform : WorkingPatchSet → Key → Nibbles → Outcome DatabaseError (α × WorkingPatchSet)) :
    WorkingPatchSet → List (Key × Nibbles) → Outcome DatabaseError (List α)
  | _, [] => .ok []
  | set, (leafKey, longestPrefix) :: rest => do
    let (item, set) ← transform set leafKey longestPrefix
    let items ← transformEntries transform set rest
    .ok (item :: items)

def loadAndTransformEntries (db : DB) (version : ℕ) (leafKeys : List Key)
    (transform : WorkingPatchSet → Key → Nibbles → Outcome DatabaseError (α × WorkingPatchSet)) :
    Except NoVersionError (Outcome DatabaseError (List α)) :=
  match Database.root db version with
  | none => .error ⟨version, (Database.manifestOrDefault db).versionCount⟩
  | some root => .ok do
    let (result, set) ← (WorkingPatchSet.new version root).loadAncestors db (sortedKeys leafKeys)
    transformEntries transform set (leafKeys.zip result.longestPrefixes)

def extractEntry (set : WorkingPatchSet) (leafKey : Key) (longestPrefix : Nibbles) : TreeEntry :=
  match set.get longestPrefix with
  | some (.leaf leaf) =>
    if leaf.fullKey = leafKey then ⟨leaf.fullKey, leaf.valueHash, leaf.leafIndex⟩
    else .empty leafKey
  | _ => .empty leafKey

def entries (db : DB) (version : ℕ) (leafKeys : List Key) :
    Except NoVersionError (Outcome DatabaseError (List TreeEntry)) :=
  loadAndTransformEntries db version leafKeys fun set leafKey longestPrefix =>
    .ok (extractEntry set leafKey longestPrefix, set)

def entriesWithProofs (hasher : HashTree) (db : DB) (version : ℕ) (leafKeys : List Key) :
    Except NoVersionError (Outcome DatabaseError (List TreeEntryWithProof)) :=
  loadAndTransformEntries db version leafKeys fun set leafKey longestPrefix => do
    let ((leaf, merklePath), set) ← set.createProof hasher leafKey longestPrefix 0
    let value := (leaf.map LeafNode.valueHash).getD 0
    let leafIndex := (leaf.map LeafNode.leafIndex).getD 0
    .ok (⟨⟨leafKey, value, leafIndex⟩, merklePath.hashes⟩, set)

end Getters

structure IsProof (hasher : HashTree) (M : Contents) (key : Key) (p : TreeEntryWithProof) :
    Prop where
  base_eq : p.base = M.entry key
  length_le : p.merklePath.length ≤ 256
  adjacent_eq : ∀ d < 256, adjacentHash hasher p.merklePath d = siblingHash hasher M key d

section Proofs

variable {hasher : HashTree} {M : Contents} {key : Key} {p : TreeEntryWithProof}

theorem MerklePath.For.adjacentHash_eq {path : MerklePath} {adjacent : ℕ → ValueHash}
    (h : path.For hasher adjacent) (hlevel : path.currentLevel = 0) :
    path.hashes.length ≤ 256 ∧ ∀ d < 256, adjacentHash hasher path.hashes d = adjacent d := by
  have hlen := h.length_le
  have hvacant := h.vacant
  have hhash := h.hash_eq
  rw [hlevel] at hlen hvacant hhash
  refine ⟨hlen, fun d hd => ?_⟩
  unfold adjacentHash
  split
  · rw [hvacant d (by omega)]
  · rw [List.getD_eq_getElem?_getD, hhash _ (by omega), Option.getD_some]
    exact congrArg adjacent (by omega)

theorem IsProof.verify_eq (h : IsProof hasher M key p)
    (hvacant : hasher.hashLeaf 0 0 = hasher.emptySubtreeHash 0) :
    p.verify hasher (treeHash hasher M) =
      if p.base.leafIndex = 0 ∧ p.base.value ≠ 0 then .err .invalidMissingValue else .ok () := by
  rw [TreeEntryWithProof.verify]
  split
  · rfl
  · have hkey : p.base.key = key := by rw [h.base_eq, Contents.entry_key]
    have hleaf : hasher.hashLeaf p.base.value p.base.leafIndex = leafHash hasher M key.toNat := by
      rw [h.base_eq, hashLeaf_entry hvacant]
    rw [foldMerklePath_eq_climb h.length_le, Outcome.ok_bind, hkey, hleaf,
      FullTree.climb_eq_hash h.adjacent_eq, Nat.div_eq_of_lt key.isLt]
    exact if_pos rfl

end Proofs

section Versions

variable {DB : Type} [Database DB] {db : DB} {hasher : HashTree} {version : ℕ} {M : Contents}
  {B : Nibbles → Option Node} {W : WorkingPatchSet} {keys : List Key} {k : Key} {m n : ℕ}

theorem Stored.right (h : Stored db hasher version B M) (hlaw : hasher.Lawful) (hn : n < 64)
    {node : InternalNode} (hnode : B (new k n) = some (.internal node)) :
    node.Right hasher M k n := by
  intro key' hpos
  have hhere : B (new key' n) = some (.internal node) := by rw [hpos, hnode]
  cases href : node.children (nibble key' n) with
  | some r => exact h.hash_eq key' n node r hn hhere href
  | none =>
    refine (prefixHash_vacant hlaw hn fun key'' hpos'' => ?_).symm
    have hgap : (node.children (nibble key' n)).map ChildRef.isLeaf = none := by
      rw [href]
      rfl
    exact Trie.Represents.none_of_gap h.represents h.wellFormed hn
      (shapeOf_eq_branch.2 ⟨node, hhere, rfl⟩) hgap hpos''

/-- A working patch set in which the entries of some keys are read: it has the nodes of a version on
their paths, with caches that agree with the specification. -/
structure Reading (B : Nibbles → Option Node) (hasher : HashTree) (M : Contents) (keys : List Key)
    (W : WorkingPatchSet) : Prop where
  agree : ∀ k ∈ keys, ∀ n ≤ 64, (W.get (new k n)).map Node.clone = B (new k n)
  hashed : HashedFrom hasher M 0 W

section

variable (h : Reading B hasher M keys W)
include h

theorem Reading.get_internal (hk : k ∈ keys) (hn : n ≤ 64)
    {node : InternalNode} (hnode : B (new k n) = some (.internal node)) :
    ∃ node', W.get (new k n) = some (.internal node') := by
  have hget := h.agree k hk n hn
  rw [hnode, Option.map_eq_some_iff] at hget
  obtain ⟨x, hx, hclone⟩ := hget
  cases x with
  | leaf leaf => cases hclone
  | internal node' => exact ⟨node', hx⟩

theorem Reading.get_leaf_iff (hk : k ∈ keys) (hn : n ≤ 64) {leaf : LeafNode} :
    W.get (new k n) = some (.leaf leaf) ↔ B (new k n) = some (.leaf leaf) := by
  rw [← h.agree k hk n hn]
  cases W.get (new k n) with
  | none => simp
  | some x =>
    cases x with
    | leaf leaf' | internal node => simp [Node.clone]

theorem Reading.recached {W' : WorkingPatchSet}
    (hrecached : Recached W W') (hhashed : HashedFrom hasher M 0 W') : Reading B hasher M keys W' :=
  ⟨fun k hk n hn => by rw [hrecached.get_eq, h.agree k hk n hn], hhashed⟩

end

theorem LongestPrefix.exists_end (h : LongestPrefix B k m) (hwf : WellFormed B) :
    ∃ n, m ≤ n ∧ n ≤ 64 ∧ (∀ j < n, ∃ node, B (new k j) = some (.internal node)) ∧
      (∀ node, B (new k n) ≠ some (.internal node)) ∧ (n = m ∨ B (new k n) = none) := by
  by_cases hinternal : ∃ node, B (new k m) = some (.internal node)
  · obtain ⟨node, hnode⟩ := hinternal
    have hlt := hwf.internal_lt h.le hnode
    have hnone := h.child hlt
    refine ⟨m + 1, Nat.le_succ m, hlt, fun j hj => ?_, fun node' hnode' => ?_, .inr hnone⟩
    · rcases Nat.lt_succ_iff_lt_or_eq.1 hj with hjm | rfl
      · exact h.internal j hjm
      · exact ⟨node, hnode⟩
    · cases hnone.symm.trans hnode'
  · exact ⟨m, le_rfl, h.le, h.internal, fun node hnode => hinternal ⟨node, hnode⟩, .inl rfl⟩

theorem Reading.extractEntry_eq (h : Reading B hasher M keys W) (hwf : WellFormed B)
    (hrep : Represents B M) (hk : k ∈ keys) (hm : LongestPrefix B k m) :
    extractEntry W k (new k m) = M.entry k := by
  obtain ⟨n, hmn, hn, habove, hstop, hend⟩ := hm.exists_end hwf
  have hunder := fun v => hwf.contents_under hrep hn habove hstop (rfl : new k n = new k n) v
  cases hentry : M k with
  | some v =>
    have hleaf := (hunder v).1 hentry
    obtain rfl : n = m := hend.resolve_right fun hnone => by
      cases hleaf.symm.trans hnone
    rw [extractEntry, (h.get_leaf_iff hk hn).2 hleaf, Contents.entry, hentry]
    simp
  | none =>
    -- a leaf at the end of the descent has another key
    have hmiss : ∀ leaf, W.get (new k m) = some (.leaf leaf) → leaf.fullKey ≠ k := by
      intro leaf hleaf hkey
      rw [h.get_leaf_iff hk (by omega)] at hleaf
      obtain rfl : n = m := by
        by_contra hne
        obtain ⟨node, hnode⟩ := habove m (by omega)
        cases hleaf.symm.trans hnode
      have hsome := (hunder (leaf.valueHash, leaf.leafIndex)).2 (by rw [hleaf, ← hkey])
      cases hentry.symm.trans hsome
    rw [Contents.entry, hentry, extractEntry]
    split
    · rename_i leaf hleaf
      rw [if_neg (hmiss leaf hleaf)]
    · rfl

theorem Reading.createProof (h : Reading B hasher M keys W) (hlaw : hasher.Lawful)
    (hwf : WellFormed B) (hrep : Represents B M) (hk : k ∈ keys) (hm : LongestPrefix B k m) :
    ∃ path W', W.createProof hasher k (new k m) 0 =
        .ok (((M k).map fun v => ⟨k, v.1, v.2⟩, path), W') ∧
      path.For hasher (siblingHash hasher M k) ∧ path.currentLevel = 0 ∧
      Reading B hasher M keys W' := by
  obtain ⟨n, hmn, hn, habove, hstop, -⟩ := hm.exists_end hwf
  have hstop' : ∀ node, W.get (new k n) ≠ some (.internal node) := by
    intro node hnode
    have hget := h.agree k hk n hn
    rw [hnode] at hget
    exact hstop _ hget.symm
  obtain ⟨path, W', hproof, hpath, hlevel, hrecached, hhashed⟩ :=
    createProof_spec hlaw h.hashed (Nat.zero_le n) hn
      (fun j _ hj => by
        obtain ⟨node, hnode⟩ := habove j hj
        exact h.get_internal hk (by omega) hnode) hstop'
      (fun key' v hpos => by
        rw [hwf.contents_under hrep hn habove hstop hpos v, h.get_leaf_iff hk hn])
      (fun leaf hleaf => hwf.leaf_pos hn ((h.get_leaf_iff hk hn).1 hleaf)) (Nat.zero_le m) hmn
  exact ⟨path, W', hproof, hpath, hlevel, h.recached hrecached hhashed⟩

theorem Loaded.reading {loaded : Key → Prop} (h : Loaded B loaded W)
    (hstored : Stored db hasher version B M) (hlaw : hasher.Lawful) (hkeys : ∀ k ∈ keys, loaded k) :
    Reading B hasher M keys W := by
  have hclone : ∀ q, (B q).map Node.clone = B q := by
    intro q
    cases hq : B q with
    | none => rfl
    | some node => rw [Option.map_some, hstored.clone_eq q node hq]
  have hnode : ∀ k n node, W.get (new k n) = some (.internal node) →
      B (new k n) = some (.internal node) := by
    intro k n node hget
    obtain ⟨e, he, hinner⟩ := WorkingPatchSet.get_eq_some.1 hget
    rw [(h.agree _ e he).1, hinner]
  refine ⟨fun k hk n hn => ?_, fun k n node _ hn hget =>
    ?_, fun k n node cache _ hn hget hcache => ?_⟩
  · rw [h.get_eq k (hkeys k hk) n hn, hclone]
  · exact hstored.right hlaw hn (hnode k n node hget)
  · have hsame := hstored.clone_eq _ _ (hnode k n node hget)
    rw [← (Node.internal.inj hsame : node.clone = node)] at hcache
    cases hcache

variable {α : Type}
  {transform : WorkingPatchSet → Key → Nibbles → Outcome DatabaseError (α × WorkingPatchSet)}

variable {R : Key → α → Prop}

theorem transformEntries_spec {I : WorkingPatchSet → Prop} (items : List (Key × Nibbles))
    (hstep : ∀ W, I W → ∀ x ∈ items, ∃ a W', transform W x.1 x.2 = .ok (a, W') ∧ R x.1 a ∧ I W')
    (hW : I W) :
    ∃ results, transformEntries transform W items = .ok results ∧
      List.Forall₂ R (items.map Prod.fst) results := by
  induction items generalizing W with
  | nil => exact ⟨[], rfl, .nil⟩
  | cons x items ih =>
    obtain ⟨a, W', htransform, hR, hW'⟩ := hstep W hW x List.mem_cons_self
    obtain ⟨results, hrest, hall⟩ :=
      ih (fun W hW y hy => hstep W hW y (List.mem_cons_of_mem x hy)) hW'
    refine ⟨a :: results, ?_, .cons hR hall⟩
    rw [transformEntries, htransform, Outcome.ok_bind]
    simp only
    rw [hrest, Outcome.ok_bind]

variable [LawfulDatabase DB]

section

variable (h : HasVersion db hasher version M)
include h

/-- **A request to a version.**  Each entry is read at the longest prefix of its key. -/
theorem HasVersion.request (hlaw : hasher.Lawful) (keys : List Key)
    (hstep : ∀ B, WellFormed B → Represents B M → ∀ W, Reading B hasher M keys W → ∀ k ∈ keys,
      ∀ m, LongestPrefix B k m →
      ∃ a W', transform W k (new k m) = .ok (a, W') ∧ R k a ∧ Reading B hasher M keys W') :
    ∃ results, loadAndTransformEntries db version keys transform = .ok (.ok results) ∧
      List.Forall₂ R keys results := by
  obtain ⟨B, root, hroot, hof, hstored⟩ := h
  obtain ⟨result, W, hload, -, hloaded, hprefixes⟩ :=
    loadAncestors_spec hstored.wellFormed
      (fun k n node r hn hnode href => (hstored.node_eq k n node r hn hnode href).2) hof.node_eq
      version (indexed_sortedKeys keys)
  -- the descent of each key has ended at its longest prefix
  have hprefix : ∀ i k, keys[i]? = some k →
      ∃ m, result.longestPrefixes[i]? = some (new k m) ∧ LongestPrefix B k m :=
    fun i k hi => hprefixes i k (mem_sortedKeys.2 hi)
  have hlength : keys.length ≤ result.longestPrefixes.length := by
    by_contra hlt
    obtain ⟨m, hm, -⟩ := hprefix _ _ (List.getElem?_eq_getElem (not_le.1 hlt))
    rw [List.getElem?_eq_none le_rfl] at hm
    cases hm
  have hreading : Reading B hasher M keys W := by
    refine hloaded.reading hstored hlaw fun k hk => ?_
    obtain ⟨i, hi⟩ := List.mem_iff_getElem?.1 hk
    exact ⟨i, mem_sortedKeys.2 hi⟩
  have hfst : (keys.zip result.longestPrefixes).map Prod.fst = keys := List.map_fst_zip hlength
  obtain ⟨results, htransform, hall⟩ := transformEntries_spec (R := R)
    (keys.zip result.longestPrefixes) (fun W hW x hx => by
      obtain ⟨i, hi⟩ := List.mem_iff_getElem?.1 hx
      obtain ⟨hkey, hnibbles⟩ := List.getElem?_zip_eq_some.1 hi
      obtain ⟨m, hm, hlongest⟩ := hprefix i x.1 hkey
      rw [hm, Option.some.injEq] at hnibbles
      rw [← hnibbles]
      exact hstep B hstored.wellFormed hstored.represents W hW x.1
        (List.mem_iff_getElem?.2 ⟨i, hkey⟩) m hlongest) hreading
  rw [hfst] at hall
  refine ⟨results, ?_, hall⟩
  rw [loadAndTransformEntries, hroot]
  simp only
  rw [hload, Outcome.ok_bind, htransform]

theorem HasVersion.entries_eq (hlaw : hasher.Lawful)
    (keys : List Key) : entries db version keys = .ok (.ok (keys.map M.entry)) := by
  obtain ⟨results, heq, hall⟩ : ∃ results, entries db version keys = .ok (.ok results) ∧
      List.Forall₂ (fun k e => e = M.entry k) keys results :=
    h.request hlaw keys fun B hwf hrep W hW k hk m hm =>
      ⟨extractEntry W k (new k m), W, rfl, hW.extractEntry_eq hwf hrep hk hm, hW⟩
  have hmap : results = keys.map M.entry := by
    clear heq
    induction hall with
    | nil => rfl
    | cons hhead _ ih => rw [List.map_cons, hhead, ih]
  rw [← hmap]
  exact heq

theorem HasVersion.entriesWithProofs_eq (hlaw : hasher.Lawful) (keys : List Key) :
    ∃ proofs, entriesWithProofs hasher db version keys = .ok (.ok proofs) ∧
      List.Forall₂ (IsProof hasher M) keys proofs := by
  refine h.request hlaw keys fun B hwf hrep W hW k hk m hm => ?_
  obtain ⟨path, W', hproof, hpath, hlevel, hW'⟩ := hW.createProof hlaw hwf hrep hk hm
  obtain ⟨hlength, hadjacent⟩ := hpath.adjacentHash_eq hlevel
  refine ⟨⟨M.entry k, path.hashes⟩, W', ?_, ⟨rfl, hlength, hadjacent⟩, hW'⟩
  rw [hproof, Outcome.ok_bind, Contents.entry]
  cases M k with
  | none => rfl
  | some v => rfl

end

theorem mem_of_lastEntries {written : List TreeEntry} {v : ValueHash × UInt64}
    (h : lastEntries written k = some v) : ⟨k, v.1, v.2⟩ ∈ written := by
  rw [lastEntries, Option.map_eq_some_iff] at h
  obtain ⟨entry, hfind, rfl⟩ := h
  have hkey : entry.key = k := by simpa using List.find?_some hfind
  rw [← hkey]
  exact List.mem_reverse.1 (List.mem_of_find?_eq_some hfind)

/-- **Proofs are complete.**  For every list of keys, `entries_with_proofs` returns the entries of
the version, with paths of at most 256 hashes that are accepted for its root hash. -/
theorem entriesWithProofs_verified (hlaw : hasher.Lawful)
    (hvacant : hasher.hashLeaf 0 0 = hasher.emptySubtreeHash 0)
    (iteration : WorkingPatchSet.IterationOrder)
    (hempty : (Database.manifestOrDefault db).versionCount = 0) {batches : List (List TreeEntry)}
    {outputs : List BlockOutput} {db' : DB}
    (hall : extendAll hasher iteration db batches = .ok (outputs, db'))
    (hindices : ∀ entry ∈ batches.flatten, entry.leafIndex = 0 → entry.value = 0)
    (hversion : version < batches.length) (keys : List Key) :
    ∃ proofs rootHash', entriesWithProofs hasher db' version keys = .ok (.ok proofs) ∧
      proofs.map TreeEntryWithProof.base
        = keys.map (lastEntries (batches.take (version + 1)).flatten).entry ∧
      rootHash hasher db' version = some rootHash' ∧
      (∀ p ∈ proofs, p.merklePath.length ≤ 256 ∧ p.verify hasher rootHash' = .ok ()) ∧
      entries db' version keys
        = .ok (.ok (keys.map (lastEntries (batches.take (version + 1)).flatten).entry)) := by
  obtain ⟨outputs', db'', hall', hlength, hversions⟩ :=
    extendAll_versions hlaw iteration hempty batches
  cases hall.symm.trans hall'
  obtain ⟨hhas, -, -⟩ :=
    hversions version outputs[version] (List.getElem?_eq_getElem (by omega))
  obtain ⟨proofs, hproofs, hforall⟩ := hhas.entriesWithProofs_eq hlaw keys
  refine ⟨proofs, _, hproofs, ?_, hhas.rootHash_eq hlaw, fun p hp => ?_, hhas.entries_eq hlaw keys⟩
  · clear hproofs
    induction hforall with
    | nil => rfl
    | cons hhead _ ih => rw [List.map_cons, List.map_cons, hhead.base_eq, ih]
  · obtain ⟨k, hproof⟩ : ∃ k,
      IsProof hasher (lastEntries (batches.take (version + 1)).flatten) k p := by
      clear hproofs
      induction hforall with
      | nil => cases hp
      | cons hhead _ ih =>
        rcases List.mem_cons.1 hp with rfl | hp
        · exact ⟨_, hhead⟩
        · exact ih hp
    refine ⟨hproof.length_le, ?_⟩
    -- only a value without an index would be refused
    rw [hproof.verify_eq hvacant, if_neg]
    rintro ⟨hindex, hvalue⟩
    rw [hproof.base_eq, Contents.entry] at hindex hvalue
    cases hentry : lastEntries (batches.take (version + 1)).flatten k with
    | none =>
      rw [hentry] at hvalue
      exact hvalue rfl
    | some v =>
      rw [hentry] at hindex hvalue
      obtain ⟨batch, hbatch, hmem⟩ := List.mem_flatten.1 (mem_of_lastEntries hentry)
      have hwritten := List.mem_flatten.2 ⟨batch, List.mem_of_mem_take hbatch, hmem⟩
      exact hvalue (hindices _ hwritten hindex)

end Versions

/-- In the second version of the sample tree, one of the keys is absent and one is asked for
twice. -/
def sampleKeys : List Key :=
  [0x20#256 <<< 248, 0x12#256 <<< 248, 0x21#256 <<< 248, 0x12#256 <<< 248]

theorem entriesWithProofs_verified_sample :
    ∃ outputs db' proofs rootHash',
      extendAll plainHasher sampleOrder PatchSet.empty sampleBatches = .ok (outputs, db') ∧
      entriesWithProofs plainHasher db' 1 sampleKeys = .ok (.ok proofs) ∧
      proofs.map TreeEntryWithProof.base
        = sampleKeys.map (lastEntries (sampleBatches.take 2).flatten).entry ∧
      rootHash plainHasher db' 1 = some rootHash' ∧
      ∀ p ∈ proofs, p.merklePath.length ≤ 256 ∧ p.verify plainHasher rootHash' = .ok () := by
  obtain ⟨outputs, db', hall, -, -⟩ := extendAll_versions plainHasher_lawful sampleOrder
    (rfl : (Database.manifestOrDefault PatchSet.empty).versionCount = 0) sampleBatches
  obtain ⟨proofs, rootHash', hproofs, hbases, hroot, hverified, -⟩ :=
    entriesWithProofs_verified plainHasher_lawful rfl sampleOrder rfl hall (by decide +kernel)
      (show 1 < sampleBatches.length by decide) sampleKeys
  exact ⟨outputs, db', proofs, rootHash', hall, hproofs, hbases, hroot, hverified⟩

/-- **An entry without an index.**  A value that was written with index zero is returned as it is,
and its proof is refused. -/
theorem entriesWithProofs_refused :
    ∃ outputs db' p rootHash',
      extendAll plainHasher sampleOrder PatchSet.empty [[⟨0, 5, 0⟩]] = .ok (outputs, db') ∧
      entriesWithProofs plainHasher db' 0 [0] = .ok (.ok [p]) ∧ p.base = ⟨0, 5, 0⟩ ∧
      rootHash plainHasher db' 0 = some rootHash' ∧
      p.verify plainHasher rootHash' = .err .invalidMissingValue := by
  obtain ⟨outputs, db', hall, hlength, hversions⟩ :=
    extendAll_versions plainHasher_lawful sampleOrder
    (rfl : (Database.manifestOrDefault PatchSet.empty).versionCount = 0) [[⟨0, 5, 0⟩]]
  have hlt : 0 < outputs.length := by
    rw [hlength]
    decide
  obtain ⟨hhas, -, -⟩ := hversions 0 outputs[0] (List.getElem?_eq_getElem hlt)
  obtain ⟨proofs, hproofs, hforall⟩ := hhas.entriesWithProofs_eq plainHasher_lawful [0]
  obtain ⟨p, rfl⟩ : ∃ p, proofs = [p] := List.length_eq_one_iff.1 hforall.length_eq.symm
  have hproof : IsProof plainHasher _ 0 p := (List.forall₂_cons.1 hforall).1
  have hbase : p.base = ⟨0, 5, 0⟩ := by
    rw [hproof.base_eq]
    decide +kernel
  refine ⟨outputs, db', p, _, hall, hproofs, hbase, hhas.rootHash_eq plainHasher_lawful, ?_⟩
  rw [hproof.verify_eq rfl, hbase]
  decide

end MerkleTree
