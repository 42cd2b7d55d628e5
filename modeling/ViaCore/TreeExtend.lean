/-
The root hash of the state tree.

Every version of the tree that is made by `extend` is stored with the contents that the entries up
to it have written, and its root hash is that of the full binary tree with these contents.

* `extendAll_rootHash` — the root hash of every version is the specified one.
-/
import Mathlib
import ViaCore.TreeInsert
import ViaCore.TreeLoad
import ViaCore.TreeFinalize

namespace MerkleTree

open Nibbles (new nibble)

def noContents : Contents := fun _ => none

def lastEntries (entries : List TreeEntry) : Contents := fun key =>
  (entries.reverse.find? fun entry => entry.key = key).map fun entry =>
    (entry.value, entry.leafIndex)

theorem writeAll_append (M : Contents) (entries entries' : List TreeEntry) :
    M.writeAll (entries ++ entries') = (M.writeAll entries).writeAll entries' :=
  List.foldl_append

theorem writeAll_noContents (entries : List TreeEntry) :
    noContents.writeAll entries = lastEntries entries := by
  induction entries using List.reverseRecOn with
  | nil => rfl
  | append_singleton entries entry ih =>
    rw [writeAll_append, ih]
    funext key
    rw [lastEntries, List.reverse_append, List.reverse_singleton, List.singleton_append,
      List.find?_cons]
    show (lastEntries entries).write entry key = _
    by_cases hkey : key = entry.key
    · subst hkey
      rw [Contents.write, Function.update_self]
      simp
    · rw [Contents.write, Function.update_of_ne hkey]
      simp [Ne.symm hkey, lastEntries]

theorem keyCount_noContents : noContents.keyCount = 0 := by
  have hset : {key | noContents key ≠ none} = ∅ := by
    ext key
    simp [noContents]
  rw [Contents.keyCount, hset, Set.ncard_empty]

theorem keyCount_lastEntries (entries : List TreeEntry) :
    (lastEntries entries).keyCount = (entries.map TreeEntry.key).toFinset.card := by
  have hset : {key | lastEntries entries key ≠ none} =
      ((entries.map TreeEntry.key).toFinset : Set Key) := by
    ext key
    rw [Set.mem_ofPred_eq, lastEntries, Ne, Option.map_eq_none_iff, List.find?_eq_none]
    simp
  rw [Contents.keyCount, hset, Set.ncard_coe_finset]

theorem keyCount_eq_zero {M : Contents} (h : M.keyCount = 0) (key : Key) : M key = none := by
  rw [Contents.keyCount, Set.ncard_eq_zero (Set.toFinite _)] at h
  by_contra hne
  have hmem : key ∈ {key | M key ≠ none} := hne
  rw [h] at hmem
  exact hmem

theorem keyCount_writeAll_pos {M : Contents} {entries : List TreeEntry} (h : entries ≠ []) :
    0 < (M.writeAll entries).keyCount := by
  obtain ⟨init, last, rfl⟩ := (List.eq_nil_or_concat' entries).resolve_left h
  refine Nat.pos_of_ne_zero fun hzero => ?_
  have hnone := keyCount_eq_zero hzero last.key
  rw [writeAll_append] at hnone
  exact absurd ((Function.update_self _ _ _).symm.trans hnone) (Option.some_ne_none _)

section Versions

variable {DB : Type} [Database DB] {db db' : DB} {hasher : HashTree} {version : ℕ}
  {B : Nibbles → Option Node} {M : Contents} {root : Root}

/-! ### Versions -/

def HasVersion (db : DB) (hasher : HashTree) (version : ℕ) (M : Contents) : Prop :=
  ∃ B root, Database.root db version = some root ∧ root.Of B M ∧ Stored db hasher version B M

structure TreeInv (db : DB) (hasher : HashTree) (history : List Contents) : Prop where
  versionCount_eq : (Database.manifestOrDefault db).versionCount = history.length
  hasVersion : ∀ v M, history[v]? = some M → HasVersion db hasher v M

structure Base (db : DB) (hasher : HashTree) (version : ℕ) (root : Root)
    (B : Nibbles → Option Node) (M : Contents) : Prop where
  root_of : root.Of B M
  stored : Stored db hasher version B M
  older : ∀ k n node r, n < 64 → B (new k n) = some (.internal node) →
    node.children (nibble k n) = some r → r.version < version

theorem stored_empty (db : DB) (hasher : HashTree) (version : ℕ) :
    Stored db hasher version (fun _ => none) noContents := by
  refine ⟨fun k n hn => Trie.OkAt.of_none rfl fun _ => rfl, fun k v => ?_, fun q node hq => ?_,
    fun k n node r _ hnode => ?_, fun k n node r _ hnode => ?_⟩
  · constructor
    · nofun
    · rintro ⟨n, _, h⟩
      cases h
  · cases hq
  · cases hnode
  · cases hnode

theorem Stored.mono {version' : ℕ} (h : Stored db hasher version B M) (hle : version ≤ version') :
    Stored db hasher version' B M :=
  ⟨h.wellFormed, h.represents, h.clone_eq, h.hash_eq, fun k n node r hn hnode hr =>
    let ⟨hversion, heq⟩ := h.node_eq k n node r hn hnode hr
    ⟨hversion.trans hle, heq⟩⟩

theorem treeHash_of_empty (hlaw : hasher.Lawful) (hempty : ∀ key, M key = none) :
    treeHash hasher M = hasher.emptyTreeHash := by
  rw [← prefixHash_zero 0, prefixHash_vacant hlaw (Nat.zero_le 64) fun key _ => hempty key]
  rfl

theorem HasVersion.rootHash_eq (h : HasVersion db hasher version M) (hlaw : hasher.Lawful) :
    rootHash hasher db version = some (treeHash hasher M) := by
  obtain ⟨B, root, hroot, hof, hstored⟩ := h
  rw [rootHash, hroot, Option.map_some, Option.some.injEq]
  have hnode := hof.node_eq
  cases root with
  | empty =>
    have hempty : ∀ key, M key = none := fun key =>
      Trie.Represents.none_of_empty hstored.represents hstored.wellFormed (k := key) (by
        show shapeOf B (new key 0) = none
        rw [shapeOf_eq_none, Nibbles.new_zero, ← hnode]
        rfl)
    exact (treeHash_of_empty hlaw hempty).symm
  | filled leafCount node =>
    have hB : B (new 0 0) = some node := by rw [Nibbles.new_zero, ← hnode]; rfl
    refine Node.hash_eq_prefixHash hlaw hstored.wellFormed hstored.represents (Nat.zero_le 64) hB
      rfl fun inner hinner key' r hpos hr => ?_
    exact hstored.hash_eq key' 0 inner r (by omega) (by rw [hpos, hB, hinner]) hr

theorem HasVersion.extended (h : HasVersion db hasher version M) {manifest : Manifest}
    {version' : ℕ} {nodes : NodeMap}
    (hext : Database.Extended db db' manifest version' root nodes) (hlt : version < version') :
    HasVersion db' hasher version M := by
  obtain ⟨B, root, hroot, hof, hstored⟩ := h
  refine ⟨B, root, by rw [hext.olderRoot version hlt, hroot], hof, hstored.wellFormed,
    hstored.represents, hstored.clone_eq, hstored.hash_eq, fun k n node r hn hnode hr => ?_⟩
  obtain ⟨hle, heq⟩ := hstored.node_eq k n node r hn hnode hr
  refine ⟨hle, ?_⟩
  rw [hext.olderNode _ _ (Nat.lt_of_le_of_lt hle hlt)]
  exact heq

theorem treeInv_empty (h : (Database.manifestOrDefault db).versionCount = 0) :
    TreeInv db hasher [] :=
  ⟨h, fun v M hv => by cases hv⟩

def currentContents (history : List Contents) : Contents := history.getLast?.getD noContents

variable {history : List Contents}

theorem TreeInv.base (h : TreeInv db hasher history) :
    ∃ manifest root B, Storage.new db hasher history.length true =
        ⟨db, hasher, manifest, root.leafCount, .insert, .new history.length root⟩ ∧
      manifest.versionCount = history.length + 1 ∧
      Base db hasher history.length root B (currentContents history) := by
  cases hlength : history.length with
  | zero =>
    rw [List.length_eq_zero_iff] at hlength
    subst hlength
    exact ⟨_, .empty, fun _ => none, rfl, rfl, ⟨rfl, keyCount_noContents.symm⟩,
      stored_empty db hasher 0, fun k n node r _ hnode => by cases hnode⟩
  | succ version =>
    have hlast : history[version]? = some (currentContents history) := by
      rw [currentContents, List.getLast?_eq_getElem?, hlength, Nat.add_sub_cancel,
        List.getElem?_eq_getElem (by omega)]
      rfl
    obtain ⟨B, root, hroot, hof, hstored⟩ := h.hasVersion version _ hlast
    have hbase : (Database.root db version).getD .empty = root := by rw [hroot]; rfl
    refine ⟨(Storage.new db hasher (version + 1) true).manifest, root, B, ?_, rfl, hof,
      hstored.mono (Nat.le_succ version), fun k n node r hn hnode hr => ?_⟩
    · rw [← hbase]
      rfl
    · exact Nat.lt_succ_of_le (hstored.node_eq k n node r hn hnode hr).1

/-! ### One version -/

structure PatchFor (db : DB) (hasher : HashTree) (version : ℕ) (M : Contents) (root : Root)
    (nodes : NodeMap) (stale : List NodeKey) (B : Nibbles → Option Node) : Prop where
  root_of : root.clone.Of B M
  stored : ∀ (db' : DB) (manifest : Manifest),
    Database.Extended db db' manifest version root nodes → Stored db' hasher version B M
  outdated : ∀ key ∈ stale, Outdated B version key

theorem forEmptyRoot_eq (manifest : Manifest) (version : ℕ) :
    ∃ stale, PatchSet.forEmptyRoot manifest version = .new manifest version .empty ∅ stale .insert ∧
      ∀ key ∈ stale, Outdated B version key := by
  cases version with
  | zero => exact ⟨[], rfl, fun key hkey => by cases hkey⟩
  | succ version =>
    refine ⟨[Nibbles.empty.withVersion version], rfl, fun key hkey => ?_⟩
    rw [List.mem_singleton] at hkey
    subst hkey
    exact ⟨Nat.lt_succ_self version, .inl rfl⟩

theorem Working.finalize {loaded : Key → Prop} {W : WorkingPatchSet}
    (h : Working db hasher .insert B loaded W M) (hlaw : hasher.Lawful)
    (hclone : ∀ q node, B q = some node → node.clone = node)
    (hcount : W.entry .empty ≠ none → 0 < M.keyCount)
    (manifest : Manifest) (iteration : WorkingPatchSet.IterationOrder) :
    ∃ root nodes stale B', W.finalize manifest M.keyCount .insert hasher iteration =
        .ok (treeHash hasher M, .new manifest W.rootVersion root nodes stale .insert) ∧
      PatchFor db hasher W.rootVersion M root nodes stale B' := by
  have hfinalize : W.finalize manifest M.keyCount .insert hasher iteration =
      (W.finalizeInner manifest M.keyCount .insert
        (levelItems iteration fun n node => some (node.hash hasher (n * 4)))) >>= fun result =>
        .ok (result.1.getD hasher.emptyTreeHash, result.2) := rfl
  by_cases hroot : W.entry .empty = none
  · -- there is nothing in the tree
    have hempty : ∀ key, M key = none := fun key =>
      Trie.Represents.none_of_empty h.represents h.wellFormed (k := key) (by
        show shapeOf (view W B) (new key 0) = none
        rw [shapeOf_eq_none, Nibbles.new_zero, view_of_none hroot, h.rooted hroot])
    obtain rfl : M = noContents := funext hempty
    obtain ⟨stale, hstale, houtdated⟩ :=
      forEmptyRoot_eq (B := fun _ => none) manifest W.rootVersion
    refine ⟨.empty, ∅, stale, fun _ => none, ?_, ⟨rfl, keyCount_noContents.symm⟩,
      fun db' manifest _ => stored_empty db' hasher W.rootVersion, houtdated⟩
    rw [hfinalize, finalizeInner_empty h.linked _ _ _ _ hroot, Outcome.ok_bind, hstale,
      treeHash_of_empty hlaw hempty]
    rfl
  · have hleafCount := hcount hroot
    obtain ⟨F, node, nodes, stale, hinner, hfinal⟩ := finalizeInner_spec h.linked
      (fun k n e inner r hn he hinner hr hnone =>
        h.hash_of_unloaded hn (by rw [view_of_entry he, hinner]) hr hnone)
      iteration (h.nodeHashOk hlaw) manifest hleafCount .insert hroot
    obtain ⟨e, he⟩ := Option.ne_none_iff_exists'.1 hroot
    rw [← Nibbles.new_zero 0] at he
    obtain ⟨node', hnode', htable, hbare, hright⟩ :=
      finalTable_of_entry (B := B) hfinal (Nat.zero_le 64) he
    obtain rfl : node = node' := by
      have hroot_eq := hfinal.root_eq
      rw [← Nibbles.new_zero 0, hnode'] at hroot_eq
      exact Option.some.inj hroot_eq
    refine ⟨.filled ⟨M.keyCount, hleafCount⟩ node, nodes, stale, finalTable W B F, ?_, ⟨?_, rfl⟩,
      fun db' manifest hext => hfinal.stored h hclone hext,
      fun key hkey => hfinal.outdated h hkey⟩
    · have hhash : node.hash hasher (0 * 4) = treeHash hasher M := by
        rw [← prefixHash_zero 0]
        exact Node.hash_eq_prefixHash hlaw h.wellFormed h.represents (Nat.zero_le 64)
          (view_of_entry he) (Node.shape_of_bare_eq hbare) hright
      rw [hfinalize, hinner, Outcome.ok_bind, hhash]
      rfl
    · rw [← Nibbles.new_zero 0, htable]
      rfl

variable [LawfulDatabase DB]

theorem Base.extend (hbase : Base db hasher version root B M) (hlaw : hasher.Lawful)
    (manifest : Manifest) (entries : List TreeEntry) (iteration : WorkingPatchSet.IterationOrder) :
    ∃ root' nodes stale B',
      Storage.extend ⟨db, hasher, manifest, root.leafCount, .insert, .new version root⟩ entries
          iteration =
        .ok (⟨treeHash hasher (M.writeAll entries), (M.writeAll entries).keyCount, M.logs entries⟩,
          .new manifest version root' nodes stale .insert) ∧
      PatchFor db hasher version (M.writeAll entries) root' nodes stale B' := by
  obtain ⟨result, W, hload, hversion, hloaded, hfound⟩ := loadAncestors_spec
    hbase.stored.wellFormed (fun k n node r hn hnode hr =>
      (hbase.stored.node_eq k n node r hn hnode hr).2) hbase.root_of.node_eq version
    (indexed_sortedKeys (entries.map TreeEntry.key))
  have hworking : Working db hasher .insert B _ W M := hloaded.working hbase.stored
    (fun _ k n node r hn hnode hr => by
      rw [hversion]
      exact hbase.older k n node r hn hnode hr) nofun
  -- every entry comes with the prefix that has been found for its key
  have hitems : ∀ item ∈ entries.zip result.longestPrefixes, ∃ i m,
      (i, item.1.key) ∈ sortedKeys (entries.map TreeEntry.key) ∧ item.2 = new item.1.key m ∧
        LongestPrefix B item.1.key m := by
    rintro ⟨entry, p⟩ hmem
    obtain ⟨i, hi⟩ := List.getElem?_of_mem hmem
    rw [List.getElem?_zip_eq_some] at hi
    have hkey : (i, entry.key) ∈ sortedKeys (entries.map TreeEntry.key) := by
      rw [mem_sortedKeys, List.getElem?_map, hi.1]
      rfl
    obtain ⟨m, hm, hlongest⟩ := hfound i entry.key hkey
    rw [hi.2, Option.some.injEq] at hm
    exact ⟨i, m, hkey, hm, hlongest⟩
  have hlength : entries.length ≤ result.longestPrefixes.length := by
    rcases Nat.eq_zero_or_pos entries.length with hzero | hpos
    · omega
    · have hlast : entries.length - 1 < entries.length := by omega
      obtain ⟨m, hm, _⟩ := hfound (entries.length - 1) entries[entries.length - 1].key (by
        rw [mem_sortedKeys, List.getElem?_map, List.getElem?_eq_getElem hlast]
        rfl)
      have := (List.getElem?_eq_some_iff.1 hm).1
      omega
  have hfst : (entries.zip result.longestPrefixes).map Prod.fst = entries :=
    List.map_fst_zip hlength
  obtain ⟨W', hfold, hversion', hworking'⟩ := hworking.insertAll
    (entries.zip result.longestPrefixes) []
    (fun item hmem => by
      obtain ⟨i, m, hkey, _⟩ := hitems item hmem
      exact ⟨i, hkey⟩)
    (fun item hmem j hj => by
      obtain ⟨i, m, hkey, hp, hlongest⟩ := hitems item hmem
      rw [hp, Nibbles.nibbleCount_new] at hj
      obtain ⟨node, hnode⟩ := hlongest.internal j hj
      have hle := hlongest.le
      exact ⟨node, by rw [hloaded.get_eq _ ⟨i, hkey⟩ j (by omega)]; exact hnode⟩)
    (fun item hmem => by
      obtain ⟨_, m, _, hp, hlongest⟩ := hitems item hmem
      rw [hp, Nibbles.nibbleCount_new]
      exact hlongest.le)
  rw [hfst] at hfold hworking'
  rw [hversion] at hversion'
  obtain ⟨root', nodes, stale, B', hfinalize, hpatch⟩ := hworking'.finalize hlaw
    hbase.stored.clone_eq (fun hroot => by
      cases entries with
      | cons entry entries => exact keyCount_writeAll_pos (List.cons_ne_nil _ _)
      | nil =>
        -- the root is the one that has been loaded
        have hW : W' = W := by
          cases hfold
          rfl
        rw [hW] at hroot
        have hne : root.node ≠ none := by
          rw [hbase.root_of.node_eq, ← hloaded.rooted]
          exact fun hcon => hroot (WorkingPatchSet.get_eq_none.1 hcon)
        have hcount := hbase.root_of.leafCount_eq
        cases root with
        | empty => exact absurd rfl hne
        | filled leafCount node =>
          show 0 < M.keyCount
          rw [Contents.keyCount, ← hcount]
          exact leafCount.pos) manifest iteration
  rw [hversion'] at hfinalize hpatch
  refine ⟨root', nodes, stale, B', ?_, hpatch⟩
  rw [Storage.extend]
  have hcount : root.leafCount = M.keyCount := hbase.root_of.leafCount_eq
  simp only [hload, Outcome.ok_bind, hcount, hfold, List.nil_append, hfinalize]

theorem TreeInv.applyPatch (h : TreeInv db hasher history) {manifest : Manifest}
    (hmanifest : manifest.versionCount = history.length + 1) {nodes : NodeMap}
    {stale : List NodeKey} (hpatch : PatchFor db hasher history.length M root nodes stale B) :
    ∃ db', Database.applyPatch db
        (.new manifest history.length root nodes stale .insert) = .ok db' ∧
      TreeInv db' hasher (history ++ [M]) := by
  obtain ⟨db', happly, hext⟩ := LawfulDatabase.applyPatch_new db manifest history.length root nodes
    stale h.versionCount_eq hmanifest
  refine ⟨db', happly, ?_, fun v M' hv => ?_⟩
  · rw [Database.manifestOrDefault, hext.manifest_eq, List.length_append]
    exact hmanifest
  · rcases Nat.lt_or_ge v history.length with hlt | hge
    · rw [List.getElem?_append_left hlt] at hv
      exact (h.hasVersion v M' hv).extended hext hlt
    · rw [List.getElem?_append_right hge, List.getElem?_singleton] at hv
      split at hv
      · rename_i hzero
        obtain rfl : v = history.length := by omega
        cases hv
        exact ⟨B, root.clone, hext.root_eq, hpatch.root_of, hpatch.stored db' manifest hext⟩
      · cases hv

noncomputable def blockOutput (hasher : HashTree) (M : Contents) (entries : List TreeEntry) :
    BlockOutput :=
  ⟨treeHash hasher (M.writeAll entries), (M.writeAll entries).keyCount, M.logs entries⟩

theorem extend_spec (hlaw : hasher.Lawful) (iteration : WorkingPatchSet.IterationOrder)
    (h : TreeInv db hasher history) (entries : List TreeEntry) :
    ∃ db', extend hasher iteration db entries =
        .ok (blockOutput hasher (currentContents history) entries, db') ∧
      TreeInv db' hasher (history ++ [(currentContents history).writeAll entries]) := by
  obtain ⟨manifest, root, B, hstorage, hmanifest, hbase⟩ := h.base
  obtain ⟨root', nodes, stale, B', hextend, hpatch⟩ := hbase.extend hlaw manifest entries iteration
  obtain ⟨db', happly, hinv⟩ := h.applyPatch hmanifest hpatch
  refine ⟨db', ?_, hinv⟩
  rw [MerkleTree.extend]
  simp only [h.versionCount_eq, hstorage, hextend, Outcome.ok_bind, happly]
  rfl

def versionContents : Contents → List (List TreeEntry) → List Contents
  | _, [] => []
  | M, entries :: batches => M.writeAll entries :: versionContents (M.writeAll entries) batches

theorem getElem?_versionContents (M : Contents) (batches : List (List TreeEntry)) (i : ℕ) :
    (versionContents M batches)[i]? =
      if i < batches.length then some (M.writeAll (batches.take (i + 1)).flatten) else none := by
  induction batches generalizing M i with
  | nil => simp [versionContents]
  | cons entries batches ih =>
    cases i with
    | zero => simp [versionContents]
    | succ i =>
      rw [versionContents, List.getElem?_cons_succ, ih]
      simp only [List.length_cons, Nat.add_lt_add_iff_right, List.take_succ_cons, List.flatten_cons,
        writeAll_append]

/-- **Several calls of `extend`**: each output tells the root hash and the number of keys of the
version, and all versions are in the database in the end. -/
theorem extendAll_spec (hlaw : hasher.Lawful) (iteration : WorkingPatchSet.IterationOrder)
    (h : TreeInv db hasher history) (batches : List (List TreeEntry)) :
    ∃ outputs db', extendAll hasher iteration db batches = .ok (outputs, db') ∧
      TreeInv db' hasher (history ++ versionContents (currentContents history) batches) ∧
      outputs.map (fun output => (output.rootHash, output.leafCount)) =
        (versionContents (currentContents history) batches).map fun M =>
          (treeHash hasher M, M.keyCount) := by
  induction batches generalizing db history with
  | nil => exact ⟨[], db, rfl, by simpa [versionContents] using h, rfl⟩
  | cons entries batches ih =>
    obtain ⟨db₁, hextend, h₁⟩ := extend_spec hlaw iteration h entries
    obtain ⟨outputs, db', hall, hinv, houtputs⟩ := ih h₁
    have hcurrent : currentContents (history ++ [(currentContents history).writeAll entries]) =
        (currentContents history).writeAll entries := by
      simp [currentContents]
    rw [hcurrent] at hinv houtputs
    refine ⟨blockOutput hasher (currentContents history) entries :: outputs, db', ?_, ?_, ?_⟩
    · rw [extendAll]
      simp only [hextend, hall, Outcome.ok_bind]
    · rw [List.append_assoc] at hinv
      exact hinv
    · rw [List.map_cons, houtputs]
      rfl

/-- Each version that a sequence of calls of `extend` makes from an empty database has the last
entry for each key. -/
theorem extendAll_versions (hlaw : hasher.Lawful) (iteration : WorkingPatchSet.IterationOrder)
    (hempty : (Database.manifestOrDefault db).versionCount = 0) (batches : List (List TreeEntry)) :
    ∃ outputs db', extendAll hasher iteration db batches = .ok (outputs, db') ∧
      outputs.length = batches.length ∧
      ∀ (i : ℕ) (output : BlockOutput), outputs[i]? = some output →
        HasVersion db' hasher i (lastEntries (batches.take (i + 1)).flatten) ∧
        output.rootHash = treeHash hasher (lastEntries (batches.take (i + 1)).flatten) ∧
        output.leafCount = (lastEntries (batches.take (i + 1)).flatten).keyCount := by
  obtain ⟨outputs, db', hall, hinv, houtputs⟩ :=
    extendAll_spec hlaw iteration (treeInv_empty hempty) batches
  have hcurrent : currentContents [] = noContents := rfl
  rw [hcurrent] at houtputs
  have hlength : (versionContents noContents batches).length = batches.length := by
    refine Nat.le_antisymm ?_ ?_
    · rw [← List.getElem?_eq_none_iff, getElem?_versionContents, if_neg (lt_irrefl _)]
    · by_contra hlt
      have hnone :
          (versionContents noContents batches)[(versionContents noContents batches).length]? =
            none := List.getElem?_eq_none le_rfl
      rw [getElem?_versionContents, if_pos (by omega)] at hnone
      cases hnone
  refine ⟨outputs, db', hall, ?_, fun i output hi => ?_⟩
  · have hmap := congrArg List.length houtputs
    rw [List.length_map, List.length_map, hlength] at hmap
    exact hmap
  · have hget := congrArg (fun l => l[i]?) houtputs
    simp only [List.getElem?_map, hi, Option.map_some] at hget
    obtain ⟨M, hM, hpair⟩ := Option.map_eq_some_iff.1 hget.symm
    rw [Prod.mk.injEq] at hpair
    -- the last entries of all batches up to this one
    have hlast : M = lastEntries (batches.take (i + 1)).flatten := by
      rw [getElem?_versionContents] at hM
      split at hM
      · rw [← writeAll_noContents]
        exact (Option.some.inj hM).symm
      · cases hM
    rw [← hlast]
    exact ⟨hinv.hasVersion i M hM, hpair.1.symm, hpair.2.symm⟩

/-- **The root hash of every version is the specified one.**  From an empty database on, every
sequence of calls of `extend` succeeds, with the root hash of the full binary tree and the number of
keys. -/
theorem extendAll_rootHash (hlaw : hasher.Lawful) (iteration : WorkingPatchSet.IterationOrder)
    (hempty : (Database.manifestOrDefault db).versionCount = 0) (batches : List (List TreeEntry)) :
    ∃ outputs db', extendAll hasher iteration db batches = .ok (outputs, db') ∧
      outputs.length = batches.length ∧
      ∀ (i : ℕ) (output : BlockOutput), outputs[i]? = some output →
        output.rootHash = treeHash hasher (lastEntries (batches.take (i + 1)).flatten) ∧
        output.leafCount = ((batches.take (i + 1)).flatten.map TreeEntry.key).toFinset.card ∧
        rootHash hasher db' i = some output.rootHash := by
  obtain ⟨outputs, db', hall, hlength, hversions⟩ :=
    extendAll_versions hlaw iteration hempty batches
  refine ⟨outputs, db', hall, hlength, fun i output hi => ?_⟩
  obtain ⟨hversion, hroot, hcount⟩ := hversions i output hi
  refine ⟨hroot, ?_, ?_⟩
  · rw [hcount, keyCount_lastEntries]
  · rw [hversion.rootHash_eq hlaw, hroot]

end Versions

def sampleOrder : WorkingPatchSet.IterationOrder := ⟨fun items => items, fun _ => .refl _⟩

def sampleHasher : HashTree where
  name := "sample"
  hashLeaf := fun value leafIndex => value + BitVec.ofNat 256 (leafIndex.toNat + 1)
  hashBranch := fun left right => left + 3 * right
  emptySubtreeHash := fun _ => 0

theorem sampleHasher_lawful : sampleHasher.Lawful := fun _ _ => rfl

/-- Three keys of which two share their first nibble, one of them written twice. -/
def sampleBatches : List (List TreeEntry) :=
  [[⟨0x12#256 <<< 248, 5, 1⟩, ⟨0x13#256 <<< 248, 6, 2⟩], [⟨0x20#256 <<< 248, 7, 3⟩],
    [⟨0x12#256 <<< 248, 8, 1⟩]]

theorem extendAll_rootHash_sample :
    sampleHasher.Lawful ∧
    (Database.manifestOrDefault PatchSet.empty).versionCount = 0 ∧
    ∃ outputs db', extendAll sampleHasher sampleOrder PatchSet.empty sampleBatches =
        .ok (outputs, db') ∧
      outputs.length = sampleBatches.length ∧
      ∀ (i : ℕ) (output : BlockOutput), outputs[i]? = some output →
        output.rootHash =
          treeHash sampleHasher (lastEntries (sampleBatches.take (i + 1)).flatten) ∧
        output.leafCount =
          ((sampleBatches.take (i + 1)).flatten.map TreeEntry.key).toFinset.card ∧
        rootHash sampleHasher db' i = some output.rootHash :=
  ⟨sampleHasher_lawful, rfl, extendAll_rootHash sampleHasher_lawful sampleOrder rfl sampleBatches⟩

end MerkleTree
