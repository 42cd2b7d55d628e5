/-
Patches held in memory on top of RocksDB.

RocksDB keeps the rows of a version in one range of keys.  A patch that inserts a version clears the
range first, since a truncation of the tree changes the manifest only and leaves the rows behind.
`Patched` merges the patches that it holds and writes them at once on a flush.

A row holds the bytes of a root, a leaf or an internal node, and does not say which.  The row of the
empty path is that of the root; what is at another path is read by a flag, and the flag has to be
the right one.

* `Patched.transparent_iff` — what is read through `Patched` is what is read after the flush, and
  the flush writes what the patches write one by one, rows left behind by truncations apart.
-/
import ViaCore.TreeDatabase

namespace MerkleTree

abbrev InnerPath := { nibbles : Nibbles // nibbles ≠ .empty }

/-- The rows of a version, by what was written to them. -/
@[ext] structure VersionRows where
  root : Option Root
  nodes : InnerPath → Option Node

namespace VersionRows

def empty : VersionRows := ⟨none, fun _ => none⟩

def put (rows : VersionRows) (version : ℕ) (part : PartialPatchSet) : VersionRows :=
  ⟨part.root.or rows.root,
    fun path => (part.nodes.lookup (path.1.withVersion version)).or (rows.nodes path)⟩

theorem put_merge (rows : VersionRows) (version : ℕ) (part : PartialPatchSet) {root : Root}
    (nodes : NodeMap) : rows.put version (part.merge ⟨some root, nodes⟩) =
      (rows.put version part).put version ⟨some root, nodes⟩ := by
  ext1
  · rfl
  · funext path
    simp only [put, PartialPatchSet.merge, AList.lookup_union, Option.or_assoc]

end VersionRows

/-- The wrapper of RocksDB: the manifest, the tree and the stale keys. -/
structure RocksDb where
  manifest : Option Manifest
  rows : ℕ → VersionRows
  staleKeys : ℕ → NodeKey → Bool

namespace RocksDb

/-- The batch that `apply_patch` writes; an updated version keeps its rows. -/
def write (db : RocksDb) (patch : PatchSet) : RocksDb where
  manifest := some patch.manifest
  rows := fun version => match patch.patchesByVersion.lookup version with
    | none => db.rows version
    | some part =>
      (if patch.updatedVersion = some version then db.rows version else .empty).put version part
  staleKeys := fun version key => db.staleKeys version key ||
    decide (key ∈ (patch.staleKeysByVersion.lookup version).getD [])

def root (db : RocksDb) (version : ℕ) : Option Root := (db.rows version).root.map Root.clone

/-- The node at a path, read by the flag.  The bytes of a leaf mean nothing as an internal node, nor
the other way round. -/
def nodeAt (db : RocksDb) (version : ℕ) (path : InnerPath) (isLeaf : Bool) : Option Node :=
  (((db.rows version).nodes path).filter fun node => node.isLeaf = isLeaf).map Node.clone

def treeNode (db : RocksDb) (key : NodeKey) (isLeaf : Bool) : Option Node :=
  if h : key.nibbles ≠ .empty then db.nodeAt key.version ⟨key.nibbles, h⟩ isLeaf else none

instance : Database RocksDb where
  manifest := manifest
  root := root
  treeNode := treeNode
  treeNodes := fun db keys => keys.map fun key => db.treeNode key.1 key.2
  applyPatch := fun db patch => .ok (db.write patch)

theorem write_new (db : RocksDb) (manifest : Manifest) (version : ℕ) (root : Root)
    (nodes : NodeMap) (staleKeys : List NodeKey) (operation : Operation) (v : ℕ) :
    (db.write (.new manifest version root nodes staleKeys operation)).rows v =
      if v = version then
        (if operation = .update then db.rows version else .empty).put version ⟨some root, nodes⟩
      else db.rows v := by
  simp only [write, PatchSet.new, AList.lookup_singleton]
  by_cases hv : v = version
  · subst hv
    cases operation <;> simp
  · simp [hv]

/-- The flag is that of the node that was written to the path, if there is one. -/
def RightFlag (db : RocksDb) (version : ℕ) (path : InnerPath) (isLeaf : Bool) : Prop :=
  ∀ node ∈ (db.rows version).nodes path, node.isLeaf = isLeaf

variable {db : RocksDb} {version : ℕ} {path : InnerPath} {isLeaf : Bool}

theorem RightFlag.nodeAt_eq (h : db.RightFlag version path isLeaf) :
    db.nodeAt version path isLeaf = ((db.rows version).nodes path).map Node.clone := by
  rw [nodeAt]
  cases hnode : (db.rows version).nodes path with
  | none => rfl
  | some node => rw [Option.filter_some, if_pos (decide_eq_true (h node hnode))]

theorem treeNode_inner : db.treeNode ⟨version, path.1⟩ isLeaf = db.nodeAt version path isLeaf :=
  dif_pos path.2

end RocksDb

namespace PatchSet

/-- Patches of the tree on top of the patch in memory.  A version is not inserted while it is held
as an updated one, and the root is not among the nodes. -/
inductive Allowed (held : Option PatchSet) : PatchSet → Prop
  | extend {manifest : Manifest} {version root nodes staleKeys}
      (hpaths : ∀ key ∈ nodes.keys, key.nibbles ≠ .empty)
      (hversion : manifest.versionCount = version + 1)
      (hheld : ∀ patch ∈ held, patch.updatedVersion ≠ some version ∧
        (patch.manifest.versionCount = version ∨ patch.manifest.versionCount = version + 1)) :
      Allowed held (.new manifest version root nodes staleKeys .insert)
  | recover {manifest : Manifest} {version root nodes staleKeys}
      (hpaths : ∀ key ∈ nodes.keys, key.nibbles ≠ .empty)
      (hversion : version < manifest.versionCount)
      (hheld : ∀ patch ∈ held, patch.manifest.versionCount = manifest.versionCount) :
      Allowed held (.new manifest version root nodes staleKeys .update)
  | truncate {manifest : Manifest}
      (hheld : ∀ patch ∈ held, manifest.versionCount ≤ patch.manifest.versionCount) :
      Allowed held (.fromManifest manifest)

/-- The versions of a patch are below its version count, and it has a root for the updated one. -/
structure WellFormed (patch : PatchSet) : Prop where
  below : ∀ version, patch.manifest.versionCount ≤ version →
    patch.patchesByVersion.lookup version = none
  updated : ∀ version < patch.manifest.versionCount, patch.updatedVersion = some version →
    ∃ root nodes, patch.patchesByVersion.lookup version = some ⟨some root, nodes⟩

variable {held patch patch' : PatchSet}

theorem Allowed.wellFormed (h : Allowed none patch) : patch.WellFormed := by
  cases h with
  | @extend manifest version root nodes staleKeys _ hversion =>
    refine ⟨fun v (hv : manifest.versionCount ≤ v) => ?_, by rintro _ _ ⟨⟩⟩
    rw [new, AList.lookup_singleton, if_neg (by omega)]
  | @recover manifest version root nodes staleKeys _ hversion =>
    refine ⟨fun v (hv : manifest.versionCount ≤ v) => ?_, fun v _ hv => ⟨root, nodes, ?_⟩⟩
    · rw [new, AList.lookup_singleton, if_neg (by omega)]
    · rw [new, AList.lookup_singleton, if_pos (Option.some.inj hv).symm]
  | truncate => exact ⟨fun _ _ => rfl, by rintro _ _ ⟨⟩⟩

/-- Writing the patch that is held in memory at once agrees with `direct` below the version
count. -/
structure Holds (inner direct : RocksDb) (patch : PatchSet) : Prop where
  wellFormed : patch.WellFormed
  manifest_eq : some patch.manifest = direct.manifest
  staleKeys_eq : (inner.write patch).staleKeys = direct.staleKeys
  rows_eq : ∀ v < patch.manifest.versionCount, (inner.write patch).rows v = direct.rows v

theorem mem_extendStaleKeys (stale : AList fun _ : ℕ => List NodeKey)
    (entries : List (Sigma fun _ : ℕ => List NodeKey)) (version : ℕ) (key : NodeKey) :
    key ∈ ((extendStaleKeys stale entries).lookup version).getD [] ↔
      key ∈ (stale.lookup version).getD [] ∨ ∃ keys, ⟨version, keys⟩ ∈ entries ∧ key ∈ keys := by
  induction entries generalizing stale with
  | nil => simp [extendStaleKeys]
  | cons entry entries ih =>
    obtain ⟨v, keys⟩ := entry
    refine (ih _).trans ?_
    by_cases hv : version = v
    · subst hv
      simp [or_and_right, exists_or, or_assoc]
    · simp [AList.lookup_insert_ne hv, hv]

theorem write_extendStaleKeys (inner : RocksDb) (h : patch'.staleKeysByVersion =
      extendStaleKeys held.staleKeysByVersion patch.staleKeysByVersion.entries) :
    (inner.write patch').staleKeys = ((inner.write held).write patch).staleKeys := by
  funext version key
  have hentries : (∃ keys, ⟨version, keys⟩ ∈ patch.staleKeysByVersion.entries ∧ key ∈ keys) ↔
      key ∈ (patch.staleKeysByVersion.lookup version).getD [] := by
    simp only [← AList.mem_lookup_iff]
    cases patch.staleKeysByVersion.lookup version <;> simp
  simp only [RocksDb.write, h, mem_extendStaleKeys, hentries, Bool.decide_or, Bool.or_assoc]

theorem applyPatch_update {manifest : Manifest} {version : ℕ} {root : Root} {nodes : NodeMap}
    {staleKeys : List NodeKey} (hcount : held.manifest.versionCount = manifest.versionCount)
    (h : held.applyPatch (new manifest version root nodes staleKeys .update) = .ok patch') :
    ∃ part : PartialPatchSet, part.root = some root ∧
      (∀ v, patch'.patchesByVersion.lookup v =
        if v = version then some part else held.patchesByVersion.lookup v) ∧
      (∀ db : RocksDb, (db.rows version).put version part =
        ((db.write held).rows version).put version ⟨some root, nodes⟩) ∧
      (∀ v ≠ version, held.updatedVersion ≠ some v) ∧ patch'.updatedVersion = some version ∧
      patch'.manifest = manifest ∧ patch'.staleKeysByVersion =
        extendStaleKeys held.staleKeysByVersion
          (AList.singleton version staleKeys : AList fun _ : ℕ => List NodeKey).entries := by
  simp only [applyPatch, mergeUpdatedVersion, new] at h
  cases hupdated : held.updatedVersion with
  | none =>
    simp only [hupdated] at h
    split_ifs at h with hkeys
    · simp only [Outcome.ok_bind, hcount, lt_irrefl, if_false] at h
      obtain rfl := Outcome.ok.inj h
      -- nothing is held for the version
      have hnone : held.patchesByVersion.lookup version = none := by
        refine AList.lookup_eq_none.2 fun hmem => ?_
        simpa using List.all_eq_true.1 hkeys version hmem
      refine ⟨⟨some root, nodes⟩, rfl, fun v => AList.lookup_singleton_union _ _ _ _, fun db => ?_,
        fun v _ => (Option.some_ne_none v).symm, rfl, rfl, rfl⟩
      simp only [RocksDb.write, hnone]
    · cases h
  | some updatedVersion =>
    simp only [hupdated] at h
    split_ifs at h with hne
    · cases h
    -- the parts of the version are merged
    · obtain rfl := not_not.1 hne
      obtain ⟨_, h, hmerged⟩ := Outcome.bind_eq_ok.1 h
      obtain ⟨part, hpart, h⟩ := Outcome.bind_eq_ok.1 h
      rw [Outcome.unwrap_eq_ok] at hpart
      simp only [AList.lookup_singleton, if_true, Outcome.unwrap_some, Outcome.ok_bind] at h
      obtain rfl := Outcome.ok.inj h
      simp only [hcount, lt_irrefl, if_false] at hmerged
      obtain rfl := Outcome.ok.inj hmerged
      refine ⟨part.merge ⟨some root, nodes⟩, rfl, fun v => ?_, fun db => ?_,
        fun v hv h => hv (Option.some.inj h).symm, rfl, rfl, rfl⟩
      · rw [AList.lookup_union]
        by_cases hv : v = version
        · subst hv
          rw [AList.lookup_erase, AList.lookup_insert, if_pos rfl, Option.none_or]
        · rw [AList.lookup_erase_ne hv, AList.lookup_insert_ne hv, AList.lookup_singleton,
            if_neg hv, if_neg hv, Option.none_or]
      · simp only [RocksDb.write, hpart, hupdated, if_true, VersionRows.put_merge]

theorem applyPatch_fromManifest {manifest : Manifest} (hheld : held.WellFormed)
    (h : held.applyPatch (fromManifest manifest) = .ok patch') :
    (∀ v, patch'.patchesByVersion.lookup v =
      if v < manifest.versionCount then held.patchesByVersion.lookup v else none) ∧
      patch'.updatedVersion = held.updatedVersion ∧ patch'.manifest = manifest ∧
      patch'.staleKeysByVersion = held.staleKeysByVersion := by
  obtain rfl := Outcome.ok.inj h
  refine ⟨fun v => ?_, rfl, rfl, rfl⟩
  show AList.lookup v (∅ ∪ if manifest.versionCount < held.manifest.versionCount then
    held.patchesByVersion.filterKeys fun version => decide (version < manifest.versionCount)
    else held.patchesByVersion) = _
  rw [AList.empty_union]
  by_cases hless : manifest.versionCount < held.manifest.versionCount
  · simp only [if_pos hless, AList.lookup_filterKeys, decide_eq_true_eq]
  · rw [if_neg hless]
    split_ifs with hv
    · rfl
    · exact hheld.below v (by omega)

theorem Allowed.holds {inner direct : RocksDb} (h : Allowed (some held) patch)
    (hheld : Holds inner direct held) (happly : held.applyPatch patch = .ok patch') :
    Holds inner (direct.write patch) patch' := by
  -- whatever is merged, the manifest is replaced and the stale keys are added
  have hstaleKeys : patch'.staleKeysByVersion =
      extendStaleKeys held.staleKeysByVersion patch.staleKeysByVersion.entries →
        (inner.write patch').staleKeys = (direct.write patch).staleKeys := fun h => by
    rw [write_extendStaleKeys inner h]
    simp only [RocksDb.write, ← hheld.staleKeys_eq]
  cases h with
  | @extend manifest version root nodes staleKeys _ hversion hallowed =>
    obtain ⟨hupdated, hcount⟩ := hallowed held rfl
    rw [applyPatch_new _ _ _ _ (by omega)] at happly
    obtain rfl := Outcome.ok.inj happly
    have hlookup := AList.lookup_singleton_union held.patchesByVersion version
    refine ⟨⟨fun v (hv : manifest.versionCount ≤ v) => ?_,
      fun v (hv : v < manifest.versionCount) hv' => ?_⟩, rfl, hstaleKeys rfl,
      fun v (hv : v < manifest.versionCount) => ?_⟩
    · rw [hlookup, if_neg (by omega), hheld.wellFormed.below v (by omega)]
    · have hne : v ≠ version := fun h => hupdated (h ▸ hv')
      rw [hlookup, if_neg hne]
      exact hheld.wellFormed.updated v (by omega) hv'
    · rw [RocksDb.write_new]
      by_cases hne : v = version
      · subst hne
        simp [RocksDb.write, hlookup, hupdated]
      · rw [if_neg hne, ← hheld.rows_eq v (by omega)]
        simp only [RocksDb.write, hlookup, if_neg hne]
  | @recover manifest version root nodes staleKeys _ hversion hallowed =>
    have hcount := hallowed held rfl
    obtain ⟨part, hroot, hlookup, hput, hother, hupdated, rfl, hstale⟩ :=
      applyPatch_update hcount happly
    refine ⟨⟨fun v hv => ?_, fun v _ hv => ?_⟩, rfl, hstaleKeys hstale, fun v hv => ?_⟩
    · rw [hlookup, if_neg (by omega), hheld.wellFormed.below v (hcount ▸ hv)]
    · obtain rfl := Option.some.inj (hupdated.symm.trans hv)
      exact ⟨root, part.nodes, by rw [hlookup, if_pos rfl, ← hroot]⟩
    · rw [RocksDb.write_new, ← hheld.rows_eq v (hcount ▸ hv)]
      by_cases hne : v = version
      · subst hne
        simp only [if_true, ← hput, ← hheld.rows_eq v (hcount ▸ hv)]
        simp only [RocksDb.write, hlookup, hupdated, if_true]
      · simp [RocksDb.write, hlookup, hne, hupdated, hother v hne, Ne.symm hne]
  | @truncate manifest hallowed =>
    have hcount := hallowed held rfl
    obtain ⟨hlookup, hupdated, rfl, hstale⟩ := applyPatch_fromManifest hheld.wellFormed happly
    refine ⟨⟨fun v hv => ?_, fun v hv hv' => ?_⟩, rfl, hstaleKeys hstale, fun v hv => ?_⟩
    · rw [hlookup, if_neg hv.not_gt]
    · rw [hlookup, if_pos hv]
      exact hheld.wellFormed.updated v (hv.trans_le hcount) (hupdated ▸ hv')
    · refine Eq.trans ?_ (hheld.rows_eq v (hv.trans_le hcount))
      simp only [RocksDb.write, hlookup, hupdated, if_pos hv]

end PatchSet

namespace Patched

/-- The database with the patches that have been applied since the last flush or reset. -/
inductive Reached : Patched RocksDb → List PatchSet → Prop
  | new (db : RocksDb) : Reached (.new db) []
  | apply {db db' pending patch} (h : Reached db pending)
      (hallowed : PatchSet.Allowed db.patch patch) (happly : db.applyPatch patch = .ok db') :
      Reached db' (pending ++ [patch])
  | flush {db db' pending} (h : Reached db pending) (hflush : db.flush = .ok db') : Reached db' []
  | reset {db pending} (h : Reached db pending) : Reached db.reset []

def direct (db : Patched RocksDb) (pending : List PatchSet) : RocksDb :=
  pending.foldl RocksDb.write db.inner

def flushed (db : Patched RocksDb) : RocksDb := db.patch.elim db.inner db.inner.write

theorem flush_eq (db : Patched RocksDb) : db.flush = .ok ⟨db.flushed, none⟩ := by
  obtain ⟨inner, _ | patch⟩ := db <;> rfl

variable {db : Patched RocksDb} {pending : List PatchSet}

theorem Reached.holds (h : Reached db pending) : (db.patch = none → pending = []) ∧
    ∀ patch ∈ db.patch, PatchSet.Holds db.inner (db.direct pending) patch := by
  induction h with
  | new db => exact ⟨fun _ => rfl, nofun⟩
  | flush h hflush =>
    rw [flush_eq] at hflush
    obtain rfl := Outcome.ok.inj hflush
    exact ⟨fun _ => rfl, nofun⟩
  | reset h => exact ⟨fun _ => rfl, nofun⟩
  | @apply db db' pending patch h hallowed happly ih =>
    obtain ⟨inner, _ | held⟩ := db
    · obtain rfl := ih.1 rfl
      obtain rfl := Outcome.ok.inj happly
      refine ⟨nofun, fun _ hpatch => ?_⟩
      obtain rfl := Option.some.inj hpatch
      exact ⟨hallowed.wellFormed, rfl, rfl, fun _ _ => rfl⟩
    · obtain ⟨merged, hmerge, happly⟩ := Outcome.bind_eq_ok.1 happly
      obtain rfl := Outcome.ok.inj happly
      refine ⟨nofun, fun _ hpatch => ?_⟩
      obtain rfl := Option.some.inj hpatch
      have hdirect : direct ⟨inner, some merged⟩ (pending ++ [patch]) =
          (direct ⟨inner, some held⟩ pending).write patch := List.foldl_append ..
      rw [hdirect]
      exact hallowed.holds (ih.2 held rfl) hmerge

variable {patch : PatchSet} {version : ℕ}

theorem reads_of_lt (h : patch.WellFormed) (inner : RocksDb)
    (hversion : version < patch.manifest.versionCount) :
    root ⟨inner, some patch⟩ version = (inner.write patch).root version ∧
      ∀ path isLeaf, RocksDb.RightFlag (inner.write patch) version path isLeaf →
        treeNode ⟨inner, some patch⟩ ⟨version, path.1⟩ isLeaf =
          (inner.write patch).nodeAt version path isLeaf := by
  have hcount : ¬ patch.manifest.versionCount ≤ version := hversion.not_ge
  by_cases hupdated : patch.updatedVersion = some version
  · obtain ⟨newRoot, nodes, hpart⟩ := h.updated version hversion hupdated
    refine ⟨?_, fun path isLeaf hflag => ?_⟩
    · simp [root, RocksDb.root, RocksDb.write, VersionRows.put, PatchSet.root, hupdated, hpart]
    · cases hnode : nodes.lookup ⟨version, path.1⟩ with
      | none =>
        simp [treeNode, lookupPatch, PatchSet.isNewVersion, PatchSet.treeNode, RocksDb.nodeAt,
          RocksDb.write, VersionRows.put, Nibbles.withVersion, Database.treeNode,
          RocksDb.treeNode_inner, hupdated, hpart, hcount, hnode]
      | some node =>
        rw [hflag.nodeAt_eq]
        simp [treeNode, lookupPatch, PatchSet.isNewVersion, PatchSet.treeNode, RocksDb.write,
          VersionRows.put, Nibbles.withVersion, hupdated, hpart, hcount, hnode]
  -- a version that is inserted, or one that the patch does not hold
  · cases hpart : patch.patchesByVersion.lookup version with
    | none => simp [root, treeNode, lookupPatch, PatchSet.isNewVersion, RocksDb.root, RocksDb.write,
        RocksDb.nodeAt, RocksDb.treeNode_inner, Database.root, Database.treeNode, hupdated, hpart,
        hcount]
    | some part =>
      refine ⟨?_, fun path isLeaf hflag => ?_⟩
      · simp [root, PatchSet.isNewVersion, PatchSet.root, RocksDb.root, RocksDb.write,
          VersionRows.put, VersionRows.empty, hupdated, hpart]
      · rw [hflag.nodeAt_eq]
        simp [treeNode, lookupPatch, PatchSet.isNewVersion, PatchSet.treeNode, RocksDb.write,
          VersionRows.put, VersionRows.empty, Nibbles.withVersion, hupdated, hpart]

theorem reads_of_ge (h : patch.WellFormed) (inner : RocksDb)
    (hversion : patch.manifest.versionCount ≤ version) :
    root ⟨inner, some patch⟩ version = none ∧
      ∀ nibbles isLeaf, treeNode ⟨inner, some patch⟩ ⟨version, nibbles⟩ isLeaf = none := by
  simp [root, treeNode, lookupPatch, PatchSet.isNewVersion, PatchSet.root, PatchSet.treeNode,
    hversion, h.below version hversion]

/-- A version is read as after the flush, its nodes with the right flags, and the flush writes it as
direct application does. -/
def Transparent (db : Patched RocksDb) (pending : List PatchSet) (version : ℕ) : Prop :=
  db.root version = db.flushed.root version ∧
    (∀ path isLeaf, RocksDb.RightFlag db.flushed version path isLeaf →
      db.treeNode ⟨version, path.1⟩ isLeaf = db.flushed.treeNode ⟨version, path.1⟩ isLeaf) ∧
    db.flushed.rows version = (db.direct pending).rows version

theorem transparent_iff_of_ge (h : patch.WellFormed) {inner : RocksDb}
    (hversion : patch.manifest.versionCount ≤ version) :
    Transparent ⟨inner, some patch⟩ pending version ↔
      inner.rows version = .empty ∧ (direct ⟨inner, some patch⟩ pending).rows version = .empty := by
  obtain ⟨hroot, hnode⟩ := reads_of_ge h inner hversion
  have hrows : (flushed ⟨inner, some patch⟩).rows version = inner.rows version := by
    simp only [flushed, Option.elim, RocksDb.write, h.below version hversion]
  -- nothing is read before the flush, so nothing may be there after it
  have hempty : inner.rows version = .empty ↔ (inner.rows version).root = none ∧
      ∀ path isLeaf, RocksDb.RightFlag (flushed ⟨inner, some patch⟩) version path isLeaf →
        ((inner.rows version).nodes path).map Node.clone = none := by
    rw [VersionRows.ext_iff, funext_iff]
    refine and_congr_right fun _ => ⟨fun h path _ _ => by rw [h path]; rfl, fun h path => ?_⟩
    cases hpath : (inner.rows version).nodes path with
    | none => rfl
    | some node =>
      have hnone := h path node.isLeaf fun node' hnode' => by
        rw [hrows, hpath] at hnode'
        rw [Option.some.inj hnode']
      rw [hpath] at hnone
      cases hnone
  have hreads : (∀ path isLeaf,
      RocksDb.RightFlag (flushed ⟨inner, some patch⟩) version path isLeaf →
        treeNode ⟨inner, some patch⟩ ⟨version, path.1⟩ isLeaf =
          (flushed ⟨inner, some patch⟩).treeNode ⟨version, path.1⟩ isLeaf) ↔
      ∀ path isLeaf, RocksDb.RightFlag (flushed ⟨inner, some patch⟩) version path isLeaf →
        ((inner.rows version).nodes path).map Node.clone = none := by
    refine forall₃_congr fun path isLeaf hflag => ?_
    rw [hnode, RocksDb.treeNode_inner, hflag.nodeAt_eq, hrows, eq_comm]
  simp only [Transparent, hreads, hroot, RocksDb.root, hrows, eq_comm (a := none),
    Option.map_eq_none_iff] at hempty ⊢
  rw [← and_assoc, ← hempty]
  exact and_congr_right fun h => by rw [h, eq_comm]

/-- **Patches held in memory are transparent** for the versions below the version count, and for the
others if neither side has rows. -/
theorem transparent_iff (h : Reached db pending) :
    db.flush = .ok ⟨db.flushed, none⟩ ∧ db.manifest = db.flushed.manifest ∧
      db.flushed.manifest = (db.direct pending).manifest ∧
      db.flushed.staleKeys = (db.direct pending).staleKeys ∧
      (∀ version, db.Transparent pending version ↔
        version < (Database.manifestOrDefault db).versionCount ∨ db.patch = none ∨
          db.inner.rows version = .empty ∧ (db.direct pending).rows version = .empty) ∧
      ∀ keys : List (NodeKey × Bool), (∀ key ∈ keys, db.Transparent pending key.1.version ∧
        ∃ h, RocksDb.RightFlag db.flushed key.1.version ⟨key.1.nibbles, h⟩ key.2) →
          db.treeNodes keys = Database.treeNodes db.flushed keys := by
  refine ⟨db.flush_eq, ?_⟩
  obtain ⟨inner, _ | patch⟩ := db
  -- without a patch the wrapper is the database
  · obtain rfl := h.holds.1 rfl
    refine ⟨rfl, rfl, rfl, fun version => ?_, fun keys _ => rfl⟩
    exact iff_of_true ⟨rfl, fun _ _ _ => rfl, rfl⟩ (.inr (.inl rfl))
  · have hholds := h.holds.2 patch rfl
    refine ⟨rfl, hholds.manifest_eq, hholds.staleKeys_eq, fun version => ?_, fun keys hkeys => ?_⟩
    · rcases lt_or_ge version patch.manifest.versionCount with hlt | hge
      · obtain ⟨hroot, hnode⟩ := reads_of_lt hholds.wellFormed inner hlt
        refine iff_of_true ⟨hroot, fun path isLeaf hflag => ?_, hholds.rows_eq version hlt⟩
          (.inl hlt)
        rw [RocksDb.treeNode_inner]
        exact hnode path isLeaf hflag
      · have hfalse : ¬ version < (Database.manifestOrDefault (⟨inner, some patch⟩ :
            Patched RocksDb)).versionCount := hge.not_gt
        rw [transparent_iff_of_ge hholds.wellFormed hge]
        simp only [hfalse, reduceCtorEq, false_or]
    · rw [treeNodes_eq _ fun _ => rfl]
      refine List.map_congr_left fun key hkey => ?_
      obtain ⟨htransparent, hpath, hflag⟩ := hkeys key hkey
      exact htransparent.2.1 ⟨key.1.nibbles, hpath⟩ key.2 hflag

def samplePath (nibble : Nibble) : Nibbles := .new (nibble.setWidth 256 <<< 252) 1

def sampleLeaf (nibble : Nibble) : Node := .leaf ⟨nibble.setWidth 256 <<< 252, 7, 1⟩

def sampleRoot (version : ℕ) : Root :=
  .filled 2 (.internal ⟨fun nibble => if nibble < 2 then some (.leaf version) else none, none⟩)

def sampleNodes (version : ℕ) : NodeMap :=
  .insert ((samplePath 0).withVersion version) (sampleLeaf 0)
    (.singleton ((samplePath 1).withVersion version) (sampleLeaf 1))

/-- Two versions with nodes are held in memory as one patch, and both are transparent. -/
theorem transparent_iff_sample : ∃ db pending, Reached db pending ∧ pending.length = 2 ∧
    (∀ version < 2, db.Transparent pending version) ∧
    ∀ version < 2, db.treeNode ⟨version, samplePath 1⟩ true = some (sampleLeaf 1) := by
  have h := ((Reached.new ⟨none, fun _ => .empty, fun _ _ => false⟩).apply
    (@PatchSet.Allowed.extend _ ⟨1, none⟩ 0 (sampleRoot 0) (sampleNodes 0) [] (by decide) rfl
      nofun) rfl).apply
      (@PatchSet.Allowed.extend _ ⟨2, none⟩ 1 (sampleRoot 1) (sampleNodes 1)
        [(samplePath 0).withVersion 0, (samplePath 1).withVersion 0] (by decide) rfl
        (by rintro _ ⟨⟩; exact ⟨nofun, .inl rfl⟩)) rfl
  refine ⟨_, _, h, rfl, fun version hversion => ?_, fun version hversion => ?_⟩
  · exact ((transparent_iff h).2.2.2.2.1 version).2 (.inl hversion)
  · match version with
    | 0 => rfl
    | 1 => rfl

/-- After a truncation the root of the other version is read after the flush, but not before.  And a
version that is recovered, truncated and inserted again keeps its old nodes. -/
theorem truncation_not_transparent :
    let leaves (path : InnerPath) := (sampleNodes 1).lookup (path.1.withVersion 1)
    let db : RocksDb := ⟨some ⟨2, none⟩, fun version =>
      if version = 0 then ⟨some .empty, fun _ => none⟩
      else if version = 1 then ⟨some (sampleRoot 1), leaves⟩ else .empty, fun _ _ => false⟩
    let truncate := PatchSet.fromManifest
    let recover := PatchSet.new ⟨2, none⟩ 1 (sampleRoot 1) (sampleNodes 1) [] .update
    let insert := PatchSet.new ⟨2, none⟩ 1 .empty ∅ [] .insert
    (∃ patched flushed, (Patched.new db).applyPatch (truncate ⟨1, none⟩) = .ok patched ∧
      patched.flush = .ok flushed ∧ patched.root 1 = none ∧
      flushed.root 1 = some (sampleRoot 1)) ∧
    ∃ patched flushed, [recover, truncate ⟨1, none⟩, insert].foldlM Patched.applyPatch
        (Patched.new db) = .ok patched ∧
      patched.flush = .ok flushed ∧
      flushed.inner.treeNode ⟨1, samplePath 1⟩ true = some (sampleLeaf 1) ∧
      (((db.write recover).write (truncate ⟨1, none⟩)).write insert).treeNode
        ⟨1, samplePath 1⟩ true = none :=
  ⟨⟨_, _, rfl, rfl, rfl, rfl⟩, _, _, rfl, rfl, rfl, rfl⟩

end Patched

end MerkleTree
