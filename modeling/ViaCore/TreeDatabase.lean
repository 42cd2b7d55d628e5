/-
Databases of the state tree.

A database keeps, for every version of the tree, its root, and the nodes by the version in which
they first appeared.  The tree reads it through the trait `Database` of `storage/database.rs`; new
versions arrive as patches.  `PatchSet` is the in-memory implementation, `Patched` keeps a patch in
memory on top of another database, as the state keeper's tree does.

* `LawfulDatabase` — what the tree relies on.
-/
import Mathlib
import ViaCore.FiniteMap
import ViaCore.MerkleNodes

namespace MerkleTree

structure TreeTags where
  architecture : String
  depth : ℕ
  hasher : String
  isRecovering : Bool
  custom : List (String × String)

def TreeTags.new (hasher : HashTree) : TreeTags := ⟨"AR16MT", 256, hasher.name, false, []⟩

structure Manifest where
  versionCount : ℕ
  tags : Option TreeTags

def Manifest.empty : Manifest := ⟨0, none⟩

structure NodeKey where
  version : ℕ
  nibbles : Nibbles
  deriving DecidableEq

def Nibbles.withVersion (nibbles : Nibbles) (version : ℕ) : NodeKey := ⟨version, nibbles⟩

/-- Inserting a new version or updating an existing one (during recovery only). -/
inductive Operation where
  | insert
  | update
  deriving DecidableEq

abbrev NodeMap := AList fun _ : NodeKey => Node

structure PartialPatchSet where
  root : Option Root
  nodes : NodeMap

namespace PartialPatchSet

def merge (patch other : PartialPatchSet) : PartialPatchSet :=
  ⟨other.root, other.nodes ∪ patch.nodes⟩

end PartialPatchSet

structure PatchSet where
  manifest : Manifest
  patchesByVersion : AList fun _ : ℕ => PartialPatchSet
  updatedVersion : Option ℕ
  staleKeysByVersion : AList fun _ : ℕ => List NodeKey

inductive DatabaseError where
  | differentUpdatedVersions
  | updatedVersionNotLeast
  | io (text : String)
  deriving DecidableEq

namespace PatchSet

def empty : PatchSet := ⟨.empty, ∅, none, ∅⟩

def new (manifest : Manifest) (version : ℕ) (root : Root) (nodes : NodeMap)
    (staleKeys : List NodeKey) (operation : Operation) : PatchSet :=
  { manifest
    patchesByVersion := AList.singleton version ⟨some root, nodes⟩
    updatedVersion := match operation with
      | .insert => none
      | .update => some version
    staleKeysByVersion := AList.singleton version staleKeys }

def forEmptyRoot (manifest : Manifest) (version : ℕ) : PatchSet :=
  let staleKeys := match Nat.ppred version with
    | some prevVersion => [Nibbles.empty.withVersion prevVersion]
    | none => []
  new manifest version .empty ∅ staleKeys .insert

def fromManifest (manifest : Manifest) : PatchSet := ⟨manifest, ∅, none, ∅⟩

def isNewVersion (patch : PatchSet) (version : ℕ) : Bool :=
  decide (patch.manifest.versionCount ≤ version) ||
    (decide (patch.updatedVersion ≠ some version) &&
      (patch.patchesByVersion.lookup version).isSome)

/-- The first part of `apply_patch`: a patch that updates a version is merged into it. -/
def mergeUpdatedVersion (db other : PatchSet) : Outcome DatabaseError (PatchSet × PatchSet) :=
  match other.updatedVersion with
  | none => .ok (db, other)
  | some otherUpdatedVersion =>
    match db.updatedVersion with
    | some updatedVersion =>
      if otherUpdatedVersion ≠ updatedVersion then .err .differentUpdatedVersions
      else do
        let patch ← Outcome.unwrap (db.patchesByVersion.lookup updatedVersion)
        let otherPatch ← Outcome.unwrap (other.patchesByVersion.lookup updatedVersion)
        .ok ({ db with
            patchesByVersion := db.patchesByVersion.insert updatedVersion
              (patch.merge otherPatch) },
          { other with patchesByVersion := other.patchesByVersion.erase updatedVersion })
    | none =>
      if db.patchesByVersion.keys.all (fun version => decide (otherUpdatedVersion < version)) then
        .ok ({ db with updatedVersion := some otherUpdatedVersion }, other)
      else .err .updatedVersionNotLeast

def extendStaleKeys (stale : AList fun _ : ℕ => List NodeKey)
    (entries : List (Sigma fun _ : ℕ => List NodeKey)) : AList fun _ : ℕ => List NodeKey :=
  entries.foldl (fun stale entry =>
    stale.insert entry.1 ((stale.lookup entry.1).getD [] ++ entry.2)) stale

def applyPatch (db other : PatchSet) : Outcome DatabaseError PatchSet := do
  let (db, other) ← mergeUpdatedVersion db other
  let newVersionCount := other.manifest.versionCount
  let patchesByVersion :=
    if newVersionCount < db.manifest.versionCount then
      db.patchesByVersion.filterKeys fun version => decide (version < newVersionCount)
    else db.patchesByVersion
  .ok { db with
    manifest := other.manifest
    patchesByVersion := other.patchesByVersion ∪ patchesByVersion
    staleKeysByVersion :=
      extendStaleKeys db.staleKeysByVersion other.staleKeysByVersion.entries }

end PatchSet

/-- Generic database functionality.  `treeNode` is told whether the node is a leaf, since that is
how a stored node is deserialized. -/
class Database (DB : Type) where
  manifest : DB → Option Manifest
  root : DB → ℕ → Option Root
  treeNode : DB → NodeKey → Bool → Option Node
  treeNodes : DB → List (NodeKey × Bool) → List (Option Node)
  applyPatch : DB → PatchSet → Outcome DatabaseError DB

namespace Database

variable {DB : Type} [Database DB]

def manifestOrDefault (db : DB) : Manifest := (manifest db).getD .empty

/-- The patch for a new version is in the database, and the older versions are as they were.  Roots
and nodes are read back as clones. -/
structure Extended (db db' : DB) (manifest : Manifest) (version : ℕ) (root : Root)
    (nodes : NodeMap) : Prop where
  manifest_eq : Database.manifest db' = some manifest
  root_eq : Database.root db' version = some root.clone
  olderRoot : ∀ v < version, Database.root db' v = Database.root db v
  node : ∀ key node, key.version = version → nodes.lookup key = some node →
    treeNode db' key node.isLeaf = some node.clone
  olderNode : ∀ key isLeaf, key.version < version → treeNode db' key isLeaf = treeNode db key isLeaf

end Database

/-- What the tree relies on: several nodes are read as one is, and a patch for the next version is
stored. -/
class LawfulDatabase (DB : Type) [Database DB] : Prop where
  treeNodes_eq : ∀ (db : DB) (keys : List (NodeKey × Bool)),
    Database.treeNodes db keys = keys.map fun key => Database.treeNode db key.1 key.2
  applyPatch_new : ∀ (db : DB) (manifest : Manifest) (version : ℕ) (root : Root) (nodes : NodeMap)
    (staleKeys : List NodeKey), (Database.manifestOrDefault db).versionCount = version →
    manifest.versionCount = version + 1 →
    ∃ db', Database.applyPatch db (.new manifest version root nodes staleKeys .insert) = .ok db' ∧
      Database.Extended db db' manifest version root nodes

namespace PatchSet

def treeNode (db : PatchSet) (key : NodeKey) (_isLeaf : Bool) : Option Node :=
  ((db.patchesByVersion.lookup key.version).bind fun patch => patch.nodes.lookup key).map
    Node.clone

def root (db : PatchSet) (version : ℕ) : Option Root :=
  ((db.patchesByVersion.lookup version).bind PartialPatchSet.root).map Root.clone

instance : Database PatchSet where
  manifest := fun db => some db.manifest
  root := root
  treeNode := treeNode
  treeNodes := fun db keys => keys.map fun key => db.treeNode key.1 key.2
  applyPatch := applyPatch

theorem applyPatch_new (db : PatchSet) {manifest : Manifest} {version : ℕ} (root : Root)
    (nodes : NodeMap) (staleKeys : List NodeKey)
    (hkeep : db.manifest.versionCount ≤ manifest.versionCount) :
    db.applyPatch (new manifest version root nodes staleKeys .insert) =
      .ok { db with
        manifest
        patchesByVersion := AList.singleton version ⟨some root, nodes⟩ ∪ db.patchesByVersion
        staleKeysByVersion := extendStaleKeys db.staleKeysByVersion
          (AList.singleton version staleKeys : AList fun _ : ℕ => List NodeKey).entries } := by
  simp only [applyPatch, mergeUpdatedVersion, new, Outcome.ok_bind, if_neg hkeep.not_gt]

instance : LawfulDatabase PatchSet where
  treeNodes_eq := fun _ _ => rfl
  applyPatch_new := fun db manifest version root nodes staleKeys hversion hmanifest => by
    refine ⟨_, db.applyPatch_new root nodes staleKeys (hversion.trans_le (by omega)), rfl, ?_,
      fun v hv => ?_, fun key node hkey hnode => ?_, fun key isLeaf hkey => ?_⟩
    · simp only [Database.root, PatchSet.root, AList.lookup_singleton_union, if_true]
      rfl
    · simp only [Database.root, PatchSet.root, AList.lookup_singleton_union, if_neg hv.ne]
    · simp only [Database.treeNode, treeNode, AList.lookup_singleton_union, if_pos hkey,
        Option.bind_some, hnode, Option.map_some]
    · simp only [Database.treeNode, treeNode, AList.lookup_singleton_union, if_neg hkey.ne]

end PatchSet

/-! ### A patch on top of a database -/

/-- Wrapper for a database that also contains a patch on top of it. -/
structure Patched (DB : Type) where
  inner : DB
  patch : Option PatchSet

namespace Patched

variable {DB : Type} [Database DB]

def new (inner : DB) : Patched DB := ⟨inner, none⟩

/-- The value from the patch, and whether a lookup in the database is not required. -/
def lookupPatch (db : Patched DB) (key : NodeKey) (isLeaf : Bool) : Option Node × Bool :=
  match db.patch with
  | none => (none, false)
  | some patch =>
    if patch.isNewVersion key.version then (patch.treeNode key isLeaf, true)
    else if patch.updatedVersion = some key.version then
      match patch.treeNode key isLeaf with
      | some node => (some node, true)
      | none => (none, false)
    else (none, false)

def manifest (db : Patched DB) : Option Manifest :=
  match db.patch with
  | some patch => some patch.manifest
  | none => Database.manifest db.inner

def root (db : Patched DB) (version : ℕ) : Option Root :=
  match db.patch with
  | none => Database.root db.inner version
  | some patch =>
    if patch.isNewVersion version || decide (patch.updatedVersion = some version) then
      patch.root version
    else Database.root db.inner version

def treeNode (db : Patched DB) (key : NodeKey) (isLeaf : Bool) : Option Node :=
  match db.lookupPatch key isLeaf with
  | (patchNode, true) => patchNode
  | (some node, false) => some node
  | (none, false) => Database.treeNode db.inner key isLeaf

/-- The values taken from the patch are put back among those read from the database. -/
def interleave : List Bool → List (Option Node) → List (Option Node) → List (Option Node)
  | [], _, _ => []
  | true :: isInPatch, patchValues, dbValues =>
    patchValues.head?.join :: interleave isInPatch patchValues.tail dbValues
  | false :: isInPatch, patchValues, dbValues =>
    dbValues.head?.join :: interleave isInPatch patchValues dbValues.tail

def isInPatch (db : Patched DB) (key : NodeKey × Bool) : Bool :=
  (db.lookupPatch key.1 key.2).2 || (db.lookupPatch key.1 key.2).1.isSome

/-- The database is asked once, for the keys that the patch does not answer. -/
def treeNodes (db : Patched DB) (keys : List (NodeKey × Bool)) : List (Option Node) :=
  match db.patch with
  | none => Database.treeNodes db.inner keys
  | some _ =>
    let patchValues := (keys.filter db.isInPatch).map fun key => (db.lookupPatch key.1 key.2).1
    let dbKeys := keys.filter fun key => !db.isInPatch key
    interleave (keys.map db.isInPatch) patchValues (Database.treeNodes db.inner dbKeys)

def applyPatch (db : Patched DB) (patch : PatchSet) : Outcome DatabaseError (Patched DB) :=
  match db.patch with
  | some existingPatch => do
    let existingPatch ← existingPatch.applyPatch patch
    .ok { db with patch := some existingPatch }
  | none => .ok { db with patch := some patch }

/-- The changes in memory are written to the wrapped database. -/
def flush (db : Patched DB) : Outcome DatabaseError (Patched DB) :=
  match db.patch with
  | some patch => do .ok ⟨← Database.applyPatch db.inner patch, none⟩
  | none => .ok db

def reset (db : Patched DB) : Patched DB := { db with patch := none }

instance : Database (Patched DB) where
  manifest := manifest
  root := root
  treeNode := treeNode
  treeNodes := treeNodes
  applyPatch := applyPatch

variable {db : Patched DB}

theorem treeNode_eq (key : NodeKey × Bool) : db.treeNode key.1 key.2 =
    if db.isInPatch key then (db.lookupPatch key.1 key.2).1
    else Database.treeNode db.inner key.1 key.2 := by
  rw [treeNode, isInPatch]
  obtain ⟨_ | node, _ | _⟩ := db.lookupPatch key.1 key.2 <;> rfl

theorem treeNodes_eq (db : Patched DB) (hinner : ∀ keys, Database.treeNodes db.inner keys =
      keys.map fun key => Database.treeNode db.inner key.1 key.2) (keys : List (NodeKey × Bool)) :
    db.treeNodes keys = keys.map fun key => db.treeNode key.1 key.2 := by
  rw [treeNodes]
  split
  · rename_i hpatch
    rw [hinner]
    refine List.map_congr_left fun key _ => ?_
    rw [treeNode, lookupPatch, hpatch]
  · simp only [hinner]
    induction keys with
    | nil => rfl
    | cons key keys ih =>
      by_cases hkey : db.isInPatch key = true
      · simp only [List.map_cons, treeNode_eq, hkey, interleave, List.filter_cons, if_true,
          List.head?_cons, List.tail_cons, Bool.not_true, Bool.false_eq_true, if_false] at ih ⊢
        rw [ih]
        rfl
      · rw [Bool.not_eq_true] at hkey
        simp only [List.map_cons, treeNode_eq, hkey, interleave, List.filter_cons, if_true,
          List.head?_cons, List.tail_cons, Bool.not_false, Bool.false_eq_true, if_false] at ih ⊢
        rw [ih]
        rfl

end Patched

end MerkleTree
