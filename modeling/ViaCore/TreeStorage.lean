/-
Updating the state tree.

A new version is made in a working patch set: the nodes on the paths of the written keys are loaded
level by level, the entries are inserted one after another without hashing, and in the end all nodes
of the patch set are hashed from the bottom.

* `Storage.extend`, `extend` — one version of the tree.
-/
import Mathlib
import ViaCore.TreeDatabase

namespace MerkleTree

/-- Node of a working patch set, with the version it was loaded from. -/
structure WorkingNode where
  inner : Node
  prevVersion : Option ℕ

abbrev Level := AList fun _ : NibblesBytes => WorkingNode

/-- Mutable version of a patch set.  The level with index `n` has the nodes with `n` nibbles. -/
structure WorkingPatchSet where
  rootVersion : ℕ
  changesByNibbleCount : List Level

/-- Where the descent along a key has ended. -/
inductive TraverseOutcome where
  | leafMatch (nibbles : Nibbles) (leaf : LeafNode)
  | leafMismatch (nibbles : Nibbles) (leaf : LeafNode)
  | missingChild (nibbles : Nibbles)

def TraverseOutcome.position : TraverseOutcome → Nibbles
  | leafMatch nibbles _ => nibbles
  | leafMismatch nibbles _ => nibbles
  | missingChild nibbles => nibbles

namespace WorkingPatchSet

def new (rootVersion : ℕ) : Root → WorkingPatchSet
  | .filled _ node =>
    ⟨rootVersion, [AList.singleton Nibbles.empty.bytes ⟨node, Nat.ppred rootVersion⟩]⟩
  | .empty => ⟨rootVersion, []⟩

def entry (set : WorkingPatchSet) (nibbles : Nibbles) : Option WorkingNode :=
  (set.changesByNibbleCount[nibbles.nibbleCount]?).bind fun level => level.lookup nibbles.bytes

def get (set : WorkingPatchSet) (nibbles : Nibbles) : Option Node :=
  (set.entry nibbles).map WorkingNode.inner

/-- Puts a node at a position.  The previous version of a node that is there is kept. -/
def insert (set : WorkingPatchSet) (key : Nibbles) (node : Node) : WorkingPatchSet :=
  let levels := set.changesByNibbleCount ++
    List.replicate (key.nibbleCount + 1 - set.changesByNibbleCount.length) ∅
  { set with
    changesByNibbleCount := levels.modify key.nibbleCount fun level =>
      match level.lookup key.bytes with
      | none => level.insert key.bytes ⟨node, none⟩
      | some working => level.insert key.bytes { working with inner := node } }

def childRef (set : WorkingPatchSet) (key : Nibbles) (childNibble : Nibble) : Option ChildRef :=
  match set.get key with
  | some (.internal parent) => parent.childRef childNibble
  | _ => none

/-- A change through `child_ref_mut`; `none` when there is no reference. -/
def updateChildRef (set : WorkingPatchSet) (key : Nibbles) (childNibble : Nibble)
    (f : ChildRef → ChildRef) : Option WorkingPatchSet :=
  match set.get key with
  | some (.internal parent) =>
    (parent.childRef childNibble).map fun childRef =>
      set.insert key (.internal (parent.insertChildRef childNibble (f childRef)))
  | _ => none

def pushLevelFromDb (set : WorkingPatchSet) (level : List (NodeKey × Node)) : WorkingPatchSet :=
  let level := level.foldl (fun (level : Level) item =>
    level.insert item.1.nibbles.bytes ⟨item.2, some item.1.version⟩) ∅
  { set with changesByNibbleCount := set.changesByNibbleCount ++ [level] }

/-! ### Loading -/

/-- What the scan of the keys for one level keeps. -/
structure LoadState where
  longestPrefixes : List (Option Nibbles)
  prevNibbles : Option Nibbles
  requestedKeys : List (NodeKey × Bool)

/-- One key in the scan for a level: its longest prefix is found, or a node is requested. -/
def requestKey (set : WorkingPatchSet) (nibbleCount : ℕ) (state : LoadState) (item : ℕ × Key) :
    Outcome DatabaseError LoadState :=
  if (state.longestPrefixes.getD item.1 none).isSome then .ok state
  else if 64 < nibbleCount then
    .ok { state with
      longestPrefixes := state.longestPrefixes.set item.1 (some (Nibbles.new item.2 64)) }
  else do
    let nibbles := Nibbles.new item.2 nibbleCount
    let (thisParentNibbles, lastNibble) ← Outcome.unwrap nibbles.splitLast
    match set.childRef thisParentNibbles lastNibble with
    | none => .ok { state with
        longestPrefixes := state.longestPrefixes.set item.1 (some thisParentNibbles) }
    | some thisRef =>
      -- the keys are sorted, so equal positions come one after another
      if state.prevNibbles = some nibbles then .ok state
      else .ok { state with
        prevNibbles := some nibbles
        requestedKeys := state.requestedKeys ++
          [(nibbles.withVersion thisRef.version, thisRef.isLeaf)] }

theorem requestKey_deep {set : WorkingPatchSet} {nibbleCount : ℕ} (h : 64 < nibbleCount)
    (items : List (ℕ × Key)) {state state' : LoadState}
    (hfold : items.foldlM (set.requestKey nibbleCount) state = .ok state') :
    state'.requestedKeys = state.requestedKeys := by
  induction items generalizing state with
  | nil =>
    cases hfold
    rfl
  | cons item items ih =>
    rw [List.foldlM_cons, Outcome.bind_eq_ok] at hfold
    obtain ⟨middle, hstep, hrest⟩ := hfold
    have hmiddle : middle.requestedKeys = state.requestedKeys := by
      rw [requestKey] at hstep
      split at hstep
      · cases hstep
        rfl
      · cases hstep
        rfl
    rw [ih hrest, hmiddle]

variable {DB : Type} [Database DB]

/-- The nodes of one level after another, until no key needs a node any more. -/
def loadLevels (db : DB) (sortedKeys : List (ℕ × Key)) (set : WorkingPatchSet) (nibbleCount : ℕ)
    (longestPrefixes : List (Option Nibbles)) (prevNibbles : Option Nibbles) (dbReads : ℕ) :
    Outcome DatabaseError (WorkingPatchSet × List (Option Nibbles) × ℕ) :=
  match _hscan : sortedKeys.foldlM (set.requestKey nibbleCount)
      ⟨longestPrefixes, prevNibbles, []⟩ with
  | .ok state =>
    if _hempty : state.requestedKeys = [] then .ok (set, state.longestPrefixes, dbReads)
    else do
      let newNodes := Database.treeNodes db state.requestedKeys
      let level ← (state.requestedKeys.zip newNodes).mapM fun (key, node) => do
        let node ← Outcome.unwrap node
        .ok (key.1, node)
      loadLevels db sortedKeys (set.pushLevelFromDb level) (nibbleCount + 1)
        state.longestPrefixes state.prevNibbles (dbReads + newNodes.length)
  | .err error => .err error
  | .panic => .panic
termination_by 65 - nibbleCount
decreasing_by
  have hcount : ¬ 64 < nibbleCount := fun h => _hempty (requestKey_deep h sortedKeys _hscan)
  omega

/-- The longest prefix in the tree for each key, in the order of the keys. -/
structure LoadAncestorsResult where
  longestPrefixes : List Nibbles
  dbReads : ℕ

def loadAncestors (db : DB) (sortedKeys : List (ℕ × Key)) (set : WorkingPatchSet) :
    Outcome DatabaseError (LoadAncestorsResult × WorkingPatchSet) :=
  match set.get Nibbles.empty with
  | some (.internal _) => do
    let (set, longestPrefixes, dbReads) ←
      loadLevels db sortedKeys set 1 (List.replicate sortedKeys.length none) none 0
    let longestPrefixes ← longestPrefixes.mapM fun nibbles => Outcome.unwrap nibbles
    .ok (⟨longestPrefixes, dbReads⟩, set)
  | _ => .ok (⟨List.replicate sortedKeys.length Nibbles.empty, 0⟩, set)

def traverseFrom (set : WorkingPatchSet) (key : Key) (nibbleIdx : ℕ) :
    Outcome DatabaseError TraverseOutcome :=
  if nibbleIdx ≤ 64 then
    let nibbles := Nibbles.new key nibbleIdx
    match set.get nibbles with
    | some (.internal _) => traverseFrom set key (nibbleIdx + 1)
    | some (.leaf leaf) =>
      if leaf.fullKey = key then .ok (.leafMatch nibbles leaf) else .ok (.leafMismatch nibbles leaf)
    | none => .ok (.missingChild nibbles)
  else .panic
termination_by 65 - nibbleIdx

def traverse (set : WorkingPatchSet) (key : Key) (parentNibbles : Nibbles) :
    Outcome DatabaseError TraverseOutcome :=
  set.traverseFrom key parentNibbles.nibbleCount

/-! ### Finalizing -/

/-- A node that is not the root: its hash and version are those of the reference in its parent. -/
def finalizeNode (operation : Operation) (state : Level × NodeMap × List NodeKey)
    (item : Nibbles × Option ValueHash × WorkingNode) :
    Outcome DatabaseError (Level × NodeMap × List NodeKey) := do
  let (upperLevelChanges, patchedNodes, staleKeys) := state
  let (nibbles, nodeHash, node) := item
  let (parentNibbles, lastNibble) ← Outcome.unwrap nibbles.splitLast
  let parent ← Outcome.unwrap (upperLevelChanges.lookup parentNibbles.bytes)
  match parent.inner with
  | .leaf _ => .panic
  | .internal parentNode => do
    let selfRef ← Outcome.unwrap (parentNode.childRef lastNibble)
    let selfRef := match nodeHash with
      | some nodeHash => { selfRef with hash := nodeHash }
      | none => selfRef
    let upperLevelChanges := upperLevelChanges.insert parentNibbles.bytes
      { parent with inner := .internal (parentNode.insertChildRef lastNibble selfRef) }
    let nodeVersion := selfRef.version
    let wasReplaced := node.prevVersion.all fun prevVersion => decide (prevVersion < nodeVersion)
    let staleKeys := match wasReplaced, node.prevVersion with
      | true, some prevVersion => staleKeys ++ [nibbles.withVersion prevVersion]
      | _, _ => staleKeys
    let patchedNodes :=
      if wasReplaced || decide (operation = .update) then
        patchedNodes.insert (nibbles.withVersion nodeVersion) node.inner
      else patchedNodes
    .ok (upperLevelChanges, patchedNodes, staleKeys)

/-- The levels from the bottom up; the first one is the lowest of those that are left. -/
def finalizeLevels (rootVersion : ℕ) (manifest : Manifest) (leafCount : ℕ) (operation : Operation)
    (mapLevelChanges : ℕ → Level → List (Nibbles × Option ValueHash × WorkingNode))
    (levelChanges : Level) (patchedNodes : NodeMap) (staleKeys : List NodeKey) :
    List Level → Outcome DatabaseError (Option ValueHash × PatchSet)
  | [] =>
    match mapLevelChanges 0 levelChanges with
    | [] => .panic
    | (nibbles, nodeHash, node) :: _ => do
      let staleKeys := match operation, node.prevVersion with
        | .insert, some prevVersion => staleKeys ++ [nibbles.withVersion prevVersion]
        | _, _ => staleKeys
      let root ← Root.new leafCount node.inner
      .ok (nodeHash, .new manifest rootVersion root patchedNodes staleKeys operation)
  | upper :: uppers => do
    let (upper, patchedNodes, staleKeys) ← (mapLevelChanges (uppers.length + 1) levelChanges).foldlM
      (finalizeNode operation) (upper, patchedNodes, staleKeys)
    finalizeLevels rootVersion manifest leafCount operation mapLevelChanges upper patchedNodes
      staleKeys uppers

def finalizeInner (set : WorkingPatchSet) (manifest : Manifest) (leafCount : ℕ)
    (operation : Operation)
    (mapLevelChanges : ℕ → Level → List (Nibbles × Option ValueHash × WorkingNode)) :
    Outcome DatabaseError (Option ValueHash × PatchSet) :=
  if (set.changesByNibbleCount.map fun level => level.entries.length).sum = 0 then
    -- the tree is empty and there is no root
    .ok (none, .forEmptyRoot manifest set.rootVersion)
  else
    match set.changesByNibbleCount.reverse with
    | [] => .panic
    | level :: uppers =>
      finalizeLevels set.rootVersion manifest leafCount operation mapLevelChanges level ∅ [] uppers

/-- In which order the nodes of a level are handed out: neither a `HashMap` nor the parallel
iterator over it promises one. -/
structure IterationOrder where
  order : {α : Type} → List α → List α
  perm : ∀ {α : Type} (items : List α), (order items).Perm items

def finalize (set : WorkingPatchSet) (manifest : Manifest) (leafCount : ℕ) (operation : Operation)
    (hasher : HashTree) (iteration : IterationOrder) :
    Outcome DatabaseError (ValueHash × PatchSet) := do
  let (rootHash, patch) ← set.finalizeInner manifest leafCount operation
    fun nibbleCount levelChanges =>
      let treeLevel := nibbleCount * 4
      iteration.order (levelChanges.entries.map fun change =>
        (Nibbles.fromParts change.1 nibbleCount, some (change.2.inner.hash hasher treeLevel),
          change.2))
  .ok (rootHash.getD hasher.emptyTreeHash, patch)

end WorkingPatchSet

/-! ### Inserting -/

inductive TreeLogEntry where
  | inserted
  | updated (leafIndex : UInt64) (previousValue : ValueHash)
  | read (leafIndex : UInt64) (value : ValueHash)
  | readMissingKey
  deriving DecidableEq

/-- The new or updated leaf, and the leaf moved down the tree for it. -/
structure NewLeafData where
  nibbles : Nibbles
  leaf : LeafNode
  adjacentLeaf : Option (Nibbles × LeafNode)

namespace TreeUpdater

/-- The reference to a leaf that is moved down is one to an internal node from now on. -/
def updateMovedLeafRef (set : WorkingPatchSet) (leafNibbles : Nibbles) :
    Outcome DatabaseError WorkingPatchSet :=
  match leafNibbles.splitLast with
  | none => .ok set
  | some (parentNibbles, lastNibble) =>
    Outcome.unwrap (set.updateChildRef parentNibbles lastNibble fun childRef =>
      { childRef with isLeaf := false })

/-- The loop for a mismatching leaf: internal nodes down to where the keys part.  Returns the nibble
index of the last one. -/
def insertFork (version : ℕ) (movedKey key : Key) (nibbleIdx : ℕ) (set : WorkingPatchSet) :
    Outcome DatabaseError (ℕ × WorkingPatchSet) :=
  if nibbleIdx < 64 then
    let movedLeafNibble := Nibbles.nibble movedKey nibbleIdx
    let newLeafNibble := Nibbles.nibble key nibbleIdx
    let node :=
      if movedLeafNibble = newLeafNibble then
        InternalNode.empty.insertChildRef newLeafNibble (.internal version)
      else
        (InternalNode.empty.insertChildRef newLeafNibble (.leaf version)).insertChildRef
          movedLeafNibble (.leaf version)
    let set := set.insert (Nibbles.new key nibbleIdx) (.internal node)
    if movedLeafNibble ≠ newLeafNibble then .ok (nibbleIdx, set)
    else insertFork version movedKey key (nibbleIdx + 1) set
  else .panic
termination_by 64 - nibbleIdx

/-- The references on the way from a position up to the root get the new version. -/
def updateVersions (version : ℕ) (cursor : Nibbles) (set : WorkingPatchSet) :
    Outcome DatabaseError WorkingPatchSet :=
  match _hsplit : cursor.splitLast with
  | none => .ok set
  | some (parentNibbles, lastNibble) => do
    let set ← Outcome.unwrap (set.updateChildRef parentNibbles lastNibble fun childRef =>
      { childRef with version := max childRef.version version })
    updateVersions version parentNibbles set
termination_by cursor.nibbleCount
decreasing_by exact Nibbles.splitLast_lt _hsplit

/-- What the descent has found is changed; the leaves themselves are put in place afterwards. -/
def applyOutcome (set : WorkingPatchSet) (entry : TreeEntry) :
    TraverseOutcome → Outcome DatabaseError (TreeLogEntry × NewLeafData × WorkingPatchSet)
  | .leafMatch nibbles leaf =>
    let log := .updated leaf.leafIndex leaf.valueHash
    let leaf := leaf.updateFrom entry
    .ok (log, ⟨nibbles, leaf, none⟩, set.insert nibbles (.leaf leaf))
  | .leafMismatch nibbles leaf => do
    let set ← updateMovedLeafRef set nibbles
    let (nibbleIdx, set) ←
      insertFork set.rootVersion leaf.fullKey entry.key nibbles.nibbleCount set
    let newLeafNibbles := Nibbles.new entry.key (nibbleIdx + 1)
    let movedLeafNibbles := Nibbles.new leaf.fullKey (nibbleIdx + 1)
    .ok (.inserted, ⟨newLeafNibbles, .new entry, some (movedLeafNibbles, leaf)⟩, set)
  | .missingChild nibbles =>
    if nibbles.nibbleCount = 0 then
      -- the root is empty; it is replaced with a leaf
      .ok (.inserted, ⟨.empty, .new entry, none⟩, set.insert .empty (.leaf (.new entry)))
    else do
      let (parentNibbles, lastNibble) ← Outcome.unwrap nibbles.splitLast
      match set.get parentNibbles with
      | some (.internal parent) =>
        let parent := parent.insertChildRef lastNibble (.leaf set.rootVersion)
        .ok (.inserted, ⟨nibbles, .new entry, none⟩, set.insert parentNibbles (.internal parent))
      | _ => .panic

/-- Puts the leaves in place: the new one if there is one, and the one that was moved. -/
def insertLeaves (set : WorkingPatchSet) (log : TreeLogEntry) (leafData : NewLeafData) :
    WorkingPatchSet :=
  let set := if log = .inserted then set.insert leafData.nibbles (.leaf leafData.leaf) else set
  match leafData.adjacentLeaf with
  | some (nibbles, leaf) => set.insert nibbles (.leaf leaf)
  | none => set

def insert (set : WorkingPatchSet) (entry : TreeEntry) (parentNibbles : Nibbles) :
    Outcome DatabaseError ((TreeLogEntry × NewLeafData) × WorkingPatchSet) := do
  let outcome ← set.traverse entry.key parentNibbles
  let (log, leafData, set) ← applyOutcome set entry outcome
  let set := insertLeaves set log leafData
  let set ← updateVersions set.rootVersion outcome.position set
  .ok ((log, leafData), set)

end TreeUpdater

/-- `SortedKeys::new`: keys with their indices in the block, sorted by key. -/
def sortedKeys (keys : List Key) : List (ℕ × Key) :=
  (keys.zipIdx.map fun item => (item.2, item.1)).mergeSort fun a b => decide (a.2 ≤ b.2)

structure Storage (DB : Type) where
  db : DB
  hasher : HashTree
  manifest : Manifest
  leafCount : ℕ
  operation : Operation
  patchSet : WorkingPatchSet

structure BlockOutput where
  rootHash : ValueHash
  leafCount : ℕ
  logs : List TreeLogEntry
  deriving DecidableEq

namespace Storage

variable {DB : Type} [Database DB]

def new (db : DB) (hasher : HashTree) (version : ℕ) (createNewVersion : Bool) : Storage DB :=
  let manifest := Database.manifestOrDefault db
  let manifest : Manifest :=
    { versionCount := version + 1
      tags := some (manifest.tags.getD (.new hasher)) }
  let baseVersion := if createNewVersion then Nat.ppred version else some version
  let root := match baseVersion with
    | some baseVersion => (Database.root db baseVersion).getD .empty
    | none => .empty
  { db, hasher, manifest
    leafCount := root.leafCount
    operation := if createNewVersion then .insert else .update
    patchSet := .new version root }

def extendEntry (state : List TreeLogEntry × ℕ × WorkingPatchSet) (item : TreeEntry × Nibbles) :
    Outcome DatabaseError (List TreeLogEntry × ℕ × WorkingPatchSet) := do
  let (logs, leafCount, set) := state
  let ((log, _), set) ← TreeUpdater.insert set item.1 item.2
  .ok (logs ++ [log], if log = .inserted then leafCount + 1 else leafCount, set)

/-- Extends the tree without intermediate hash computations. -/
def extend (storage : Storage DB) (entries : List TreeEntry)
    (iteration : WorkingPatchSet.IterationOrder) :
      Outcome DatabaseError (BlockOutput × PatchSet) := do
  let sortedKeys := sortedKeys (entries.map TreeEntry.key)
  let (parentNibbles, set) ← storage.patchSet.loadAncestors storage.db sortedKeys
  let (logs, leafCount, set) ← (entries.zip parentNibbles.longestPrefixes).foldlM extendEntry
    ([], storage.leafCount, set)
  let (rootHash, patch) ←
    set.finalize storage.manifest leafCount storage.operation storage.hasher iteration
  .ok (⟨rootHash, leafCount, logs⟩, patch)

end Storage

variable {DB : Type} [Database DB]

/-- `MerkleTree::extend`: a new version of the tree. -/
def extend (hasher : HashTree) (iteration : WorkingPatchSet.IterationOrder) (db : DB)
    (entries : List TreeEntry) : Outcome DatabaseError (BlockOutput × DB) := do
  let nextVersion := (Database.manifestOrDefault db).versionCount
  let storage := Storage.new db hasher nextVersion true
  let (output, patch) ← storage.extend entries iteration
  let db ← Database.applyPatch db patch
  .ok (output, db)

def extendAll (hasher : HashTree) (iteration : WorkingPatchSet.IterationOrder) :
    DB → List (List TreeEntry) → Outcome DatabaseError (List BlockOutput × DB)
  | db, [] => .ok ([], db)
  | db, entries :: rest => do
    let (output, db) ← extend hasher iteration db entries
    let (outputs, db) ← extendAll hasher iteration db rest
    .ok (output :: outputs, db)

def rootHash (hasher : HashTree) (db : DB) (version : ℕ) : Option ValueHash :=
  (Database.root db version).map (Root.hash hasher)

end MerkleTree
