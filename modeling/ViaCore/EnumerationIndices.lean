/-
Enumeration indices.

Every slot gets an index when it is first written, and its leaf in the tree has this index.  The
numbering is computed three times: when a batch is sealed, the slots that are new to
`initial_writes` get the numbers after the highest one; the handler that runs after it computes the
leaf indices of all writes of the batch with a counter of its own, in the order of the state
differences, or reads them from the table, if there are only the deduplicated logs; and where it has
not stored them, as for the genesis, the tree takes the slots that the blocks of the batch have
touched and looks them up.

* `sealRun_indices` — in every run from the genesis.
-/
import ViaCore.StorageTables

namespace StateDb

/-! ### Leaf indices -/

structure TreeWrite where
  hashedKey : H256
  value : H256
  leafIndex : ℕ
  deriving DecidableEq

/-- `SELECT MAX(INDEX)` over the last batch up to the given one that has initial writes. -/
def maxEnumerationIndexByL1Batch (db : StateDb) (number : ℕ) : Option ℕ :=
  let batches := (db.initialWrites.filter fun row => row.l1BatchNumber ≤ number).map
    InitialWrite.l1BatchNumber
  batches.max?.bind fun last =>
    ((db.initialWrites.filter fun row => row.l1BatchNumber = last).map InitialWrite.index).max?

def assignLeafIndices {α : Type} (known : α → Option ℕ) (slot : α → H256 × H256) :
    ℕ → List α → List TreeWrite
  | _, [] => []
  | nextIndex, a :: rest =>
    match known a with
    | some leafIndex =>
      ⟨(slot a).1, (slot a).2, leafIndex⟩ :: assignLeafIndices known slot nextIndex rest
    | none =>
      ⟨(slot a).1, (slot a).2, nextIndex⟩ :: assignLeafIndices known slot (nextIndex + 1) rest

def treeInput (db : StateDb) (number : ℕ) (batch : FinishedBatch) : List TreeWrite :=
  let nextIndex := (db.maxEnumerationIndexByL1Batch (number - 1)).getD 0 + 1
  match batch.stateDiffs with
  | some stateDiffs =>
    assignLeafIndices
      (fun diff => if diff.isWriteInitial then none else some diff.enumerationIndex)
      (fun diff => (diff.hashedKey, diff.finalValue)) nextIndex stateDiffs
  | none =>
    assignLeafIndices (fun log => (db.initialWrite log.1).map InitialWrite.index) id nextIndex
      batch.deduplicatedWrites

/-- The slots of the logs of a batch, from its first block to its last, with the last value. -/
def getTouchedSlotsForExecutedL1Batch (db : StateDb) (number : ℕ) : List (H256 × H256) :=
  let blocks := (db.miniblocks.filter fun row => row.l1BatchNumber = some number).map L2Block.number
  let logs := db.storageLogs.filter fun log =>
    (∃ first ∈ blocks, first ≤ log.l2Block) ∧ ∃ last ∈ blocks, log.l2Block ≤ last
  (logs.map StorageLog.hashedKey).dedup.map fun key =>
    (key, ((logs.filter fun log => log.hashedKey = key).getLast?.map StorageLog.value).getD .zero)

/-- What the tree writes if the column is not there: the touched slots that have an index by then.
Some of them may not have changed. -/
def extractStorageLogsFromDb (db : StateDb) (number : ℕ) (protectiveReads : List H256) :
    List TreeWrite :=
  ((db.getTouchedSlotsForExecutedL1Batch number).filter fun slot =>
    slot.1 ∉ protectiveReads).filterMap fun slot =>
      ((db.initialWrite slot.1).filter fun row => row.l1BatchNumber ≤ number).map fun row =>
        ⟨slot.1, slot.2, row.index⟩

/-- The slots of the logs of the blocks that belong to no batch yet. -/
def openSlots (db : StateDb) : List H256 :=
  (db.storageLogs.filter fun log => L2Block.mk log.l2Block none ∈ db.miniblocks).map
    StorageLog.hashedKey

/-- What the VM returns, over a storage that has the indices of the table: the writes that change a
slot, as state differences or not, and the deduplicated logs. -/
def vmFinishedBatch (db : StateDb) (stateDiffs : Option (List (H256 × H256)))
    (deduplicatedWrites : List (H256 × H256)) : FinishedBatch where
  stateDiffs := stateDiffs.map fun diffs => diffs.map fun diff =>
    ⟨diff.1, ((db.initialWrite diff.1).map InitialWrite.index).getD 0, diff.2⟩
  deduplicatedWrites := deduplicatedWrites

end StateDb

open StateDb

/-! ### Output handlers and the tree -/

structure SealState where
  db : StateDb
  /-- The column `tree_writes`. -/
  treeWrites : List (ℕ × List TreeWrite)
  protectiveReads : List (ℕ × H256)
  /-- Handed to the first of the two handlers but not yet to the second. -/
  handling : Option (ℕ × FinishedBatch)
  tree : List (List TreeWrite)

inductive SealEvent where
  | insertStorageLogs (logs : List (H256 × H256))
  | insertL2Block
  | clearPendingL2Block
  | sealL1Batch (logs : List (H256 × H256)) (stateDiffs : Option (List (H256 × H256)))
      (deduplicatedWrites : List (H256 × H256))
  | setTreeWrites
  | insertProtectiveReads (number : ℕ) (hashedKeys : List H256)
  /-- The tree applies its next batch, in full mode or not. -/
  | updateTree (full : Bool)
  /-- The node stops; what has been handed to the handlers is lost. -/
  | restart

def SealEvent.writes : SealEvent → List (H256 × H256)
  | .sealL1Batch _ stateDiffs deduplicatedWrites => stateDiffs.getD deduplicatedWrites
  | _ => []

namespace SealState

def genesis (logs writes : List (H256 × H256)) : Option SealState :=
  if ∀ write ∈ writes, write.1 ∈ logs.map Prod.fst then
    (StateDb.empty.sealL1Batch 0 0 logs ⟨none, writes⟩).map fun db => ⟨db, [], [], none, []⟩
  else none

/-- What `L1BatchWithLogs::new` loads: the stored column, for which it waits a while if the batch
before has one, or else what the other tables have. -/
def loadWrites (s : SealState) (number : ℕ) (full : Bool) : List TreeWrite :=
  match s.treeWrites.find? fun batch => batch.1 = number with
  | some batch => batch.2
  | none =>
    let protectiveReads := if full then
        (s.protectiveReads.filter fun read => read.1 = number).map Prod.snd
      else []
    s.db.extractStorageLogsFromDb number protectiveReads

/-- The numbers of blocks and batches are those that the keeper has for them (`Keeper.Stored`). -/
def step (s : SealState) : SealEvent → Option SealState
  | .insertStorageLogs logs => some { s with db := s.db.insertStorageLogs s.db.nextL2Block logs }
  | .insertL2Block => some { s with db := s.db.insertL2Block s.db.nextL2Block }
  | .clearPendingL2Block => some { s with db := s.db.clearPendingL2Block (s.db.nextL2Block - 1) }
  | .sealL1Batch logs stateDiffs deduplicatedWrites =>
    let batch := s.db.vmFinishedBatch stateDiffs deduplicatedWrites
    let writes := stateDiffs.getD deduplicatedWrites
    -- the handlers run one after the other; the VM writes each slot once, and logs it
    if s.handling = none ∧ (writes.map Prod.fst).Nodup ∧
        ∀ write ∈ writes, write.1 ∈ s.db.openSlots ++ logs.map Prod.fst then
      (s.db.sealL1Batch s.db.nextL2Block s.db.pendingL1Batch logs batch).map fun db =>
        { s with db, handling := some (s.db.pendingL1Batch, batch) }
    else none
  | .setTreeWrites =>
    s.handling.map fun (number, batch) =>
      { s with
        treeWrites := s.treeWrites ++ [(number, s.db.treeInput number batch)]
        handling := none }
  | .insertProtectiveReads number hashedKeys =>
    -- a slot that is written for the first time in a batch is not among its protective reads
    if number ∈ s.db.l1Batches ∧ ∀ row ∈ s.db.initialWrites, row.l1BatchNumber = number →
        row.hashedKey ∉ hashedKeys then
      some { s with protectiveReads := s.protectiveReads ++ hashedKeys.map (number, ·) }
    else none
  | .updateTree full =>
    let number := s.tree.length
    if number ∈ s.db.l1Batches then
      some { s with tree := s.tree ++ [s.loadWrites number full] }
    else none
  | .restart => some { s with handling := none }

/-- The index of a leaf of the tree: that of the last write to its slot. -/
def leafIndex (s : SealState) (hashedKey : H256) : Option ℕ :=
  (s.tree.flatten.reverse.find? fun write => write.hashedKey = hashedKey).map TreeWrite.leafIndex

end SealState

/-- The indices are `1, 2, …, n`, in the order of the batches, and each slot has one. -/
structure Numbered (db : StateDb) : Prop where
  indices : db.initialWrites.map InitialWrite.index = List.range' 1 db.initialWrites.length
  ordered : (db.initialWrites.map InitialWrite.l1BatchNumber).Pairwise (· ≤ ·)
  nodup : (db.initialWrites.map InitialWrite.hashedKey).Nodup
  sealed : ∀ row ∈ db.initialWrites, row.l1BatchNumber < db.pendingL1Batch

namespace Numbered

variable {db db' : StateDb} {number : ℕ}

theorem getD_max?_range' (n : ℕ) : (List.range' 1 n).max?.getD 0 = n := by
  rcases Nat.eq_zero_or_pos n with rfl | hpos
  · rfl
  · have hmax : (List.range' 1 n).max? = some n := by
      rw [List.max?_eq_some_iff]
      refine ⟨List.mem_range'_1.2 ⟨hpos, by omega⟩, fun m hm => ?_⟩
      have := List.mem_range'_1.1 hm
      omega
    rw [hmax]
    rfl

theorem maxEnumerationIndex_eq (h : Numbered db) :
    db.maxEnumerationIndex.getD 0 = db.initialWrites.length := by
  rw [maxEnumerationIndex, h.indices, getD_max?_range']

variable {row : InitialWrite}

theorem mem_of_initialWrite {key : H256} (h : db.initialWrite key = some row) :
    row ∈ db.initialWrites ∧ row.hashedKey = key :=
  ⟨List.mem_of_find?_eq_some h, by simpa using List.find?_some h⟩

theorem mem_initialWrites (h : Numbered db) :
    row ∈ db.initialWrites ↔ db.initialWrite row.hashedKey = some row := by
  constructor
  · intro hmem
    cases hfind : db.initialWrite row.hashedKey with
    | none =>
      have hnone := List.find?_eq_none.1 hfind row hmem
      exact absurd (decide_eq_true rfl) hnone
    | some row' =>
      obtain ⟨hmem', hkey⟩ := mem_of_initialWrite hfind
      rw [List.inj_on_of_nodup_map h.nodup hmem' hmem hkey]
  · exact fun hrow => (mem_of_initialWrite hrow).1

/-- Indices are positive, so that zero can stand for a slot without one. -/
theorem index_pos (h : Numbered db) (hmem : row ∈ db.initialWrites) : 0 < row.index := by
  have hindex : row.index ∈ List.range' 1 db.initialWrites.length :=
    h.indices ▸ List.mem_map_of_mem hmem
  exact (List.mem_range'_1.1 hindex).1

end Numbered

/-! ### Sealing -/

def StateDb.newSlots (db : StateDb) (writes : List (H256 × H256)) : List H256 :=
  (writes.map Prod.fst).filter fun key => db.initialWrite key = none

def initialRows (first number : ℕ) (hashedKeys : List H256) : List InitialWrite :=
  hashedKeys.mapIdx fun i key => ⟨key, first + i, number⟩

section Sealing

variable {db db' : StateDb} {stateDiffs : Option (List (H256 × H256))}
  {deduplicatedWrites : List (H256 × H256)}

/-- **Both ways to select the initial writes agree**: they are the written slots that are not in the
table, in the order of the writes. -/
theorem Numbered.initialWrites_vmFinishedBatch (h : Numbered db)
    (stateDiffs : Option (List (H256 × H256))) (deduplicatedWrites : List (H256 × H256)) :
    (db.vmFinishedBatch stateDiffs deduplicatedWrites).initialWrites db
      = db.newSlots (stateDiffs.getD deduplicatedWrites) := by
  cases stateDiffs with
  | some diffs =>
    show ((diffs.map _).filter StateDiff.isWriteInitial).map StateDiff.hashedKey = _
    rw [newSlots, List.filter_map, List.map_map, List.filter_map]
    refine congrArg (List.map _) (List.filter_congr fun diff _ => ?_)
    show decide (((db.initialWrite diff.1).map InitialWrite.index).getD 0 = 0)
      = decide (db.initialWrite diff.1 = none)
    refine decide_eq_decide.2 ?_
    cases hrow : db.initialWrite diff.1 with
    | none => simp
    | some row =>
      have hpos := h.index_pos (List.mem_of_find?_eq_some hrow)
      simp only [Option.map_some, Option.getD_some, reduceCtorEq, iff_false]
      omega
  | none =>
    refine List.filter_congr fun key hkey => decide_eq_decide.2 ?_
    rw [filterWrittenSlots, List.mem_filter, not_and, Option.not_isSome_iff_eq_none]
    exact ⟨fun hnot => hnot hkey, fun hnone _ => hnone⟩

theorem map_index_initialRows (first number : ℕ) (keys : List H256) :
    (initialRows first number keys).map InitialWrite.index = List.range' first keys.length := by
  refine List.ext_getElem (by simp [initialRows]) fun i hi hi' => ?_
  simp [initialRows]

theorem map_hashedKey_initialRows (first number : ℕ) (keys : List H256) :
    (initialRows first number keys).map InitialWrite.hashedKey = keys := by
  refine List.ext_getElem (by simp [initialRows]) fun i hi hi' => ?_
  simp [initialRows]

theorem l1BatchNumber_of_mem_initialRows {first number : ℕ} {keys : List H256} {row : InitialWrite}
    (h : row ∈ initialRows first number keys) : row.l1BatchNumber = number := by
  obtain ⟨i, hi, rfl⟩ := List.mem_mapIdx.1 h
  rfl

theorem length_initialRows (first number : ℕ) (keys : List H256) :
    (initialRows first number keys).length = keys.length := List.length_mapIdx

variable {logs : List (H256 × H256)} {l2Block : ℕ} (h : Numbered db)
  (hsealed : SealedBatch db l2Block db.pendingL1Batch logs
    (db.vmFinishedBatch stateDiffs deduplicatedWrites) db')
include h hsealed

theorem Numbered.initialWrites_sealed :
    db'.initialWrites = db.initialWrites ++ initialRows (db.initialWrites.length + 1)
      db.pendingL1Batch (db.newSlots (stateDiffs.getD deduplicatedWrites)) := by
  rw [hsealed.initialWrites, h.initialWrites_vmFinishedBatch, h.maxEnumerationIndex_eq]
  rfl

theorem Numbered.sealed_batch
    (hnodup : ((stateDiffs.getD deduplicatedWrites).map Prod.fst).Nodup) : Numbered db' := by
  have htable := h.initialWrites_sealed hsealed
  refine ⟨?_, ?_, ?_, ?_⟩
  · rw [htable, List.map_append, h.indices, map_index_initialRows, List.length_append,
      length_initialRows, Nat.add_comm _ 1, List.range'_append_1]
  · rw [htable, List.map_append, List.pairwise_append]
    refine ⟨h.ordered, ?_, ?_⟩
    · refine List.pairwise_map.2 (List.pairwise_of_forall_mem_list fun row hrow row' hrow' => ?_)
      rw [l1BatchNumber_of_mem_initialRows hrow, l1BatchNumber_of_mem_initialRows hrow']
    · intro number hnumber number' hnumber'
      obtain ⟨row, hrow, rfl⟩ := List.mem_map.1 hnumber
      obtain ⟨row', hrow', rfl⟩ := List.mem_map.1 hnumber'
      rw [l1BatchNumber_of_mem_initialRows hrow']
      exact (h.sealed row hrow).le
  -- new slots are those without a row
  · rw [htable, List.map_append, map_hashedKey_initialRows]
    refine h.nodup.append (hnodup.filter _) fun key hold hnew => ?_
    obtain ⟨row, hrow, rfl⟩ := List.mem_map.1 hold
    have hnone : db.initialWrite row.hashedKey = none := by
      simpa using (List.mem_filter.1 hnew).2
    rw [h.mem_initialWrites.1 hrow] at hnone
    cases hnone
  · intro row hrow
    rw [htable] at hrow
    rw [hsealed.pendingL1Batch_eq]
    rcases List.mem_append.1 hrow with hold | hnew
    · exact (h.sealed row hold).trans (Nat.lt_succ_self _)
    · rw [l1BatchNumber_of_mem_initialRows hnew]
      exact Nat.lt_succ_self _

end Sealing

section TreeInput

variable {α : Type} {known : α → Option ℕ} {slot : α → H256 × H256}

theorem assignLeafIndices_slots (next : ℕ) (as : List α) :
    (assignLeafIndices known slot next as).map (fun write => (write.hashedKey, write.value))
      = as.map slot := by
  induction as generalizing next with
  | nil => rfl
  | cons a rest ih =>
    rw [assignLeafIndices]
    split
    · rw [List.map_cons, List.map_cons, ih]
    · rw [List.map_cons, List.map_cons, ih]

variable (known) in
theorem mem_assignLeafIndices (next : ℕ) {as : List α} {key value : H256}
    (h : (key, value) ∈ as.map slot) : ∃ write ∈ assignLeafIndices known slot next as,
      (write.hashedKey, write.value) = (key, value) := by
  rw [← assignLeafIndices_slots next as] at h
  exact List.mem_map.1 h

theorem leafIndex_of_mem {next : ℕ} {as : List α} {write : TreeWrite}
    (h : write ∈ assignLeafIndices known slot next as) :
    (∃ a ∈ as, (slot a).1 = write.hashedKey ∧ known a = some write.leafIndex) ∨
      ∃ i, ((as.filter fun a => known a = none).map fun a => (slot a).1)[i]?
        = some write.hashedKey ∧ write.leafIndex = next + i := by
  induction as generalizing next with
  | nil => cases h
  | cons a rest ih =>
    rw [assignLeafIndices] at h
    cases hknown : known a with
    | some leafIndex =>
      rw [hknown] at h
      rcases List.mem_cons.1 h with rfl | hrest
      · exact .inl ⟨a, List.mem_cons_self, rfl, hknown⟩
      · rw [List.filter_cons_of_neg (by simp [hknown])]
        rcases ih hrest with ⟨a', ha', hslot⟩ | hplace
        · exact .inl ⟨a', List.mem_cons_of_mem _ ha', hslot⟩
        · exact .inr hplace
    -- the counter moves on, and so do the places of the rest
    | none =>
      rw [hknown] at h
      rw [List.filter_cons_of_pos (by simp [hknown])]
      rcases List.mem_cons.1 h with rfl | hrest
      · exact .inr ⟨0, rfl, rfl⟩
      · rcases ih hrest with ⟨a', ha', hslot⟩ | ⟨i, hi, hindex⟩
        · exact .inl ⟨a', List.mem_cons_of_mem _ ha', hslot⟩
        · refine .inr ⟨i + 1, by simpa using hi, ?_⟩
          omega

theorem Numbered.maxEnumerationIndexByL1Batch_eq {db : StateDb} (h : Numbered db)
    {old new : List InitialWrite} {number : ℕ} (htable : db.initialWrites = old ++ new)
    (hold : ∀ row ∈ old, row.l1BatchNumber < number)
    (hnew : ∀ row ∈ new, row.l1BatchNumber = number) (hpos : 0 < number) :
    (db.maxEnumerationIndexByL1Batch (number - 1)).getD 0 = old.length := by
  have hfilter : (db.initialWrites.filter fun row => row.l1BatchNumber ≤ number - 1) = old := by
    rw [htable, List.filter_append, List.filter_eq_self.2, List.filter_eq_nil_iff.2,
      List.append_nil]
    · intro row hrow
      simpa [hnew row hrow] using hpos
    · intro row hrow
      have := hold row hrow
      exact decide_eq_true (by omega)
  rw [maxEnumerationIndexByL1Batch, hfilter]
  have hindices : old.map InitialWrite.index = List.range' 1 old.length := by
    have htake := map_take_eq_range' h.indices old.length
    rwa [htable, List.take_left] at htake
  rcases List.eq_nil_or_concat' old with rfl | ⟨before, last, rfl⟩
  · rfl
  -- the last row of the batches before has the highest batch and the highest index
  have hordered := h.ordered
  rw [htable, List.map_append, List.map_append, List.pairwise_append,
    List.pairwise_append] at hordered
  have hmax : ((before ++ [last]).map InitialWrite.l1BatchNumber).max? =
    some last.l1BatchNumber := by
    rw [List.max?_eq_some_iff]
    refine ⟨List.mem_map_of_mem (by simp), fun batch hbatch => ?_⟩
    rw [List.map_append, List.mem_append] at hbatch
    rcases hbatch with hbatch | hbatch
    · exact hordered.1.2.2 batch hbatch _ (by simp)
    · exact (List.mem_singleton.1 (by simpa using hbatch)).le
  have hlast : last.index = (before ++ [last]).length := by
    have hget := congrArg (fun l => l[before.length]?) hindices
    simp only [List.map_append] at hget
    rw [List.getElem?_append_right (by simp), List.getElem?_range' (by simp)] at hget
    simp only [List.length_map, Nat.sub_self, List.map_cons, List.map_nil,
      List.getElem?_cons_zero, Option.some.injEq] at hget
    rw [hget, List.length_append, List.length_singleton]
    omega
  have hmax' : ((db.initialWrites.filter fun row => row.l1BatchNumber = last.l1BatchNumber).map
      InitialWrite.index).max? = some last.index := by
    have hmem : last ∈ db.initialWrites := by simp [htable]
    rw [List.max?_eq_some_iff]
    refine ⟨List.mem_map_of_mem (List.mem_filter.2 ⟨hmem, decide_eq_true rfl⟩), fun index hindex =>
      ?_⟩
    obtain ⟨row, hrow, rfl⟩ := List.mem_map.1 hindex
    obtain ⟨hrow, hbatch⟩ := List.mem_filter.1 hrow
    have hbatch : row.l1BatchNumber = last.l1BatchNumber := of_decide_eq_true hbatch
    have hlt := hold last (by simp)
    rw [htable] at hrow
    rcases List.mem_append.1 hrow with hrow | hrow
    · have hindex : row.index ∈ List.range' 1 (before ++ [last]).length :=
        hindices ▸ List.mem_map_of_mem hrow
      have := List.mem_range'_1.1 hindex
      omega
    · have := hnew row hrow
      omega
  rw [hmax, Option.bind_some, hmax', Option.getD_some, hlast]

end TreeInput

/-- The writes of a batch have the indices of the table, and the slots that are new in the batch are
among them. -/
structure LeavesOf (table : List InitialWrite) (number : ℕ) (writes : List TreeWrite) : Prop where
  index : ∀ write ∈ writes, ∃ row ∈ table, row.l1BatchNumber ≤ number ∧
    row.hashedKey = write.hashedKey ∧ row.index = write.leafIndex
  covered : ∀ row ∈ table, row.l1BatchNumber = number →
    ∃ write ∈ writes, write.hashedKey = row.hashedKey

theorem LeavesOf.append {table rows : List InitialWrite} {number : ℕ} {writes : List TreeWrite}
    (h : LeavesOf table number writes) (hrows : ∀ row ∈ rows, row.l1BatchNumber ≠ number) :
    LeavesOf (table ++ rows) number writes := by
  constructor
  · intro write hwrite
    obtain ⟨row, hrow, hspec⟩ := h.index write hwrite
    exact ⟨row, List.mem_append_left _ hrow, hspec⟩
  · intro row hrow hnumber
    rcases List.mem_append.1 hrow with hrow | hrow
    · exact h.covered row hrow hnumber
    · exact absurd hnumber (hrows row hrow)

/-- What the second handler finds: the rows of its batch after those of the batches before. -/
structure Handling (db : StateDb) (number : ℕ) (batch : FinishedBatch) (old : List InitialWrite)
    (keys : List H256) : Prop where
  pos : 0 < number
  table : db.initialWrites = old ++ initialRows (old.length + 1) number keys
  old_lt : ∀ row ∈ old, row.l1BatchNumber < number
  diffs : ∀ diffs, batch.stateDiffs = some diffs →
    keys = (diffs.filter StateDiff.isWriteInitial).map StateDiff.hashedKey ∧
      ∀ diff ∈ diffs, diff.isWriteInitial = false →
        ∃ row ∈ old, row.hashedKey = diff.hashedKey ∧ row.index = diff.enumerationIndex
  logs : batch.stateDiffs = none →
    (∀ log ∈ batch.deduplicatedWrites, db.initialWrite log.1 ≠ none) ∧
      ∀ key ∈ keys, key ∈ batch.deduplicatedWrites.map Prod.fst

namespace Handling

variable {db : StateDb} {number : ℕ} {batch : FinishedBatch} {old : List InitialWrite}
  {keys : List H256}

theorem le_number (h : Handling db number batch old keys) {row : InitialWrite}
    (hrow : row ∈ db.initialWrites) : row.l1BatchNumber ≤ number := by
  rw [h.table] at hrow
  rcases List.mem_append.1 hrow with hold | hnew
  · exact (h.old_lt row hold).le
  · exact (l1BatchNumber_of_mem_initialRows hnew).le

/-- **The leaf indices are those of the table**, and all newly written slots are among the
writes. -/
theorem treeInput_spec (h : Handling db number batch old keys) (hnumbered : Numbered db) :
    (∀ write ∈ db.treeInput number batch, ∃ row ∈ db.initialWrites,
        row.hashedKey = write.hashedKey ∧ row.index = write.leafIndex) ∧
      ∀ key ∈ keys, ∃ write ∈ db.treeInput number batch, write.hashedKey = key := by
  have hnext := hnumbered.maxEnumerationIndexByL1Batch_eq h.table h.old_lt
    (fun row hrow => l1BatchNumber_of_mem_initialRows hrow) h.pos
  have hnew : ∀ i key, keys[i]? = some key →
      ⟨key, old.length + 1 + i, number⟩ ∈ db.initialWrites := by
    intro i key hi
    obtain ⟨hlt, rfl⟩ := List.getElem?_eq_some_iff.1 hi
    rw [h.table]
    exact List.mem_append_right _ (List.mem_mapIdx.2 ⟨i, hlt, rfl⟩)
  cases hdiffs : batch.stateDiffs with
  | some diffs =>
    obtain ⟨hkeys, hknown⟩ := h.diffs diffs hdiffs
    have hinput : db.treeInput number batch = assignLeafIndices
        (fun diff => if diff.isWriteInitial then none else some diff.enumerationIndex)
        (fun diff : StateDiff => (diff.hashedKey, diff.finalValue)) (old.length + 1) diffs := by
      rw [treeInput, hnext, hdiffs]
    have hunknown : (diffs.filter fun diff => (if diff.isWriteInitial then none
        else some diff.enumerationIndex) = none) = diffs.filter StateDiff.isWriteInitial := by
      refine List.filter_congr fun diff _ => ?_
      cases diff.isWriteInitial <;> rfl
    rw [hinput]
    constructor
    · intro write hwrite
      rcases leafIndex_of_mem hwrite with ⟨diff, hdiff, hkey, hindex⟩ | ⟨i, hi, hindex⟩
      · cases hinitial : diff.isWriteInitial with
        | true =>
          rw [hinitial] at hindex
          cases hindex
        | false =>
          obtain ⟨row, hrow, hrowKey, hrowIndex⟩ := hknown diff hdiff hinitial
          rw [hinitial] at hindex
          refine ⟨row, by rw [h.table]; exact List.mem_append_left _ hrow, hrowKey.trans hkey, ?_⟩
          exact hrowIndex.trans (Option.some.inj hindex)
      · rw [hunknown, ← hkeys] at hi
        exact ⟨_, hnew i _ hi, rfl, hindex.symm⟩
    · intro key hkey
      rw [hkeys] at hkey
      obtain ⟨diff, hdiff, rfl⟩ := List.mem_map.1 hkey
      have hslot : (diff.hashedKey, diff.finalValue) ∈ diffs.map
          fun diff => (diff.hashedKey, diff.finalValue) :=
        List.mem_map_of_mem (List.mem_filter.1 hdiff).1
      obtain ⟨write, hwrite, heq⟩ := mem_assignLeafIndices _ (old.length + 1) hslot
      exact ⟨write, hwrite, (Prod.mk.inj heq).1⟩
  | none =>
    obtain ⟨hknown, hkeys⟩ := h.logs hdiffs
    have hinput : db.treeInput number batch = assignLeafIndices
        (fun log : H256 × H256 => (db.initialWrite log.1).map InitialWrite.index) id
        (old.length + 1) batch.deduplicatedWrites := by
      rw [treeInput, hnext, hdiffs]
    rw [hinput]
    constructor
    · intro write hwrite
      -- the table already has the rows of the batch, so the counter is not used
      rcases leafIndex_of_mem hwrite with ⟨log, hlog, hkey, hindex⟩ | ⟨i, hi, -⟩
      · obtain ⟨row, hrow, hrowIndex⟩ := Option.map_eq_some_iff.1 hindex
        obtain ⟨hmem, hrowKey⟩ := Numbered.mem_of_initialWrite hrow
        exact ⟨row, hmem, hrowKey.trans hkey, hrowIndex⟩
      · obtain ⟨log, hlog, -⟩ := List.mem_map.1 (List.mem_of_getElem? hi)
        obtain ⟨hlog, hnone⟩ := List.mem_filter.1 hlog
        exact absurd (Option.map_eq_none_iff.1 (of_decide_eq_true hnone)) (hknown log hlog)
    · intro key hkey
      obtain ⟨log, hlog, rfl⟩ := List.mem_map.1 (hkeys key hkey)
      have hslot : log ∈ batch.deduplicatedWrites.map id := by simpa using hlog
      obtain ⟨write, hwrite, heq⟩ := mem_assignLeafIndices _ (old.length + 1) hslot
      exact ⟨write, hwrite, congrArg Prod.fst heq⟩

theorem treeInput_leaves (h : Handling db number batch old keys) (hnumbered : Numbered db) :
    LeavesOf db.initialWrites number (db.treeInput number batch) := by
  obtain ⟨hindex, hcovered⟩ := h.treeInput_spec hnumbered
  constructor
  · intro write hwrite
    obtain ⟨row, hrow, hspec⟩ := hindex write hwrite
    exact ⟨row, hrow, h.le_number hrow, hspec⟩
  · intro row hrow hnumber
    rw [h.table] at hrow
    rcases List.mem_append.1 hrow with hrow | hrow
    · exact absurd hnumber (h.old_lt row hrow).ne
    · refine hcovered _ ?_
      rw [← map_hashedKey_initialRows (old.length + 1) number keys]
      exact List.mem_map_of_mem hrow

end Handling

/-! ### Runs -/

def Touched (db : StateDb) : Prop :=
  ∀ row ∈ db.initialWrites, ∃ log ∈ db.storageLogs, log.hashedKey = row.hashedKey ∧
    ⟨log.l2Block, some row.l1BatchNumber⟩ ∈ db.miniblocks

structure SealInv (s : SealState) : Prop where
  numbered : Numbered s.db
  pos : 0 < s.db.pendingL1Batch
  leaves : ∀ number writes, (number, writes) ∈ s.treeWrites ∨ s.tree[number]? = some writes →
    number < s.db.pendingL1Batch ∧ LeavesOf s.db.initialWrites number writes
  handling : ∀ number batch, s.handling = some (number, batch) →
    number < s.db.pendingL1Batch ∧ ∃ old keys, Handling s.db number batch old keys
  touched : Touched s.db
  unread : ∀ read ∈ s.protectiveReads, read.1 < s.db.pendingL1Batch ∧
    ∀ row ∈ s.db.initialWrites, row.l1BatchNumber = read.1 → row.hashedKey ≠ read.2

namespace SealInv

variable {s s' : SealState}

theorem of_blocks (h : SealInv s) {storageLogs : List StorageLog}
    {miniblocks : List StateDb.L2Block}
    (hlogs : ∀ log ∈ s.db.storageLogs, log.l2Block < s.db.nextL2Block → log ∈ storageLogs)
    (hblocks : s.db.miniblocks ⊆ miniblocks) :
    SealInv { s with db := { s.db with storageLogs, miniblocks } } where
  numbered := ⟨h.numbered.indices, h.numbered.ordered, h.numbered.nodup, h.numbered.sealed⟩
  pos := h.pos
  leaves := h.leaves
  handling number batch hhandling := by
    obtain ⟨hlt, old, keys, hold⟩ := h.handling number batch hhandling
    exact ⟨hlt, old, keys, hold.pos, hold.table, hold.old_lt, hold.diffs, hold.logs⟩
  touched row hrow := by
    obtain ⟨log, hlog, hkey, hblock⟩ := h.touched row hrow
    exact ⟨log, hlogs log hlog (lt_nextNumber (List.mem_map_of_mem hblock)), hkey, hblocks hblock⟩
  unread := h.unread

variable {logs : List (H256 × H256)} {l2Block : ℕ}

theorem handling_sealed {db db' : StateDb} (h : Numbered db) (hpos : 0 < db.pendingL1Batch)
    {stateDiffs : Option (List (H256 × H256))} {deduplicatedWrites : List (H256 × H256)}
    (hsealed : SealedBatch db l2Block db.pendingL1Batch logs
      (db.vmFinishedBatch stateDiffs deduplicatedWrites) db') :
    Handling db' db.pendingL1Batch (db.vmFinishedBatch stateDiffs deduplicatedWrites)
      db.initialWrites (db.newSlots (stateDiffs.getD deduplicatedWrites)) := by
  have htable := h.initialWrites_sealed hsealed
  refine ⟨hpos, htable, h.sealed, ?_, ?_⟩
  · intro diffs hdiffs
    cases stateDiffs with
    | none => cases hdiffs
    | some writes =>
      have hselect := h.initialWrites_vmFinishedBatch (some writes) deduplicatedWrites
      cases hdiffs
      refine ⟨hselect.symm, fun diff hdiff hinitial => ?_⟩
      obtain ⟨write, hwrite, rfl⟩ := List.mem_map.1 hdiff
      cases hrow : db.initialWrite write.1 with
      | none =>
        rw [StateDiff.isWriteInitial, hrow] at hinitial
        cases hinitial
      | some row =>
        obtain ⟨hmem, hkey⟩ := Numbered.mem_of_initialWrite hrow
        exact ⟨row, hmem, hkey, rfl⟩
  · intro hnone
    cases stateDiffs with
    | some writes => cases hnone
    | none =>
      refine ⟨fun log hlog hnot => ?_, fun key hkey => List.mem_of_mem_filter hkey⟩
      -- a slot that was not in the table is there now
      rw [initialWrite, htable, List.find?_append, Option.or_eq_none_iff] at hnot
      have hkey : log.1 ∈ db.newSlots deduplicatedWrites :=
        List.mem_filter.2 ⟨List.mem_map_of_mem hlog, decide_eq_true hnot.1⟩
      rw [← map_hashedKey_initialRows (db.initialWrites.length + 1) db.pendingL1Batch
        (db.newSlots deduplicatedWrites)] at hkey
      obtain ⟨row, hrow, hrowKey⟩ := List.mem_map.1 hkey
      exact absurd (decide_eq_true hrowKey) (List.find?_eq_none.1 hnot.2 row hrow)

theorem touched_sealed {db db' : StateDb} (h : Numbered db) (htouched : Touched db)
    {stateDiffs : Option (List (H256 × H256))} {deduplicatedWrites : List (H256 × H256)}
    (hlogs : ∀ write ∈ stateDiffs.getD deduplicatedWrites,
      write.1 ∈ db.openSlots ++ logs.map Prod.fst)
    (hsealed : SealedBatch db l2Block db.pendingL1Batch logs
      (db.vmFinishedBatch stateDiffs deduplicatedWrites) db') : Touched db' := by
  intro row hrow
  rw [h.initialWrites_sealed hsealed] at hrow
  rw [hsealed.storageLogs, hsealed.miniblocks]
  rcases List.mem_append.1 hrow with hrow | hrow
  · obtain ⟨log, hlog, hkey, hblock⟩ := htouched row hrow
    exact ⟨log, List.mem_append_left _ hlog, hkey,
      List.mem_map.2 ⟨_, List.mem_append_left _ hblock, rfl⟩⟩
  · -- the slot was written in a block of the batch, or at its end
    rw [l1BatchNumber_of_mem_initialRows hrow]
    have hslot : row.hashedKey ∈ db.newSlots (stateDiffs.getD deduplicatedWrites) := by
      rw [← map_hashedKey_initialRows (db.initialWrites.length + 1) db.pendingL1Batch
        (db.newSlots _)]
      exact List.mem_map_of_mem hrow
    obtain ⟨write, hwrite, hkey⟩ := List.mem_map.1 (List.mem_of_mem_filter hslot)
    rw [← hkey]
    rcases List.mem_append.1 (hlogs write hwrite) with hopen | hend
    · obtain ⟨log, hlog, hlogKey⟩ := List.mem_map.1 hopen
      obtain ⟨hlog, hblock⟩ := List.mem_filter.1 hlog
      exact ⟨log, List.mem_append_left _ hlog, hlogKey,
        List.mem_map.2 ⟨_, List.mem_append_left _ (of_decide_eq_true hblock), rfl⟩⟩
    · obtain ⟨log, hlog, hlogKey⟩ := List.mem_map.1 hend
      exact ⟨_, List.mem_append_right _ (List.mem_map_of_mem hlog), hlogKey,
        List.mem_map.2 ⟨_, List.mem_append_right _ (List.mem_singleton_self _), rfl⟩⟩

theorem sealed_batch (h : SealInv s) {db' : StateDb} {stateDiffs : Option (List (H256 × H256))}
    {deduplicatedWrites : List (H256 × H256)}
    (hnodup : ((stateDiffs.getD deduplicatedWrites).map Prod.fst).Nodup)
    (hlogs : ∀ write ∈ stateDiffs.getD deduplicatedWrites,
      write.1 ∈ s.db.openSlots ++ logs.map Prod.fst)
    (hsealed : SealedBatch s.db l2Block s.db.pendingL1Batch logs
      (s.db.vmFinishedBatch stateDiffs deduplicatedWrites) db') :
    SealInv { s with
      db := db'
      handling := some (s.db.pendingL1Batch,
        s.db.vmFinishedBatch stateDiffs deduplicatedWrites) } := by
  have htable := h.numbered.initialWrites_sealed hsealed
  have hpending : db'.pendingL1Batch = s.db.pendingL1Batch + 1 := hsealed.pendingL1Batch_eq
  refine ⟨h.numbered.sealed_batch hsealed hnodup, ?_, ?_, ?_,
    touched_sealed h.numbered h.touched hlogs hsealed, ?_⟩
  · exact hpending ▸ Nat.succ_pos _
  -- the new rows belong to none of these batches
  · intro number writes hwrites
    obtain ⟨hlt, hleaves⟩ := h.leaves number writes hwrites
    rw [hpending, htable]
    refine ⟨hlt.trans (Nat.lt_succ_self _), hleaves.append fun row hrow => ?_⟩
    rw [l1BatchNumber_of_mem_initialRows hrow]
    exact hlt.ne'
  · intro number batch hhandling
    cases hhandling
    exact ⟨hpending ▸ Nat.lt_succ_self _, _, _, handling_sealed h.numbered h.pos hsealed⟩
  · intro read hread
    obtain ⟨hlt, hunread⟩ := h.unread read hread
    rw [hpending, htable]
    refine ⟨hlt.trans (Nat.lt_succ_self _), fun row hrow hnumber => ?_⟩
    rcases List.mem_append.1 hrow with hrow | hrow
    · exact hunread row hrow hnumber
    · exact absurd (hnumber.symm.trans (l1BatchNumber_of_mem_initialRows hrow)) hlt.ne

/-- **The fallback finds the same leaves**: a slot that is new in the batch was touched in one of
its blocks, and is no protective read. -/
theorem extractStorageLogsFromDb_leaves (h : SealInv s) {number : ℕ} {protectiveReads : List H256}
    (hreads : ∀ key ∈ protectiveReads, (number, key) ∈ s.protectiveReads) :
    LeavesOf s.db.initialWrites number (s.db.extractStorageLogsFromDb number protectiveReads) := by
  constructor
  · intro write hwrite
    obtain ⟨slot, -, hwrite⟩ := List.mem_filterMap.1 hwrite
    obtain ⟨row, hrow, rfl⟩ := Option.map_eq_some_iff.1 hwrite
    obtain ⟨hrow, hle⟩ := Option.filter_eq_some_iff.1 hrow
    obtain ⟨hmem, hkey⟩ := Numbered.mem_of_initialWrite hrow
    exact ⟨row, hmem, of_decide_eq_true hle, hkey, rfl⟩
  · rintro row hrow rfl
    obtain ⟨log, hlog, hkey, hblock⟩ := h.touched row hrow
    have hmem : log.l2Block ∈ (s.db.miniblocks.filter fun block =>
        block.l1BatchNumber = some row.l1BatchNumber).map StateDb.L2Block.number :=
      List.mem_map.2 ⟨_, List.mem_filter.2 ⟨hblock, decide_eq_true rfl⟩, rfl⟩
    -- so it is among the touched slots that are looked up
    have hunread : row.hashedKey ∉ protectiveReads := fun hread =>
      (h.unread _ (hreads _ hread)).2 row hrow rfl rfl
    have htouched : row.hashedKey ∈
        (s.db.getTouchedSlotsForExecutedL1Batch row.l1BatchNumber).map Prod.fst := by
      rw [getTouchedSlotsForExecutedL1Batch, List.map_map]
      refine List.mem_map.2 ⟨_, List.mem_dedup.2 (List.mem_map.2 ⟨log, ?_, hkey⟩), rfl⟩
      exact List.mem_filter.2 ⟨hlog, decide_eq_true ⟨⟨_, hmem, le_rfl⟩, _, hmem, le_rfl⟩⟩
    obtain ⟨slot, hslot, hslotKey⟩ := List.mem_map.1 htouched
    refine ⟨⟨slot.1, slot.2, row.index⟩, List.mem_filterMap.2 ⟨slot, ?_, ?_⟩, hslotKey⟩
    · rw [← hslotKey] at hunread
      exact List.mem_filter.2 ⟨hslot, decide_eq_true hunread⟩
    · rw [hslotKey, h.numbered.mem_initialWrites.1 hrow, Option.filter_some,
        if_pos (decide_eq_true le_rfl), Option.map_some]

theorem loadWrites_leaves (h : SealInv s) (number : ℕ) (full : Bool) :
    LeavesOf s.db.initialWrites number (s.loadWrites number full) := by
  rw [SealState.loadWrites]
  split
  · rename_i batch hfind
    have hnumber : batch.1 = number := by simpa using List.find?_some hfind
    have hmem := List.mem_of_find?_eq_some hfind
    rw [← hnumber]
    exact (h.leaves _ _ (.inl hmem)).2
  · refine h.extractStorageLogsFromDb_leaves fun key hkey => ?_
    cases full with
    | false => cases hkey
    | true =>
      obtain ⟨read, hread, rfl⟩ := List.mem_map.1 hkey
      obtain ⟨hread, hnumber⟩ := List.mem_filter.1 hread
      rw [← of_decide_eq_true hnumber]
      exact hread

theorem step (h : SealInv s) {event : SealEvent} (hstep : s.step event = some s') : SealInv s' := by
  cases event with
  | insertStorageLogs logs =>
    cases hstep
    exact h.of_blocks (fun log hlog _ => List.mem_append_left _ hlog) (List.Subset.refl _)
  | insertL2Block =>
    cases hstep
    exact h.of_blocks (fun log hlog _ => hlog) (List.subset_append_left _ _)
  | clearPendingL2Block =>
    cases hstep
    refine h.of_blocks (fun log hlog hlt => ?_) (List.Subset.refl _)
    exact List.mem_filter.2 ⟨hlog, decide_eq_true (Nat.le_sub_one_of_lt hlt)⟩
  -- the only step that numbers slots
  | sealL1Batch logs stateDiffs deduplicatedWrites =>
    rw [SealState.step] at hstep
    split at hstep
    · rename_i hguard
      obtain ⟨db', hseal, rfl⟩ := Option.map_eq_some_iff.1 hstep
      exact h.sealed_batch hguard.2.1 hguard.2.2 (sealedBatch_of_sealL1Batch hseal)
    · cases hstep
  | setTreeWrites =>
    obtain ⟨⟨number, batch⟩, hhandling, rfl⟩ := Option.map_eq_some_iff.1 hstep
    obtain ⟨hlt, old, keys, hold⟩ := h.handling number batch hhandling
    refine ⟨h.numbered, h.pos, ?_, nofun, h.touched, h.unread⟩
    rintro number' writes (hmem | htree)
    · rcases List.mem_append.1 hmem with hmem | hmem
      · exact h.leaves number' writes (.inl hmem)
      · obtain ⟨rfl, rfl⟩ := Prod.mk.inj (List.mem_singleton.1 hmem)
        exact ⟨hlt, hold.treeInput_leaves h.numbered⟩
    · exact h.leaves number' writes (.inr htree)
  | insertProtectiveReads number hashedKeys =>
    rw [SealState.step] at hstep
    split at hstep
    · rename_i hguard
      cases hstep
      refine ⟨h.numbered, h.pos, h.leaves, h.handling, h.touched, fun read hread => ?_⟩
      rcases List.mem_append.1 hread with hread | hread
      · exact h.unread read hread
      · obtain ⟨key, hkey, rfl⟩ := List.mem_map.1 hread
        exact ⟨lt_nextNumber hguard.1, fun row hrow hnumber heq =>
          hguard.2 row hrow hnumber (heq ▸ hkey)⟩
    · cases hstep
  | updateTree full =>
    rw [SealState.step] at hstep
    split at hstep
    · rename_i hguard
      cases hstep
      refine ⟨h.numbered, h.pos, ?_, h.handling, h.touched, h.unread⟩
      rintro number writes (hmem | htree)
      · exact h.leaves number writes (.inl hmem)
      · rw [List.getElem?_append] at htree
        split at htree
        · exact h.leaves number writes (.inr htree)
        -- the batch that the tree takes now, from the column or from the tables
        · obtain ⟨hlt, rfl⟩ := List.getElem?_eq_some_iff.1 htree
          obtain rfl : number = s.tree.length := by simp at hlt; omega
          rw [List.getElem_singleton]
          exact ⟨lt_nextNumber hguard, h.loadWrites_leaves _ full⟩
    · cases hstep
  | restart =>
    cases hstep
    exact ⟨h.numbered, h.pos, h.leaves, nofun, h.touched, h.unread⟩

theorem genesis {writes : List (H256 × H256)} (hs : SealState.genesis logs writes = some s) :
    SealInv s := by
  rw [SealState.genesis] at hs
  split at hs
  · rename_i hlogs
    obtain ⟨db, hseal, rfl⟩ := Option.map_eq_some_iff.1 hs
    have hsealed : SealedBatch .empty 0 0 logs (StateDb.empty.vmFinishedBatch none writes) db :=
      sealedBatch_of_sealL1Batch hseal
    have hempty : Numbered .empty := ⟨rfl, List.Pairwise.nil, List.nodup_nil, nofun⟩
    have hnodup : (writes.map Prod.fst).Nodup := by
      have hnew : StateDb.empty.newSlots writes = writes.map Prod.fst :=
        List.filter_eq_self.2 fun key _ => rfl
      rw [← hnew]
      exact hempty.initialWrites_vmFinishedBatch none writes ▸ hsealed.nodup
    have hpending : db.pendingL1Batch = 1 := hsealed.pendingL1Batch_eq
    refine ⟨hempty.sealed_batch hsealed hnodup, hpending ▸ Nat.one_pos, ?_, nofun, ?_, nofun⟩
    · rintro number writes (hmem | hmem) <;> cases hmem
    · refine touched_sealed hempty nofun (fun write hwrite => ?_) hsealed
      exact List.mem_append_right _ (hlogs write hwrite)
  · cases hs

theorem table_step (h : SealInv s) {event : SealEvent} (hstep : s.step event = some s') :
    s'.db.initialWrites = s.db.initialWrites ++ initialRows (s.db.initialWrites.length + 1)
      s.db.pendingL1Batch (s.db.newSlots event.writes) := by
  cases event with
  | sealL1Batch logs stateDiffs deduplicatedWrites =>
    rw [SealState.step] at hstep
    split at hstep
    · obtain ⟨db', hseal, rfl⟩ := Option.map_eq_some_iff.1 hstep
      exact h.numbered.initialWrites_sealed (sealedBatch_of_sealL1Batch hseal)
    · cases hstep
  | insertProtectiveReads | updateTree =>
    rw [SealState.step] at hstep
    split at hstep
    · cases hstep
      exact (List.append_nil _).symm
    · cases hstep
  | setTreeWrites =>
    obtain ⟨_, _, rfl⟩ := Option.map_eq_some_iff.1 hstep
    exact (List.append_nil _).symm
  | insertStorageLogs | insertL2Block | clearPendingL2Block | restart =>
    cases hstep
    exact (List.append_nil _).symm

section

variable (h : SealInv s)
include h

/-- **The leaves of the tree are the rows of the table**, up to the last batch of the tree. -/
theorem leafIndex_eq (key : H256) : s.leafIndex key = ((s.db.initialWrite key).filter
      fun row => row.l1BatchNumber < s.tree.length).map InitialWrite.index := by
  have hmem : ∀ write ∈ s.tree.flatten, ∃ row ∈ s.db.initialWrites,
      row.l1BatchNumber < s.tree.length ∧ row.hashedKey = write.hashedKey ∧
        row.index = write.leafIndex := by
    intro write hwrite
    obtain ⟨writes, hwrites, hwrite⟩ := List.mem_flatten.1 hwrite
    obtain ⟨number, hnumber⟩ := List.mem_iff_getElem?.1 hwrites
    obtain ⟨row, hrow, hle, hspec⟩ := (h.leaves _ _ (.inr hnumber)).2.index write hwrite
    exact ⟨row, hrow, hle.trans_lt (List.getElem?_eq_some_iff.1 hnumber).1, hspec⟩
  rw [SealState.leafIndex]
  cases hfind : s.tree.flatten.reverse.find? fun write => write.hashedKey = key with
  -- a leaf of the tree has a row, with its index
  | some write =>
    have hkey : write.hashedKey = key := by simpa using List.find?_some hfind
    obtain ⟨row, hrow, hlt, hrowKey, hindex⟩ :=
      hmem write (List.mem_reverse.1 (List.mem_of_find?_eq_some hfind))
    have hinitial := h.numbered.mem_initialWrites.1 hrow
    rw [hrowKey, hkey] at hinitial
    rw [hinitial, Option.filter_some, if_pos (decide_eq_true hlt), Option.map_some, Option.map_some,
      hindex]
  | none =>
    cases hrow : s.db.initialWrite key with
    | none => rfl
    | some row =>
      obtain ⟨hrowMem, hrowKey⟩ := Numbered.mem_of_initialWrite hrow
      -- and a row of a batch that the tree has taken has a leaf
      have hnot : ¬ row.l1BatchNumber < s.tree.length := by
        intro hlt
        have hwrites := List.getElem?_eq_getElem hlt
        obtain ⟨write, hwrite, hkey⟩ := (h.leaves _ _ (.inr hwrites)).2.covered row hrowMem rfl
        have hmem := List.mem_flatten_of_mem (List.getElem_mem hlt) hwrite
        exact List.find?_eq_none.1 hfind write (List.mem_reverse.2 hmem)
          (decide_eq_true (hkey.trans hrowKey))
      rw [Option.filter_some, if_neg (by simpa using hnot)]
      rfl

theorem exists_leafIndex_iff :
    ∃ n, ∀ index, (∃ key, s.leafIndex key = some index) ↔ 1 ≤ index ∧ index ≤ n := by
  have hindices := map_take_eq_range' h.numbered.indices
    (s.db.initialWrites.countP fun row => row.l1BatchNumber < s.tree.length)
  rw [← filter_lt_eq_take h.numbered.ordered s.tree.length] at hindices
  refine ⟨_, fun index => (Iff.trans ?_ (hindices ▸ List.mem_range'_1)).trans
    (and_congr_right' Nat.lt_one_add_iff)⟩
  constructor
  · rintro ⟨key, hkey⟩
    rw [h.leafIndex_eq] at hkey
    obtain ⟨row, hrow, rfl⟩ := Option.map_eq_some_iff.1 hkey
    obtain ⟨hrow, hlt⟩ := Option.filter_eq_some_iff.1 hrow
    exact List.mem_map_of_mem (List.mem_filter.2 ⟨(Numbered.mem_of_initialWrite hrow).1, hlt⟩)
  · intro hindex
    obtain ⟨row, hrow, rfl⟩ := List.mem_map.1 hindex
    obtain ⟨hrow, hlt⟩ := List.mem_filter.1 hrow
    refine ⟨row.hashedKey, ?_⟩
    rw [h.leafIndex_eq, h.numbered.mem_initialWrites.1 hrow, Option.filter_some, if_pos hlt,
      Option.map_some]

theorem leafIndex_injective {index : ℕ} {key key' : H256}
    (hkey : s.leafIndex key = some index) (hkey' : s.leafIndex key' = some index) : key = key' := by
  have hrow : ∀ {key}, s.leafIndex key = some index →
      ∃ row ∈ s.db.initialWrites, row.hashedKey = key ∧ row.index = index := by
    intro key hkey
    rw [h.leafIndex_eq] at hkey
    obtain ⟨row, hrow, hindex⟩ := Option.map_eq_some_iff.1 hkey
    obtain ⟨hmem, hkey⟩ := Numbered.mem_of_initialWrite (Option.filter_eq_some_iff.1 hrow).1
    exact ⟨row, hmem, hkey, hindex⟩
  obtain ⟨row, hmem, rfl, hindex⟩ := hrow hkey
  obtain ⟨row', hmem', rfl, hindex'⟩ := hrow hkey'
  have hnodup : (s.db.initialWrites.map InitialWrite.index).Nodup :=
    h.numbered.indices ▸ List.nodup_range'
  rw [List.inj_on_of_nodup_map hnodup hmem hmem' (hindex.trans hindex'.symm)]

end

end SealInv

def StateDb.FinishedBatch.slots (batch : FinishedBatch) : List (H256 × H256) :=
  (batch.stateDiffs.map fun diffs => diffs.map fun diff => (diff.hashedKey, diff.finalValue)).getD
    batch.deduplicatedWrites

theorem treeInput_slots (db : StateDb) (number : ℕ) (batch : FinishedBatch) :
    (db.treeInput number batch).map (fun write => (write.hashedKey, write.value))
      = batch.slots := by
  rw [treeInput, FinishedBatch.slots]
  cases batch.stateDiffs with
  | some diffs => exact assignLeafIndices_slots _ _
  | none => exact (assignLeafIndices_slots _ _).trans (List.map_id _)

/-- **Enumeration indices are consecutive and consistent.**  At every point of every run the table
has the indices `1, …, n` and only grows; the tree writes of a batch carry the indices of the table;
and the leaves of the tree are the slots up to its last batch, with the indices `1, …, m`. -/
theorem sealRun_indices {logs writes : List (H256 × H256)} {s₀ s : SealState}
    {events : List SealEvent} (hgenesis : SealState.genesis logs writes = some s₀)
    (hrun : Run (StepRel.ofPartial SealState.step) s₀ events s) :
    s.db.initialWrites.map InitialWrite.index = List.range' 1 s.db.initialWrites.length ∧
    (s.db.initialWrites.map InitialWrite.hashedKey).Nodup ∧
    (∀ event s', s.step event = some s' → s'.db.initialWrites = s.db.initialWrites ++
      initialRows (s.db.initialWrites.length + 1) s.db.pendingL1Batch
        (s.db.newSlots event.writes)) ∧
    (∀ number batch, s.handling = some (number, batch) → (s.db.treeInput number batch).map
      (fun write => (write.hashedKey, write.value)) = batch.slots) ∧
    (∀ number treeWrites, (number, treeWrites) ∈ s.treeWrites → ∀ write ∈ treeWrites,
      (s.db.initialWrite write.hashedKey).map InitialWrite.index = some write.leafIndex) ∧
    (∀ key, s.leafIndex key = ((s.db.initialWrite key).filter
      fun row => row.l1BatchNumber < s.tree.length).map InitialWrite.index) ∧
    (∃ m, ∀ index, (∃ key, s.leafIndex key = some index) ↔ 1 ≤ index ∧ index ≤ m) ∧
    ∀ index key key', s.leafIndex key = some index → s.leafIndex key' = some index →
      key = key' := by
  have h : SealInv s := hrun.invariant (fun _ _ _ h hstep => h.step hstep)
    (SealInv.genesis hgenesis)
  refine ⟨h.numbered.indices, h.numbered.nodup, fun event s' hstep => h.table_step hstep,
    fun number batch _ => treeInput_slots s.db number batch, ?_, h.leafIndex_eq,
    h.exists_leafIndex_iff, fun index key key' => h.leafIndex_injective⟩
  intro number treeWrites hmem write hwrite
  obtain ⟨row, hrow, -, hkey, hindex⟩ :=
    (h.leaves number treeWrites (.inl hmem)).2.index write hwrite
  rw [← hkey, h.numbered.mem_initialWrites.1 hrow, Option.map_some, hindex]

/-- A batch with state differences and one with deduplicated logs, each with an old and a new
slot. -/
def sampleSealEvents : List SealEvent :=
  let slot := fun key value => (FixedBytes.replicate 32 key, FixedBytes.replicate 32 value)
  [.updateTree true, .insertStorageLogs [slot 1 7, slot 3 9], .insertL2Block,
    .sealL1Batch [slot 2 8, slot 3 0] (some [slot 2 8, slot 1 7]) [slot 1 7, slot 2 8],
    .insertProtectiveReads 1 [.replicate 32 3], .setTreeWrites, .updateTree true,
    .sealL1Batch [slot 3 9, slot 2 9] none [slot 3 9, slot 2 9], .restart, .updateTree false]

theorem sealRun_indices_sample : ∃ s₀ s,
    SealState.genesis [(.replicate 32 1, .replicate 32 6)] [(.replicate 32 1, .replicate 32 6)]
      = some s₀ ∧
    Run (StepRel.ofPartial SealState.step) s₀ sampleSealEvents s ∧
    s.tree.map (List.map TreeWrite.leafIndex) = [[1], [2, 1], [3, 2]] ∧
    ∃ m, ∀ index, (∃ key, s.leafIndex key = some index) ↔ 1 ≤ index ∧ index ≤ m := by
  obtain ⟨s₀, hgenesis⟩ : ∃ s₀, SealState.genesis [(.replicate 32 1, .replicate 32 6)]
      [(.replicate 32 1, .replicate 32 6)] = some s₀ := ⟨_, rfl⟩
  obtain ⟨s, hrun, htree⟩ : ∃ s, Run (StepRel.ofPartial SealState.step) s₀ sampleSealEvents s ∧
      s.tree.map (List.map TreeWrite.leafIndex) = [[1], [2, 1], [3, 2]] := by
    cases hgenesis
    exact Run.witness (fun _ _ h => h) (by decide +kernel)
  exact ⟨s₀, s, hgenesis, hrun, htree, (sealRun_indices hgenesis hrun).2.2.2.2.2.2.1⟩
