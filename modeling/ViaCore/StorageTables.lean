/-
The tables of the state.

Postgres holds the writes to storage slots by second-layer block, and the first write to each slot
with its enumeration index.  The data of a block are inserted before its header, so that they can be
seen, and even be taken back, while the block is not sealed; a batch is sealed in one transaction.

The rows of `storage_logs` are in the order of `(miniblock_number, operation_number)`, which is the
order in which they are inserted.

* `keeperRun_past` — the past of the state is fixed.
-/
import ViaCore.KeeperChain
import ViaCore.Tables

/-- The hash of zero bytes: the value of a slot that has not been written. -/
def H256.zero : H256 := FixedBytes.replicate 32 0

namespace StateDb

structure StorageLog where
  hashedKey : H256
  value : H256
  l2Block : ℕ
  deriving DecidableEq

/-- A row of `miniblocks`; the batch is null until it is sealed. -/
structure L2Block where
  number : ℕ
  l1BatchNumber : Option ℕ
  deriving DecidableEq

structure InitialWrite where
  hashedKey : H256
  index : ℕ
  l1BatchNumber : ℕ
  deriving DecidableEq

end StateDb

open StateDb

structure StateDb where
  storageLogs : List StorageLog
  miniblocks : List StateDb.L2Block
  l1Batches : List ℕ
  initialWrites : List InitialWrite
  /-- The batch of the snapshot that the node was recovered from. -/
  snapshotRecovery : Option ℕ

namespace StateDb

def empty : StateDb := ⟨[], [], [], [], none⟩

def storageValue (db : StateDb) (hashedKey : H256) (block : ℕ) : Option H256 :=
  (db.storageLogs.filter fun log => log.hashedKey = hashedKey ∧ log.l2Block ≤ block).getLast?.map
    StorageLog.value

def getHistoricalValueUnchecked (db : StateDb) (hashedKey : H256) (block : ℕ) : H256 :=
  (db.storageValue hashedKey block).getD .zero

def initialWrite (db : StateDb) (hashedKey : H256) : Option InitialWrite :=
  db.initialWrites.find? fun row => row.hashedKey = hashedKey

def nextL2Block (db : StateDb) : ℕ := nextNumber 0 (db.miniblocks.map L2Block.number)

/-- `COALESCE(MAX(number) + 1 FROM l1_batches, MAX(l1_batch_number) + 1 FROM snapshot_recovery,
0)`. -/
def pendingL1Batch (db : StateDb) : ℕ :=
  nextNumber ((db.snapshotRecovery.map (· + 1)).getD 0) db.l1Batches

/-! ### Sealing -/

def insertStorageLogs (db : StateDb) (l2Block : ℕ) (logs : List (H256 × H256)) : StateDb :=
  { db with storageLogs := db.storageLogs ++ logs.map fun log => ⟨log.1, log.2, l2Block⟩ }

/-- The header, which makes the block a sealed one. -/
def insertL2Block (db : StateDb) (number : ℕ) : StateDb :=
  { db with miniblocks := db.miniblocks ++ [⟨number, none⟩] }

/-- At a restart the state keeper removes what is there of a block without a header. -/
def clearPendingL2Block (db : StateDb) (lastSealedL2Block : ℕ) : StateDb :=
  { db with
    storageLogs := db.storageLogs.filter fun log => log.l2Block ≤ lastSealedL2Block }

def markL2BlocksAsExecutedInL1Batch (db : StateDb) (number : ℕ) : StateDb :=
  { db with miniblocks := db.miniblocks.map fun row =>
      { row with l1BatchNumber := row.l1BatchNumber.or (some number) } }

/-- `SELECT MAX(INDEX) FROM initial_writes`. -/
def maxEnumerationIndex (db : StateDb) : Option ℕ :=
  (db.initialWrites.map InitialWrite.index).max?

/-- The indices follow the highest one in the table; the keys of the table are unique. -/
def insertInitialWrites (db : StateDb) (number : ℕ) (hashedKeys : List H256) : Option StateDb :=
  let lastIndex := db.maxEnumerationIndex.getD 0
  if hashedKeys.Nodup ∧ ∀ key ∈ hashedKeys, db.initialWrite key = none then
    some { db with initialWrites := db.initialWrites ++ hashedKeys.mapIdx fun i key =>
      ⟨key, lastIndex + 1 + i, number⟩ }
  else none

def filterWrittenSlots (db : StateDb) (hashedKeys : List H256) : List H256 :=
  hashedKeys.filter fun key => (db.initialWrite key).isSome

/-- A written slot with its enumeration index, which is zero for a slot that has none yet. -/
structure StateDiff where
  hashedKey : H256
  enumerationIndex : ℕ
  finalValue : H256
  deriving DecidableEq

def StateDiff.isWriteInitial (diff : StateDiff) : Bool := diff.enumerationIndex = 0

/-- What the VM says about a finished batch: the state differences, if it computes them, and the
deduplicated writes. -/
structure FinishedBatch where
  stateDiffs : Option (List StateDiff)
  deduplicatedWrites : List (H256 × H256)
  deriving DecidableEq

/-- The slots of a batch that are written for the first time. -/
def FinishedBatch.initialWrites (batch : FinishedBatch) (db : StateDb) : List H256 :=
  match batch.stateDiffs with
  | some stateDiffs => (stateDiffs.filter StateDiff.isWriteInitial).map StateDiff.hashedKey
  | none =>
    let hashedKeys := batch.deduplicatedWrites.map Prod.fst
    let nonInitialWrites := db.filterWrittenSlots hashedKeys
    hashedKeys.filter fun key => key ∉ nonInitialWrites

/-- **A batch is sealed** in one transaction: the fictive block, the header of the batch, and the
initial writes.  A transaction that fails has no effect. -/
def sealL1Batch (db : StateDb) (l2Block number : ℕ) (logs : List (H256 × H256))
    (batch : FinishedBatch) : Option StateDb :=
  let db := (db.insertStorageLogs l2Block logs).insertL2Block l2Block
  let db := { db with l1Batches := db.l1Batches ++ [number] }
  let db := db.markL2BlocksAsExecutedInL1Batch number
  db.insertInitialWrites number (batch.initialWrites db)

variable {db db' : StateDb} {l2Block number : ℕ}

structure SealedBatch (db : StateDb) (l2Block number : ℕ) (logs : List (H256 × H256))
    (batch : FinishedBatch) (db' : StateDb) : Prop where
  storageLogs : db'.storageLogs = (db.insertStorageLogs l2Block logs).storageLogs
  miniblocks : db'.miniblocks = (db.insertL2Block l2Block).miniblocks.map fun row =>
    { row with l1BatchNumber := row.l1BatchNumber.or (some number) }
  l1Batches : db'.l1Batches = db.l1Batches ++ [number]
  snapshotRecovery : db'.snapshotRecovery = db.snapshotRecovery
  nodup : (batch.initialWrites db).Nodup
  initialWrites : db'.initialWrites = db.initialWrites ++
    (batch.initialWrites db).mapIdx fun i key =>
      ⟨key, db.maxEnumerationIndex.getD 0 + 1 + i, number⟩

variable {logs : List (H256 × H256)} {batch : FinishedBatch}

theorem sealedBatch_of_sealL1Batch (h : db.sealL1Batch l2Block number logs batch = some db') :
    SealedBatch db l2Block number logs batch db' := by
  simp only [sealL1Batch, insertInitialWrites] at h
  split at h
  · rename_i hkeys
    cases h
    exact ⟨rfl, rfl, rfl, rfl, hkeys.1, rfl⟩
  · cases h

theorem SealedBatch.pendingL1Batch_eq
    (h : SealedBatch db l2Block db.pendingL1Batch logs batch db') :
    db'.pendingL1Batch = db.pendingL1Batch + 1 := by
  rw [pendingL1Batch, h.snapshotRecovery, h.l1Batches]
  exact nextNumber_append _ _

/-! ### The past -/

theorem storageValue_insertStorageLogs (logs : List (H256 × H256)) (key : H256) {block : ℕ}
    (hblock : block < l2Block) :
    (db.insertStorageLogs l2Block logs).storageValue key block = db.storageValue key block := by
  have hnone : (logs.map fun log => StorageLog.mk log.1 log.2 l2Block).filter
      (fun log => log.hashedKey = key ∧ log.l2Block ≤ block) = [] := by
    rw [List.filter_eq_nil_iff]
    intro log hlog
    obtain ⟨_, _, rfl⟩ := List.mem_map.1 hlog
    simp only [decide_eq_true_eq]
    omega
  rw [storageValue, insertStorageLogs, List.filter_append, hnone, List.append_nil, storageValue]

structure Continues (db db' : StateDb) : Prop where
  blocks : db.nextL2Block ≤ db'.nextL2Block
  values : ∀ key, ∀ block < db.nextL2Block, db'.storageValue key block = db.storageValue key block
  indices : db.initialWrites <+: db'.initialWrites

namespace Continues

theorem refl (db : StateDb) : Continues db db := ⟨le_rfl, fun _ _ _ => rfl, List.prefix_rfl⟩

theorem trans {db'' : StateDb} (h : Continues db db') (h' : Continues db' db'') :
    Continues db db'' :=
  ⟨h.blocks.trans h'.blocks, fun key block hblock =>
    (h'.values key block (hblock.trans_le h.blocks)).trans (h.values key block hblock),
    h.indices.trans h'.indices⟩

theorem insertStorageLogs (logs : List (H256 × H256)) :
    Continues db (db.insertStorageLogs db.nextL2Block logs) :=
  ⟨le_rfl, fun key _ => storageValue_insertStorageLogs logs key, List.prefix_rfl⟩

theorem insertL2Block : Continues db (db.insertL2Block db.nextL2Block) := by
  refine ⟨?_, fun _ _ _ => rfl, List.prefix_rfl⟩
  rw [nextL2Block, StateDb.insertL2Block, nextL2Block, List.map_append]
  exact (Nat.le_succ _).trans (nextNumber_append _ _).ge

theorem clearPendingL2Block : Continues db (db.clearPendingL2Block (db.nextL2Block - 1)) := by
  refine ⟨le_rfl, fun key block hblock => ?_, List.prefix_rfl⟩
  -- only logs of the block that is not sealed are removed
  rw [storageValue, StateDb.clearPendingL2Block, List.filter_filter, storageValue]
  refine congrArg _ (congrArg _ (List.filter_congr fun log _ => ?_))
  rw [Bool.and_eq_left_iff_imp]
  simp only [decide_eq_true_eq]
  omega

theorem sealL1Batch (h : db.sealL1Batch db.nextL2Block number logs batch = some db') :
    Continues db db' := by
  have hsealed := sealedBatch_of_sealL1Batch h
  refine ⟨?_, fun key block hblock => ?_, hsealed.initialWrites ▸ List.prefix_append _ _⟩
  · rw [nextL2Block, nextL2Block, hsealed.miniblocks, List.map_map]
    exact insertL2Block.blocks
  · rw [storageValue, hsealed.storageLogs]
    exact storageValue_insertStorageLogs logs key hblock

end Continues

end StateDb

namespace Keeper

open State

variable {Tx : Type}

structure Storing (Tx : Type) where
  keeper : State Tx
  tables : StateDb

inductive StoringEvent (Tx : Type) where
  /-- The other task inserts data of the block that it stores next. -/
  | insertStorageLogs (logs : List (H256 × H256))
  /-- The keeper goes on; the VM has the rest at the end of a batch. -/
  | keeper (event : Event Tx) (logs : List (H256 × H256)) (batch : FinishedBatch)

namespace Storing

variable (E : BlockExternals Tx)

def tablesAfter (s : Storing Tx) (logs : List (H256 × H256)) (batch : FinishedBatch) :
    Event Tx → Option StateDb
  | .start => (IoCursor.new s.keeper.db).map fun cursor =>
      s.tables.clearPendingL2Block (cursor.nextL2Block - 1)
  | .storeL2Block => s.keeper.queue.head?.map fun block => s.tables.insertL2Block block.number
  | .finishBatch =>
    match s.keeper.phase with
    | .finishing updates vm =>
      if (vm.finishBatch E).isOk then
        s.tables.sealL1Batch updates.l2Block.number updates.l1BatchNumber logs batch
      else some s.tables
    | _ => none
  | _ => some s.tables

def step (s : Storing Tx) : StoringEvent Tx → Option (Storing Tx)
  | .insertStorageLogs logs => s.keeper.queue.head?.map fun block =>
      { s with tables := s.tables.insertStorageLogs block.number logs }
  | .keeper event logs batch => do
    let keeper ← s.keeper.step E event
    let tables ← s.tablesAfter E logs batch event
    some ⟨keeper, tables⟩

end Storing

variable {E : BlockExternals Tx}

theorem goTo_of_initializeIo {s s' : State Tx} (h : s.initializeIo E = some s') :
    ∃ phase, s' = s.goTo phase := by
  obtain ⟨cursor, -, h⟩ := Option.bind_eq_some_iff.1 h
  split at h
  · cases h
    exact ⟨_, rfl⟩
  · obtain ⟨_, -, h⟩ := Option.bind_eq_some_iff.1 h
    obtain ⟨_, -, h⟩ := Option.bind_eq_some_iff.1 h
    split at h
    · cases h
      exact ⟨_, rfl⟩
    · cases h
      exact ⟨_, rfl⟩

variable {s s' : Storing Tx}

structure Stored (E : BlockExternals Tx) (s : Storing Tx) : Prop where
  keeper : ∃ closed pending, Inv E s.keeper closed pending
  numbers : s.tables.miniblocks.map StateDb.L2Block.number
    = s.keeper.db.miniblocks.map L2BlockHeader.number

namespace Stored

theorem nextL2Block_eq (h : Stored E s) {earlier : List (L2BlockHeader Tx)}
    {last : L2BlockHeader Tx} (hlast : s.keeper.db.miniblocks = earlier ++ [last]) :
    s.tables.nextL2Block = last.number + 1 := by
  obtain ⟨closed, pending, hinv⟩ := h.keeper
  have hsorted := (List.isChain_append.1 hinv.chain).1
  rw [hlast] at hsorted
  have hsorted := Chain.numbers hsorted
  rw [List.map_append, List.pairwise_append] at hsorted
  rw [nextL2Block, h.numbers, hlast, List.map_append]
  exact nextNumber_concat fun n hn => (hsorted.2.2 n hn _ (List.mem_singleton_self _)).le

/-- **Each block has the next number** when its turn comes to be stored. -/
theorem number_eq (h : Stored E s) (block : L2BlockHeader Tx) (rest : List (L2BlockHeader Tx))
    (hblocks : s.keeper.blocks E = s.keeper.db.miniblocks ++ block :: rest) :
    block.number = s.tables.nextL2Block := by
  obtain ⟨closed, pending, hinv⟩ := h.keeper
  obtain ⟨_, _, blocks, last, -, hclosed⟩ := hinv.db.last
  obtain ⟨earlier, last, hlast⟩ : ∃ earlier last, s.keeper.db.miniblocks = earlier ++ [last] := by
    refine (List.eq_nil_or_concat' _).resolve_left ?_
    simp [hinv.db.blocks, hclosed]
  have hchain := hinv.chain_blocks
  rw [hblocks, hlast] at hchain
  rw [h.nextL2Block_eq hlast, (follows_of_chain hchain).number]

theorem queue_number (h : Stored E s) {block : L2BlockHeader Tx}
    (hblock : s.keeper.queue.head? = some block) : block.number = s.tables.nextL2Block := by
  obtain ⟨queue, hqueue⟩ := List.head?_eq_some_iff.1 hblock
  refine h.number_eq block (queue ++ (s.keeper.openBlock E).toList) ?_
  rw [blocks, hqueue, List.append_assoc, List.cons_append]

variable {event : Event Tx} {logs : List (H256 × H256)} {batch : FinishedBatch} {tables : StateDb}

theorem keeper_step (h : Stored E s) {keeper : State Tx}
    (hstep : s.keeper.step E event = some keeper)
    (htables : s.tablesAfter E logs batch event = some tables) :
    Stored E ⟨keeper, tables⟩ ∧ Continues s.tables tables := by
  obtain ⟨closed, pending, hinv⟩ := h.keeper
  have hnext := hinv.step hstep
  -- most steps of the state keeper leave the tables alone
  have hsame : keeper.db = s.keeper.db → tables = s.tables →
      Stored E ⟨keeper, tables⟩ ∧ Continues s.tables tables := by
    rintro hdb rfl
    exact ⟨⟨hnext, h.numbers.trans (by rw [hdb])⟩, .refl _⟩
  cases stepped_of_step hstep with
  | start hphase hstart =>
    obtain ⟨cursor, hcursor, rfl⟩ := Option.map_eq_some_iff.1 htables
    obtain ⟨phase, rfl⟩ := goTo_of_initializeIo hstart
    refine ⟨⟨hnext, h.numbers⟩, ?_⟩
    obtain ⟨_, -, hcursor⟩ := Option.bind_eq_some_iff.1 hcursor
    obtain ⟨last, hlast, hcursor⟩ := Option.bind_eq_some_iff.1 hcursor
    obtain ⟨earlier, hlast⟩ := List.getLast?_eq_some_iff.1 hlast
    cases hcursor
    rw [← h.nextL2Block_eq hlast]
    exact .clearPendingL2Block
  | storeL2Block hqueue =>
    have hblock := h.queue_number (List.head?_eq_some_iff.2 ⟨_, hqueue⟩)
    rw [Storing.tablesAfter, hqueue] at htables
    obtain rfl := Option.some.inj htables
    refine ⟨⟨hnext, ?_⟩, ?_⟩
    · show (_ ++ [_]).map _ = (_ ++ [_]).map _
      rw [List.map_append, h.numbers, List.map_append]
      rfl
    · show Continues _ (s.tables.insertL2Block _)
      rw [hblock]
      exact .insertL2Block
  -- the fictive block and the batch in one transaction, or nothing
  | @finishBatch updates vm hphase hempty hqueue =>
    simp only [Storing.tablesAfter, hphase] at htables
    have hblock := h.number_eq (updates.header E) []
      (by rw [blocks, hqueue, openBlock, hphase, List.append_nil]; rfl)
    rw [State.finishBatch] at hnext hsame ⊢
    cases hfinished : vm.finishBatch E with
    | error =>
      rw [hfinished] at htables hnext hsame
      exact hsame rfl (Option.some.inj htables).symm
    | ok =>
      rw [hfinished] at htables hnext
      change s.tables.sealL1Batch _ _ logs batch = _ at htables
      change updates.l2Block.number = _ at hblock
      refine ⟨⟨hnext, ?_⟩, .sealL1Batch (hblock ▸ htables)⟩
      rw [(sealedBatch_of_sealL1Batch htables).miniblocks, List.map_map]
      show List.map _ (_ ++ _) = List.map _ (List.map _ (_ ++ _))
      rw [List.map_append, List.map_map, List.map_append]
      exact congrArg (· ++ _) h.numbers
  | openBatch hphase hopen =>
    obtain ⟨_, -, hopen⟩ := Option.bind_eq_some_iff.1 hopen
    obtain ⟨_, -, hopen⟩ := Option.bind_eq_some_iff.1 hopen
    split at hopen
    · cases hopen
      exact hsame rfl (Option.some.inj htables).symm
    · cases hopen
  | _ => exact hsame rfl (Option.some.inj htables).symm

/-- **What one step preserves**, of the connection and of the past. -/
theorem step (h : Stored E s) {event : StoringEvent Tx} (hstep : s.step E event = some s') :
    Stored E s' ∧ Continues s.tables s'.tables := by
  cases event with
  | keeper event logs batch =>
    obtain ⟨keeper, hkeeper, hstep⟩ := Option.bind_eq_some_iff.1 hstep
    obtain ⟨tables, htables, hstep⟩ := Option.bind_eq_some_iff.1 hstep
    cases hstep
    exact h.keeper_step hkeeper htables
  | insertStorageLogs logs =>
    obtain ⟨block, hblock, rfl⟩ := Option.map_eq_some_iff.1 hstep
    rw [h.queue_number hblock]
    exact ⟨⟨h.keeper, h.numbers⟩, .insertStorageLogs logs⟩

end Stored

/-- **The past is fixed.**  In every run from the genesis, restarts included, a slot keeps the value
that it has at a sealed block, and its index. -/
theorem keeperRun_past {version : ProtocolVersionId} {logs : List (H256 × H256)}
    {batch : FinishedBatch} {tables : StateDb}
    {events later : List (StoringEvent Tx)}
    (hgenesis : StateDb.empty.sealL1Batch 0 0 logs batch = some tables)
    (hrun : Run (.ofPartial (Storing.step E)) ⟨.genesis E version, tables⟩ events s)
    (hlater : Run (.ofPartial (Storing.step E)) s later s') :
    (∀ block ∈ s.keeper.queue.head?, block.number = s.tables.nextL2Block) ∧
    (∀ key, ∀ block < s.tables.nextL2Block, s'.tables.getHistoricalValueUnchecked key block
      = s.tables.getHistoricalValueUnchecked key block) ∧
    s.tables.initialWrites <+: s'.tables.initialWrites := by
  have hstored : Stored E s := by
    refine hrun.invariant (fun _ _ _ h hstep => (h.step hstep).1)
      ⟨⟨_, _, Inv.genesis E version⟩, ?_⟩
    show tables.miniblocks.map _ = _
    rw [(sealedBatch_of_sealL1Batch hgenesis).miniblocks]
    rfl
  have hpast : Stored E s' ∧ Continues s.tables s'.tables := by
    refine hlater.invariant (I := fun s' => Stored E s' ∧ Continues s.tables s'.tables) ?_
      ⟨hstored, .refl _⟩
    rintro s₁ event s₂ ⟨h, hpast⟩ hstep
    exact ⟨(h.step hstep).1, hpast.trans (h.step hstep).2⟩
  exact ⟨fun block hblock => hstored.queue_number hblock,
    fun key block hblock => congrArg (Option.getD · _) (hpast.2.values key block hblock),
    hpast.2.indices⟩

/-- A block on its way: its logs are there, and its header is not. -/
def sampleStoring : List (StoringEvent ℕ) :=
  [.start, .openBatch [5000] .version24, .processTx 1 true .noSeal, .sealL2Block].map
    (.keeper · [] ⟨none, []⟩) ++ [.insertStorageLogs [(.zero, .replicate 32 2)]]

theorem keeperRun_past_sample : ∃ tables s,
    Run (.ofPartial (Storing.step sampleExternals)) ⟨.genesis sampleExternals .version24, tables⟩
      sampleStoring s ∧ s.tables.storageLogs.length = 2 ∧
    ∃ s', Run (.ofPartial (Storing.step sampleExternals)) s
        ([.stop, .start].map (.keeper · [] ⟨none, []⟩)) s' ∧
      s'.tables.getHistoricalValueUnchecked .zero 0 = .replicate 32 1 := by
  obtain ⟨tables, hgenesis⟩ : ∃ tables, StateDb.empty.sealL1Batch 0 0 [(.zero, .replicate 32 1)]
      ⟨none, [(.zero, .replicate 32 1)]⟩ = some tables := ⟨_, rfl⟩
  refine ⟨tables, Run.witness (P := fun s => s.tables.storageLogs.length = 2 ∧
    s.tables.getHistoricalValueUnchecked .zero 0 = .replicate 32 1 ∧ 0 < s.tables.nextL2Block ∧
    (runPartial (Storing.step sampleExternals) s
      ([.stop, .start].map (.keeper · [] ⟨none, []⟩))).isSome = true) ?_ ?_⟩
  · rintro s hrun ⟨hlogs, hvalue, hnext, hlater⟩
    obtain ⟨s', hs'⟩ := Option.isSome_iff_exists.1 hlater
    have hlater := Run.of_runPartial hs'
    refine ⟨hlogs, s', hlater, ?_⟩
    rw [(keeperRun_past hgenesis hrun hlater).2.1 .zero 0 hnext]
    exact hvalue
  · cases hgenesis
    decide +kernel

end Keeper
