/-
The chain of L2 blocks and L1 batches.

Each of them takes its timestamp from the system clock, which may jump, and its previous block from
memory, or, after a restart, from the database.  Blocks are stored by a task of its own, a batch
together with its last block, which has no transactions.  After a restart the stored blocks of the
unfinished batch are executed again.

* `keeperRun_timestamps` — timestamps increase;
* `keeperRun_chain` — numbers and hashes have no gaps.
-/
import ViaCore.Runs
import ViaCore.Query
import ViaCore.L2Blocks

namespace Keeper

/-- Seconds since the epoch, as a `u64`, from the milliseconds that the system clock returns. -/
def currentTimestamp (millis : ℕ) : ℕ := millis / 1000 % 2 ^ 64

/-- The clock is read, again after each sleep, until it is past the timestamp, the caller stops
waiting, or the node is stopped. -/
def sleepPast (timestamp : ℕ) : List ℕ → Option ℕ
  | [] => none
  | millis :: readings =>
    if timestamp < currentTimestamp millis then some (currentTimestamp millis)
    else sleepPast timestamp readings

variable {timestamp : ℕ}

theorem lt_of_sleepPast {current : ℕ} {readings : List ℕ}
    (h : sleepPast timestamp readings = some current) : timestamp < current := by
  induction readings with
  | nil => cases h
  | cons millis readings ih =>
    rw [sleepPast] at h
    split at h
    · rename_i hlt
      cases h
      exact hlt
    · exact ih h

structure L2BlockHeader (Tx : Type) where
  number : ℕ
  timestamp : ℕ
  hash : H256
  protocolVersion : ProtocolVersionId
  /-- Set when the batch is sealed. -/
  l1BatchNumber : Option ℕ
  txs : List Tx

structure L1BatchHeader where
  number : ℕ
  timestamp : ℕ
  /-- What the storage has after the batch about the last block. -/
  lastL2Block : StoredL2Block

structure Db (Tx : Type) where
  miniblocks : List (L2BlockHeader Tx)
  l1Batches : List L1BatchHeader

structure IoCursor where
  nextL2Block : ℕ
  prevL2BlockHash : H256
  prevL2BlockTimestamp : ℕ
  l1Batch : ℕ

variable {Tx : Type}

def Db.genesis (E : BlockExternals Tx) (version : ProtocolVersionId) : Db Tx where
  miniblocks := [⟨0, 0, L2BlockHasher.legacyHash E 0, version, some 0, []⟩]
  l1Batches := [⟨0, 0, ⟨0, 0, FixedBytes.replicate 32 0, FixedBytes.replicate 32 0⟩⟩]

/-- `IoCursor::new`, on a node that has a genesis. -/
def IoCursor.new (db : Db Tx) : Option IoCursor := do
  let l1Batch ← db.l1Batches.getLast?
  let l2Block ← db.miniblocks.getLast?
  some ⟨l2Block.number + 1, l2Block.hash, l2Block.timestamp, l1Batch.number + 1⟩

def Db.l2BlocksToReexecute (db : Db Tx) : List (L2BlockHeader Tx) :=
  db.miniblocks.filter fun block => block.l1BatchNumber = none

structure UpdatesManager (Tx : Type) where
  l1BatchNumber : ℕ
  batchTimestamp : ℕ
  protocolVersion : ProtocolVersionId
  l2Block : KeeperL2Block Tx

namespace UpdatesManager

variable (E : BlockExternals Tx)

/-- The batch has the timestamp of its first block. -/
def new (l1BatchNumber : ℕ) (firstL2Block : L2BlockEnv) (version : ProtocolVersionId) :
    UpdatesManager Tx :=
  ⟨l1BatchNumber, firstL2Block.timestamp, version,
    .new firstL2Block.timestamp firstL2Block.number firstL2Block.prevBlockHash version⟩

def ioCursor (self : UpdatesManager Tx) : IoCursor :=
  ⟨self.l2Block.number + 1, self.l2Block.getL2BlockHash E, self.l2Block.timestamp,
    self.l1BatchNumber⟩

def pushL2Block (self : UpdatesManager Tx) (timestamp : ℕ) : UpdatesManager Tx :=
  { self with
    l2Block := .new timestamp (self.l2Block.number + 1) (self.l2Block.getL2BlockHash E)
      self.protocolVersion }

def extendFromExecutedTransaction (self : UpdatesManager Tx) (tx : Tx) : UpdatesManager Tx :=
  { self with l2Block := self.l2Block.extendFromExecutedTransaction tx }

def header (self : UpdatesManager Tx) : L2BlockHeader Tx :=
  ⟨self.l2Block.number, self.l2Block.timestamp, self.l2Block.getL2BlockHash E,
    self.l2Block.protocolVersion, none, self.l2Block.executedTransactions⟩

end UpdatesManager

inductive Failure where
  | vm (panic : BootloaderPanic)
  /-- "Timestamp of previous L1 batch >= provisional L1 batch timestamp" -/
  | batchTimestamp

inductive Phase (Tx : Type) where
  | stopped
  | waitingForBatch (cursor : IoCursor)
  /-- Transactions of the current block, and later blocks, are still to be executed again. -/
  | restoring (updates : UpdatesManager Tx) (vm : Vm) (txs : List Tx)
      (blocks : List (L2BlockHeader Tx))
  | running (updates : UpdatesManager Tx) (vm : Vm)
  /-- The current block is sealed; the next one may be the last of the batch. -/
  | waitingForBlock (updates : UpdatesManager Tx) (vm : Vm) (fictive : Bool)
  /-- The batch is to be sealed. -/
  | finishing (updates : UpdatesManager Tx) (vm : Vm)
  | failed (failure : Failure)

/-- The blocks in the queue are handed to the task that stores them. -/
structure State (Tx : Type) where
  db : Db Tx
  queue : List (L2BlockHeader Tx)
  phase : Phase Tx

inductive Resolution where
  | noSeal
  | includeAndSeal
  | excludeAndSeal
  | unexecutable
  deriving DecidableEq

inductive Event (Tx : Type) where
  | start
  /-- The transactions of the mempool and the seal criteria decide what comes next. -/
  | openBatch (readings : List ℕ) (version : ProtocolVersionId)
  | reexecuteTx (compressionFails : Bool)
  | reexecuteBlock
  | processTx (tx : Tx) (compressionFails : Bool) (resolution : Resolution)
  | sealL2Block
  | sealL1Batch
  | startNextL2Block (readings : List ℕ)
  | finishBatch
  /-- The other task stores a block. -/
  | storeL2Block
  /-- A stop signal, an error, or a crash. -/
  | stop

def Phase.afterVm {α : Type} (result : Except BootloaderPanic α) (next : α → Phase Tx) : Phase Tx :=
  match result with
  | .ok a => next a
  | .error panic => .failed (.vm panic)

/-- The VM that this model is of. -/
def IsVmLatest (version : ProtocolVersionId) : Prop :=
  version.toVmVersion = .vm1_5_0SmallBootloaderMemory ∨
    version.toVmVersion = .vm1_5_0IncreasedBootloaderMemory
deriving Decidable

variable {version : ProtocolVersionId}

theorem IsVmLatest.version13_le (h : IsVmLatest version) :
    ProtocolVersionId.version13.ctorIdx ≤ version.ctorIdx := by
  cases version <;> first | decide | exact absurd h (by decide)

namespace State

def goTo (s : State Tx) (phase : Phase Tx) : State Tx := { s with phase }

variable (E : BlockExternals Tx)

def loadPendingBatch (s : State Tx) (cursor : IoCursor) (first : L2BlockHeader Tx)
    (rest : List (L2BlockHeader Tx)) : Option (State Tx) := do
  let prevBatch ← s.db.l1Batches.find? fun batch => batch.number = cursor.l1Batch - 1
  let prevBlock ← s.db.miniblocks.find? fun block => block.number = first.number - 1
  if prevBatch.timestamp < first.timestamp then
    let updates := UpdatesManager.new cursor.l1Batch ⟨first.number, first.timestamp, prevBlock.hash⟩
      first.protocolVersion
    some (s.goTo (.afterVm (Vm.new E prevBatch.lastL2Block updates.l2Block.getEnv) fun vm =>
      .restoring updates vm first.txs rest))
  else some (s.goTo (.failed .batchTimestamp))

def initializeIo (s : State Tx) : Option (State Tx) := do
  let cursor ← IoCursor.new s.db
  match s.db.l2BlocksToReexecute with
  | [] => some (s.goTo (.waitingForBatch cursor))
  | first :: rest => s.loadPendingBatch E cursor first rest

def openBatch (s : State Tx) (cursor : IoCursor) (readings : List ℕ) (version : ProtocolVersionId) :
    Option (State Tx) := do
  let timestamp ← sleepPast cursor.prevL2BlockTimestamp readings
  let prevBatch ← s.db.l1Batches.find? fun batch => batch.number = cursor.l1Batch - 1
  let updates := UpdatesManager.new cursor.l1Batch
    ⟨cursor.nextL2Block, timestamp, cursor.prevL2BlockHash⟩ version
  if IsVmLatest version then
    some (s.goTo (.afterVm (Vm.new E prevBatch.lastL2Block updates.l2Block.getEnv) fun vm =>
      .running updates vm))
  else none

def processTx (s : State Tx) (updates : UpdatesManager Tx) (vm : Vm) (tx : Tx)
    (compressionFails : Bool) (resolution : Resolution) : State Tx :=
  s.goTo (.afterVm (vm.executeTx E tx compressionFails) fun vm =>
    match resolution with
    | .noSeal => .running (updates.extendFromExecutedTransaction tx) vm
    | .includeAndSeal => .finishing (updates.extendFromExecutedTransaction tx) vm
    | .excludeAndSeal => .afterVm vm.rollbackLastTx fun vm => .finishing updates vm
    | .unexecutable => .afterVm vm.rollbackLastTx fun vm => .running updates vm)

/-- The block is handed over, and the next one needs a timestamp. -/
def handleL2Block (s : State Tx) (updates : UpdatesManager Tx) (vm : Vm) (fictive : Bool) :
    State Tx :=
  { s with
    queue := s.queue ++ [updates.header E]
    phase := .waitingForBlock updates vm fictive }

def startNextL2Block (s : State Tx) (updates : UpdatesManager Tx) (vm : Vm) (timestamp : ℕ)
    (next : UpdatesManager Tx → Vm → Phase Tx) : State Tx :=
  let updates := updates.pushL2Block E timestamp
  s.goTo (.afterVm (vm.startNewL2Block E updates.l2Block.getEnv) fun vm => next updates vm)

/-- The last block and the batch are stored in one database transaction, when all blocks before are
stored; all blocks without a batch belong to it. -/
def finishBatch (s : State Tx) (updates : UpdatesManager Tx) (vm : Vm) : State Tx :=
  match vm.finishBatch E with
  | .error panic => s.goTo (.failed (.vm panic))
  | .ok lastL2Block =>
    let number := updates.l1BatchNumber
    { s with
      db := {
        miniblocks := (s.db.miniblocks ++ [updates.header E]).map fun block =>
          { block with l1BatchNumber := block.l1BatchNumber.or (some number) }
        l1Batches := s.db.l1Batches ++ [⟨number, updates.batchTimestamp, lastL2Block⟩] }
      phase := .waitingForBatch { updates.ioCursor E with l1Batch := number + 1 } }

def step (s : State Tx) : Event Tx → Option (State Tx)
  | .start =>
    match s.phase with
    | .stopped => s.initializeIo E
    | _ => none
  | .openBatch readings version =>
    match s.phase with
    | .waitingForBatch cursor => s.openBatch E cursor readings version
    | _ => none
  | .reexecuteTx compressionFails =>
    match s.phase with
    | .restoring updates vm (tx :: txs) blocks =>
      some (s.goTo (.afterVm (vm.executeTx E tx compressionFails) fun vm =>
        .restoring (updates.extendFromExecutedTransaction tx) vm txs blocks))
    | _ => none
  | .reexecuteBlock =>
    match s.phase with
    | .restoring updates vm [] (block :: blocks) =>
      some (s.startNextL2Block E updates vm block.timestamp fun updates vm =>
        .restoring updates vm block.txs blocks)
    | .restoring updates vm [] [] => some (s.goTo (.waitingForBlock updates vm false))
    | _ => none
  | .processTx tx compressionFails resolution =>
    match s.phase with
    | .running updates vm => some (s.processTx E updates vm tx compressionFails resolution)
    | _ => none
  | .sealL2Block =>
    match s.phase with
    | .running updates vm => some (s.handleL2Block E updates vm false)
    | .finishing updates vm =>
      if updates.l2Block.executedTransactions = [] then none
      else some (s.handleL2Block E updates vm true)
    | _ => none
  | .sealL1Batch =>
    match s.phase with
    | .running updates vm => some (s.goTo (.finishing updates vm))
    | _ => none
  | .startNextL2Block readings =>
    match s.phase with
    | .waitingForBlock updates vm fictive => do
      let timestamp ← sleepPast (updates.ioCursor E).prevL2BlockTimestamp readings
      some (s.startNextL2Block E updates vm timestamp
        (if fictive then .finishing else .running))
    | _ => none
  | .finishBatch =>
    match s.phase with
    | .finishing updates vm =>
      if updates.l2Block.executedTransactions = [] ∧ s.queue = [] then
        some (s.finishBatch E updates vm)
      else none
    | _ => none
  | .storeL2Block =>
    match s.queue with
    | [] => none
    | block :: queue =>
      -- "non-fictive L2 block must have at least one transaction"
      if block.txs = [] then none
      else some { s with db := { s.db with miniblocks := s.db.miniblocks ++ [block] }, queue }
  | .stop => some { s with queue := [], phase := .stopped }

def genesis (version : ProtocolVersionId) : State Tx := ⟨.genesis E version, [], .stopped⟩

inductive Stepped (s : State Tx) : Event Tx → State Tx → Prop
  | start {s'} (hphase : s.phase = .stopped) (h : s.initializeIo E = some s') : Stepped s .start s'
  | openBatch {cursor readings version s'} (hphase : s.phase = .waitingForBatch cursor)
    (h : s.openBatch E cursor readings version = some s') :
    Stepped s (.openBatch readings version) s'
  | reexecuteTx {updates vm tx txs blocks}
    (hphase : s.phase = .restoring updates vm (tx :: txs) blocks) (compressionFails : Bool) :
    Stepped s (.reexecuteTx compressionFails)
      (s.goTo (.afterVm (vm.executeTx E tx compressionFails) fun vm =>
        .restoring (updates.extendFromExecutedTransaction tx) vm txs blocks))
  | reexecuteBlock {updates vm block blocks}
    (hphase : s.phase = .restoring updates vm [] (block :: blocks)) :
    Stepped s .reexecuteBlock (s.startNextL2Block E updates vm block.timestamp fun updates vm =>
      .restoring updates vm block.txs blocks)
  | restored {updates vm} (hphase : s.phase = .restoring updates vm [] []) :
    Stepped s .reexecuteBlock (s.goTo (.waitingForBlock updates vm false))
  | processTx {updates vm} (hphase : s.phase = .running updates vm) (tx : Tx)
    (compressionFails : Bool) (resolution : Resolution) :
    Stepped s (.processTx tx compressionFails resolution)
      (s.processTx E updates vm tx compressionFails resolution)
  | sealL2Block {updates vm} (fictive : Bool)
    (hphase : s.phase = (if fictive then .finishing updates vm else .running updates vm)) :
    Stepped s .sealL2Block (s.handleL2Block E updates vm fictive)
  | sealL1Batch {updates vm} (hphase : s.phase = .running updates vm) :
    Stepped s .sealL1Batch (s.goTo (.finishing updates vm))
  | startNextL2Block {updates vm fictive timestamp readings}
    (hphase : s.phase = .waitingForBlock updates vm fictive)
    (hsleep : sleepPast (updates.ioCursor E).prevL2BlockTimestamp readings = some timestamp) :
    Stepped s (.startNextL2Block readings) (s.startNextL2Block E updates vm timestamp
      (if fictive then .finishing else .running))
  | finishBatch {updates vm} (hphase : s.phase = .finishing updates vm)
    (hempty : updates.l2Block.executedTransactions = []) (hqueue : s.queue = []) :
    Stepped s .finishBatch (s.finishBatch E updates vm)
  | storeL2Block {block queue} (hqueue : s.queue = block :: queue) (hne : block.txs ≠ []) :
    Stepped s .storeL2Block
      { s with db := { s.db with miniblocks := s.db.miniblocks ++ [block] }, queue }
  | stop : Stepped s .stop { s with queue := [], phase := .stopped }

variable {E} in
theorem stepped_of_step {s s' : State Tx} {event : Event Tx} (h : s.step E event = some s') :
    s.Stepped E event s' := by
  cases event with
  | stop =>
    cases h
    exact .stop
  | startNextL2Block readings =>
    simp only [step] at h
    split at h
    · obtain ⟨timestamp, hsleep, h⟩ := Option.bind_eq_some_iff.1 h
      cases h
      exact .startNextL2Block (by assumption) hsleep
    · cases h
  | finishBatch =>
    simp only [step] at h
    repeat' split at h
    all_goals cases h
    next hphase hguard => exact .finishBatch hphase hguard.1 hguard.2
  | sealL2Block =>
    simp only [step] at h
    repeat' split at h
    all_goals cases h
    · exact .sealL2Block false (by assumption)
    · exact .sealL2Block true (by assumption)
  | start | openBatch =>
    simp only [step] at h
    split at h
    · constructor <;> assumption
    · cases h
  -- elsewhere the premises of the rule are the guards of the step
  | _ =>
    simp only [step] at h
    repeat' split at h
    all_goals cases h
    all_goals constructor <;> assumption

end State

variable {updates : UpdatesManager Tx}

section Chain

variable {E : BlockExternals Tx}

structure Follows (E : BlockExternals Tx) (a b : L2BlockHeader Tx) : Prop where
  number : b.number = a.number + 1
  timestamp : a.timestamp < b.timestamp
  hash : b.hash = (KeeperL2Block.mk b.number b.timestamp a.hash b.protocolVersion
    b.txs).getL2BlockHash E
  version : ProtocolVersionId.version13.ctorIdx ≤ b.protocolVersion.ctorIdx

abbrev Chain (E : BlockExternals Tx) (blocks : List (L2BlockHeader Tx)) : Prop :=
  blocks.IsChain (Follows E)

variable {blocks : List (L2BlockHeader Tx)} {a b : L2BlockHeader Tx}

theorem Chain.timestamps (h : Chain E blocks) :
    (blocks.map L2BlockHeader.timestamp).Pairwise (· < ·) := by
  rw [← List.isChain_iff_pairwise]
  exact List.isChain_map_of_isChain _ (fun _ _ hab => hab.timestamp) h

theorem Chain.numbers (h : Chain E blocks) :
    (blocks.map L2BlockHeader.number).Pairwise (· < ·) := by
  rw [← List.isChain_iff_pairwise]
  exact List.isChain_map_of_isChain _ (fun _ _ hab => hab.number ▸ Nat.lt_succ_self _) h

theorem chain_snoc (hfollows : Follows E a b) (h : Chain E (blocks ++ [a])) :
    Chain E (blocks ++ [a] ++ [b]) := by
  rw [Chain, List.isChain_append]
  refine ⟨h, List.isChain_singleton _, ?_⟩
  intro x hx y hy
  rw [List.getLast?_append, List.getLast?_singleton] at hx
  cases hx
  cases hy
  exact hfollows

theorem follows_of_chain {l r : List (L2BlockHeader Tx)} (h : Chain E (l ++ [a] ++ b :: r)) :
    Follows E a b := by
  rw [Chain, List.isChain_append] at h
  exact h.2.2 a (by simp) b (by simp)

structure Extends (a : L2BlockHeader Tx) (block : KeeperL2Block Tx) : Prop where
  number : block.number = a.number + 1
  timestamp : a.timestamp < block.timestamp
  prevBlockHash : block.prevBlockHash = a.hash
  version : ProtocolVersionId.version13.ctorIdx ≤ block.protocolVersion.ctorIdx

theorem Extends.follows (h : Extends a updates.l2Block) : Follows E a (updates.header E) := by
  refine ⟨h.number, h.timestamp, ?_, h.version⟩
  rw [← h.prevBlockHash]
  rfl

end Chain

/-! ### The invariant -/

variable {vm : Vm}

section Inv

variable {E : BlockExternals Tx}

/-- The tables: blocks of sealed batches, then blocks of the batch that is not sealed yet. -/
structure DbInv (db : Db Tx) (closed pending : List (L2BlockHeader Tx)) : Prop where
  blocks : db.miniblocks = closed ++ pending
  labelled : ∀ b ∈ closed, ∃ number, b.l1BatchNumber = some number ∧ number < db.l1Batches.length
  unlabelled : ∀ b ∈ pending, b.l1BatchNumber = none ∧ b.txs ≠ []
  numbers : db.l1Batches.map L1BatchHeader.number = List.range db.l1Batches.length
  last : ∃ batches batch blocks block, db.l1Batches = batches ++ [batch] ∧
    closed = blocks ++ [block]
  first : ∀ batch ∈ db.l1Batches, (closed.find? fun b => b.l1BatchNumber = some batch.number).map
    L2BlockHeader.timestamp = some batch.timestamp
  increasing : (db.l1Batches.map L1BatchHeader.timestamp).Pairwise (· < ·)

def UpdatesManager.extendAll (updates : UpdatesManager Tx) (txs : List Tx) : UpdatesManager Tx :=
  txs.foldl UpdatesManager.extendFromExecutedTransaction updates

theorem UpdatesManager.extendAll_l2Block (updates : UpdatesManager Tx) (txs : List Tx) :
    (updates.extendAll txs).l2Block = { updates.l2Block with
      executedTransactions := updates.l2Block.executedTransactions ++ txs } := by
  induction txs generalizing updates with
  | nil => rw [List.append_nil]; rfl
  | cons tx rest ih =>
    show ((updates.extendFromExecutedTransaction tx).extendAll rest).l2Block = _
    rw [ih]
    simp [extendFromExecutedTransaction, KeeperL2Block.extendFromExecutedTransaction]

structure OpenBatch (number : ℕ) (opened : List (L2BlockHeader Tx)) (updates : UpdatesManager Tx) :
    Prop where
  batch : updates.l1BatchNumber = number
  first : opened.head?.map L2BlockHeader.timestamp = some updates.batchTimestamp
  version : updates.l2Block.protocolVersion = updates.protocolVersion
  supported : ProtocolVersionId.version13.ctorIdx ≤ updates.protocolVersion.ctorIdx
  uniform : ∀ b ∈ opened, b.protocolVersion = updates.protocolVersion

/-- What is known in each phase of the blocks that are sealed, and of those of them that are not in
a sealed batch. -/
def PhaseInv (E : BlockExternals Tx) (number : ℕ) (blocks opened queue : List (L2BlockHeader Tx)) :
    Phase Tx → Prop
  | .stopped => queue = []
  | .waitingForBatch cursor => opened = [] ∧ cursor.l1Batch = number ∧
      ∃ earlier block, blocks = earlier ++ [block] ∧ cursor.nextL2Block = block.number + 1 ∧
        cursor.prevL2BlockHash = block.hash ∧ cursor.prevL2BlockTimestamp = block.timestamp
  | .restoring updates _ txs rest => OpenBatch number opened updates ∧
      (∃ done, opened = done ++ (updates.extendAll txs).header E :: rest) ∧ ∀ b ∈ opened, b.txs ≠ []
  | .running updates _ | .finishing updates _ =>
      OpenBatch number (opened ++ [updates.header E]) updates ∧
        ∃ earlier block, blocks = earlier ++ [block] ∧ Extends block updates.l2Block
  | .waitingForBlock updates _ _ => OpenBatch number opened updates ∧
      ∃ earlier, opened = earlier ++ [updates.header E]
  | .failed failure => ∃ panic, failure = .vm panic

structure Inv (E : BlockExternals Tx) (s : State Tx) (closed pending : List (L2BlockHeader Tx)) :
    Prop where
  db : DbInv s.db closed pending
  chain : Chain E (s.db.miniblocks ++ s.queue)
  queue : ∀ b ∈ s.queue, b.l1BatchNumber = none
  uniform : ∀ b ∈ pending ++ s.queue, ∀ b' ∈ pending ++ s.queue,
    b.protocolVersion = b'.protocolVersion
  phase : PhaseInv E s.db.l1Batches.length (s.db.miniblocks ++ s.queue) (pending ++ s.queue) s.queue
    s.phase

variable {blocks opened : List (L2BlockHeader Tx)} {queue : List (L2BlockHeader Tx)}

theorem PhaseInv.afterVm {number : ℕ} {α : Type}
    {result : Except BootloaderPanic α} {next : α → Phase Tx}
    (h : ∀ a, PhaseInv E number blocks opened queue (next a)) :
    PhaseInv E number blocks opened queue (.afterVm result next) := by
  cases result with
  | ok a => exact h a
  | error panic => exact ⟨panic, rfl⟩

variable {s s' : State Tx} {closed pending : List (L2BlockHeader Tx)}

variable (h : Inv E s closed pending)

include h in
theorem Inv.goTo {phase : Phase Tx}
    (hphase : PhaseInv E s.db.l1Batches.length (s.db.miniblocks ++ s.queue) (pending ++ s.queue)
      s.queue phase) : Inv E (s.goTo phase) closed pending :=
  ⟨h.db, h.chain, h.queue, h.uniform, hphase⟩

variable {db : Db Tx}

theorem DbInv.l2BlocksToReexecute_eq (h : DbInv db closed pending) :
    db.l2BlocksToReexecute = pending := by
  rw [Db.l2BlocksToReexecute, h.blocks, List.filter_append, List.filter_eq_nil_iff.2,
    List.nil_append, List.filter_eq_self.2]
  · intro b hb
    exact decide_eq_true (h.unlabelled b hb).1
  · intro b hb
    obtain ⟨number, hnumber, -⟩ := h.labelled b hb
    simp [hnumber]

variable {batch : L1BatchHeader}

theorem DbInv.timestamp_mem (h : DbInv db closed pending) (hbatch : batch ∈ db.l1Batches) :
    ∃ b ∈ closed, b.timestamp = batch.timestamp := by
  obtain ⟨b, hb, htimestamp⟩ := Option.map_eq_some_iff.1 (h.first batch hbatch)
  exact ⟨b, List.mem_of_find?_eq_some hb, htimestamp⟩

variable {batches : List L1BatchHeader}

theorem DbInv.find_last (h : DbInv db closed pending) (hlast : db.l1Batches = batches ++ [batch]) :
    batch.number + 1 = db.l1Batches.length ∧
      (db.l1Batches.find? fun row => row.number = db.l1Batches.length - 1) = some batch := by
  have hlength : db.l1Batches.length = batches.length + 1 := by simp [hlast]
  have hnumber : batch.number = batches.length := by
    have hnumbers := h.numbers
    rw [hlength, List.range_succ, hlast, List.map_append] at hnumbers
    exact (List.append_inj' hnumbers rfl).2 |> List.head_eq_of_cons_eq
  have hsorted : (db.l1Batches.map L1BatchHeader.number).Pairwise (· < ·) := by
    rw [h.numbers]
    exact List.pairwise_lt_range
  have hfind := find?_key_of_mem hsorted (a := batch) (by simp [hlast])
  rw [hnumber] at hfind
  refine ⟨by omega, ?_⟩
  rw [hlength, Nat.add_sub_cancel]
  exact hfind

/-! ### What each step preserves -/

variable {rest : List (L2BlockHeader Tx)} {block first : L2BlockHeader Tx}

include h

theorem Inv.loadPendingBatch_eq (hqueue : s.queue = []) {cursor : IoCursor}
    (hbatches : s.db.l1Batches = batches ++ [batch]) (hclosed : closed = blocks ++ [block])
    (hpending : pending = first :: rest) (hcursor : cursor.l1Batch = s.db.l1Batches.length) :
    Follows E block first ∧ s.loadPendingBatch E cursor first rest = some (s.goTo
      (.afterVm (Vm.new E batch.lastL2Block ⟨first.number, first.timestamp, block.hash⟩) fun vm =>
        .restoring (UpdatesManager.new s.db.l1Batches.length
          ⟨first.number, first.timestamp, block.hash⟩ first.protocolVersion) vm
            first.txs rest)) := by
  have hchain := h.chain
  rw [hqueue, List.append_nil] at hchain
  have hfollows : Follows E block first := by
    have hsplit := hchain
    rw [h.db.blocks, hclosed, hpending] at hsplit
    exact follows_of_chain hsplit
  have hblock := find?_key_of_mem hchain.numbers (a := block) (by simp [h.db.blocks, hclosed])
  have hprev : first.number - 1 = block.number := by
    rw [hfollows.number]
    rfl
  -- the timestamp of a batch is that of one of its blocks
  have hlt : batch.timestamp < first.timestamp := by
    have hmem : batch ∈ s.db.l1Batches := by simp [hbatches]
    obtain ⟨b, hb, htimestamp⟩ := h.db.timestamp_mem hmem
    have htimestamps := hchain.timestamps
    rw [h.db.blocks, List.map_append, List.pairwise_append] at htimestamps
    rw [← htimestamp]
    exact htimestamps.2.2 _ (List.mem_map_of_mem hb) _ (List.mem_map_of_mem (by simp [hpending]))
  refine ⟨hfollows, ?_⟩
  rw [State.loadPendingBatch, hcursor, (h.db.find_last hbatches).2, hprev, hblock]
  exact if_pos hlt

theorem Inv.loadPendingBatch (hqueue : s.queue = []) (hpending : pending = first :: rest)
    (hfollows : Follows E block first) (result : Except BootloaderPanic Vm) :
    Inv E (s.goTo (.afterVm result fun vm => .restoring (UpdatesManager.new s.db.l1Batches.length
      ⟨first.number, first.timestamp, block.hash⟩ first.protocolVersion) vm first.txs rest))
      closed pending := by
  refine h.goTo (.afterVm fun vm => ⟨⟨rfl, ?_, rfl, hfollows.version, ?_⟩, ⟨[], ?_⟩, ?_⟩)
  · rw [hqueue, hpending]
    rfl
  · intro b hb
    exact h.uniform b hb first (by simp [hpending])
  · rw [hqueue, List.append_nil, hpending, List.nil_append, UpdatesManager.header,
      UpdatesManager.extendAll_l2Block]
    -- the block is the one that was stored
    have hnone : first.l1BatchNumber = none := (h.db.unlabelled first (by simp [hpending])).1
    have hhash := hfollows.hash
    cases first
    simp only at hnone hhash
    subst hnone hhash
    rfl
  · intro b hb
    rw [hqueue, List.append_nil] at hb
    exact (h.db.unlabelled b hb).2

theorem Inv.initializeIo (hqueue : s.queue = []) (hstep : s.initializeIo E = some s') :
    Inv E s' closed pending := by
  obtain ⟨batches, batch, blocks, block, hbatches, hclosed⟩ := h.db.last
  obtain ⟨hnumber, -⟩ := h.db.find_last hbatches
  obtain ⟨last, hlast⟩ : ∃ last, s.db.miniblocks.getLast? = some last := by
    rw [h.db.blocks, hclosed]
    exact ⟨_, List.getLast?_eq_some_getLast (by simp)⟩
  have hcursor : IoCursor.new s.db = some ⟨last.number + 1, last.hash, last.timestamp,
      s.db.l1Batches.length⟩ := by
    rw [IoCursor.new, hlast, ← hnumber]
    simp [hbatches]
  rw [State.initializeIo, hcursor, h.db.l2BlocksToReexecute_eq] at hstep
  -- with stored blocks of an open batch these are executed again
  cases hpending : pending with
  | nil =>
    rw [hpending] at hstep
    cases hstep
    obtain ⟨earlier, hearlier⟩ := List.getLast?_eq_some_iff.1 hlast
    rw [← hpending]
    refine h.goTo ⟨?_, rfl, earlier, last, ?_, rfl, rfl, rfl⟩
    · rw [hpending, hqueue]
      rfl
    · rw [hqueue, List.append_nil, hearlier]
  | cons first rest =>
    rw [hpending] at hstep
    rw [← hpending]
    have hnumber : (IoCursor.mk (last.number + 1) last.hash last.timestamp
      s.db.l1Batches.length).l1Batch = s.db.l1Batches.length := rfl
    obtain ⟨hfollows, heq⟩ := h.loadPendingBatch_eq hqueue hbatches hclosed hpending hnumber
    cases heq.symm.trans hstep
    exact h.loadPendingBatch hqueue hpending hfollows _

theorem Inv.openBatch {cursor : IoCursor} {readings : List ℕ}
    (hphase : s.phase = .waitingForBatch cursor)
    (hstep : s.openBatch E cursor readings version = some s') : Inv E s' closed pending := by
  have hinv := h.phase
  rw [hphase] at hinv
  obtain ⟨hopened, hnumber, earlier, block, hblocks, hnext, hhash, htimestamp⟩ := hinv
  obtain ⟨timestamp, hsleep, hstep⟩ := Option.bind_eq_some_iff.1 hstep
  obtain ⟨batch, -, hstep⟩ := Option.bind_eq_some_iff.1 hstep
  have hlt := lt_of_sleepPast hsleep
  rw [htimestamp] at hlt
  split at hstep
  · rename_i hversion
    cases hstep
    refine h.goTo (.afterVm fun vm => ⟨⟨hnumber, ?_, rfl, hversion.version13_le, ?_⟩,
      earlier, block, hblocks, ⟨hnext, hlt, hhash, hversion.version13_le⟩⟩)
    · rw [hopened]
      rfl
    · rw [hopened]
      intro b hb
      obtain rfl := List.mem_singleton.1 hb
      rfl
  · cases hstep

omit h

theorem OpenBatch.extend {number : ℕ} (h : OpenBatch number (opened ++ [updates.header E]) updates)
    (tx : Tx) :
    OpenBatch number (opened ++ [(updates.extendFromExecutedTransaction tx).header E])
      (updates.extendFromExecutedTransaction tx) := by
  refine ⟨h.batch, ?_, h.version, h.supported, ?_⟩
  · have hfirst := h.first
    cases opened with
    | nil => exact hfirst
    | cons b opened => exact hfirst
  · intro b hb
    rcases List.mem_append.1 hb with hb | hb
    · exact h.uniform b (List.mem_append_left _ hb)
    · obtain rfl := List.mem_singleton.1 hb
      exact h.version

section

variable (h : Inv E s closed pending)
include h

theorem Inv.processTx (hphase : s.phase = .running updates vm) (tx : Tx) (compressionFails : Bool)
    (resolution : Resolution) :
    Inv E (s.processTx E updates vm tx compressionFails resolution) closed pending := by
  have hinv := h.phase
  rw [hphase] at hinv
  obtain ⟨hbatch, earlier, block, hblocks, hextends⟩ := hinv
  have hextends' : Extends block (updates.extendFromExecutedTransaction tx).l2Block :=
    ⟨hextends.number, hextends.timestamp, hextends.prevBlockHash, hextends.version⟩
  refine h.goTo (.afterVm fun vm => ?_)
  cases resolution with
  | noSeal | includeAndSeal => exact ⟨hbatch.extend tx, earlier, block, hblocks, hextends'⟩
  | excludeAndSeal => exact .afterVm fun vm => ⟨hbatch, earlier, block, hblocks, hextends⟩
  | unexecutable => exact .afterVm fun vm => ⟨hbatch, earlier, block, hblocks, hextends⟩

theorem Inv.handleL2Block
    (hbatch : OpenBatch s.db.l1Batches.length (pending ++ s.queue ++ [updates.header E]) updates)
    {earlier : List (L2BlockHeader Tx)} (hblocks : s.db.miniblocks ++ s.queue = earlier ++ [block])
    (hextends : Extends block updates.l2Block) (fictive : Bool) :
    Inv E (s.handleL2Block E updates vm fictive) closed pending := by
  have hopened : pending ++ (s.queue ++ [updates.header E])
      = pending ++ s.queue ++ [updates.header E] := (List.append_assoc _ _ _).symm
  refine ⟨h.db, ?_, ?_, ?_, ?_, ?_⟩
  · show Chain E (s.db.miniblocks ++ (s.queue ++ [updates.header E]))
    rw [← List.append_assoc, hblocks]
    exact chain_snoc hextends.follows (hblocks ▸ h.chain)
  · exact List.forall_mem_append.2 ⟨h.queue, List.forall_mem_singleton.2 rfl⟩
  · intro b hb b' hb'
    change b ∈ pending ++ (s.queue ++ [updates.header E]) at hb
    change b' ∈ pending ++ (s.queue ++ [updates.header E]) at hb'
    rw [hopened] at hb hb'
    rw [hbatch.uniform b hb, hbatch.uniform b' hb']
  · show OpenBatch s.db.l1Batches.length (pending ++ (s.queue ++ [updates.header E])) updates
    rw [hopened]
    exact hbatch
  · exact ⟨pending ++ s.queue, hopened⟩

theorem Inv.startNextL2Block {fictive : Bool}
    (hphase : s.phase = .waitingForBlock updates vm fictive)
    (hlt : updates.l2Block.timestamp < timestamp) :
    Inv E (s.startNextL2Block E updates vm timestamp (if fictive then .finishing else .running))
      closed pending := by
  have hinv := h.phase
  rw [hphase] at hinv
  obtain ⟨hbatch, earlier, hopened⟩ := hinv
  have hne : pending ++ s.queue ≠ [] := by simp [hopened]
  have hbatch' : OpenBatch s.db.l1Batches.length
      (pending ++ s.queue ++ [(updates.pushL2Block E timestamp).header E])
      (updates.pushL2Block E timestamp) := by
    refine ⟨hbatch.batch, ?_, rfl, hbatch.supported, ?_⟩
    · rw [List.head?_append_of_ne_nil _ hne]
      exact hbatch.first
    · exact List.forall_mem_append.2 ⟨hbatch.uniform, List.forall_mem_singleton.2 rfl⟩
  have hblocks : s.db.miniblocks ++ s.queue = (closed ++ earlier) ++ [updates.header E] := by
    rw [h.db.blocks, List.append_assoc, hopened, List.append_assoc]
  have hextends : Extends (updates.header E) (updates.pushL2Block E timestamp).l2Block :=
    ⟨rfl, hlt, rfl, hbatch.supported⟩
  refine h.goTo (.afterVm fun vm => ?_)
  cases fictive with
  | true | false => exact ⟨hbatch', _, _, hblocks, hextends⟩

theorem Inv.reexecuteTx {tx : Tx} {txs : List Tx}
    (hphase : s.phase = .restoring updates vm (tx :: txs) rest)
    (result : Except BootloaderPanic Vm) :
    Inv E (s.goTo (.afterVm result fun vm =>
      .restoring (updates.extendFromExecutedTransaction tx) vm txs rest)) closed pending := by
  have hinv := h.phase
  rw [hphase] at hinv
  obtain ⟨hbatch, hdone, hne⟩ := hinv
  exact h.goTo (.afterVm fun vm => ⟨⟨hbatch.batch, hbatch.first, hbatch.version, hbatch.supported,
    hbatch.uniform⟩, hdone, hne⟩)

theorem Inv.reexecuteBlock (hphase : s.phase = .restoring updates vm [] (block :: rest)) :
    Follows E (updates.header E) block ∧ updates.l2Block.executedTransactions ≠ [] ∧
    Inv E (s.startNextL2Block E updates vm block.timestamp fun updates vm =>
      .restoring updates vm block.txs rest) closed pending := by
  have hinv := h.phase
  rw [hphase] at hinv
  obtain ⟨hbatch, ⟨done, hdone⟩, hne⟩ := hinv
  change pending ++ s.queue = done ++ updates.header E :: block :: rest at hdone
  have hfollows : Follows E (updates.header E) block := by
    have hchain := h.chain
    rw [h.db.blocks, List.append_assoc, hdone] at hchain
    refine follows_of_chain (l := closed ++ done) (r := rest) ?_
    simpa using hchain
  have hmem : block ∈ pending ++ s.queue := by simp [hdone]
  refine ⟨hfollows, hne (updates.header E) (by simp [hdone]), h.goTo (.afterVm fun vm => ?_)⟩
  refine ⟨⟨hbatch.batch, hbatch.first, rfl, hbatch.supported, hbatch.uniform⟩,
    ⟨done ++ [updates.header E], ?_⟩, hne⟩
  have hnone : block.l1BatchNumber = none := by
    rcases List.mem_append.1 hmem with hmem | hmem
    · exact (h.db.unlabelled block hmem).1
    · exact h.queue block hmem
  have hversion := hbatch.uniform block hmem
  -- what is rebuilt is the stored block
  have heq : ((updates.pushL2Block E block.timestamp).extendAll block.txs).header E = block := by
    rw [UpdatesManager.header, UpdatesManager.extendAll_l2Block]
    have hnumber := hfollows.number
    have hhash := hfollows.hash
    cases block
    simp only at hnone hversion hnumber hhash
    subst hnone hversion hnumber hhash
    rfl
  rw [heq, hdone]
  simp

theorem Inv.storeL2Block {block : L2BlockHeader Tx}
    (hqueue : s.queue = block :: queue) (hne : block.txs ≠ []) :
    Inv E { s with db := { s.db with miniblocks := s.db.miniblocks ++ [block] }, queue } closed
      (pending ++ [block]) := by
  have hblocks : s.db.miniblocks ++ [block] ++ queue = s.db.miniblocks ++ s.queue := by
    rw [hqueue, List.append_assoc]
    rfl
  have hopened : pending ++ [block] ++ queue = pending ++ s.queue := by
    rw [hqueue, List.append_assoc]
    rfl
  refine ⟨⟨?_, h.db.labelled, ?_, h.db.numbers, h.db.last, h.db.first, h.db.increasing⟩,
    ?_, ?_, ?_, ?_⟩
  · rw [h.db.blocks, List.append_assoc]
  · intro b hb
    rcases List.mem_append.1 hb with hb | hb
    · exact h.db.unlabelled b hb
    · obtain rfl := List.mem_singleton.1 hb
      exact ⟨h.queue b (by simp [hqueue]), hne⟩
  · rw [hblocks]
    exact h.chain
  · intro b hb
    exact h.queue b (by simp only [hqueue, List.mem_cons]; exact .inr hb)
  · rw [hopened]
    exact h.uniform
  · have hinv := h.phase
    rw [hblocks, hopened]
    cases hphase : s.phase with
    -- a stopped process has no queue
    | stopped =>
      rw [hphase, hqueue] at hinv
      cases hinv
    | waitingForBatch | restoring | running | waitingForBlock | finishing | failed =>
      rw [hphase] at hinv
      exact hinv

end

def L2BlockHeader.labelled (number : ℕ) (block : L2BlockHeader Tx) : L2BlockHeader Tx :=
  { block with l1BatchNumber := block.l1BatchNumber.or (some number) }

theorem DbInv.map_labelled (h : DbInv db closed pending) (number : ℕ) :
    closed.map (L2BlockHeader.labelled number) = closed := by
  refine (List.map_congr_left fun b hb => ?_).trans (List.map_id _)
  obtain ⟨n, hn, -⟩ := h.labelled b hb
  show { b with l1BatchNumber := b.l1BatchNumber.or (some number) } = b
  rw [hn, Option.some_or, ← hn]

theorem Follows.labelled {a b : L2BlockHeader Tx} (h : Follows E a b) (number : ℕ) :
    Follows E (a.labelled number) (b.labelled number) :=
  ⟨h.number, h.timestamp, h.hash, h.version⟩

theorem DbInv.finish (h : DbInv db closed pending) {header : L2BlockHeader Tx}
    (hchain : Chain E (db.miniblocks ++ [header])) (hnone : header.l1BatchNumber = none)
    (hfirst : (pending ++ [header]).head?.map L2BlockHeader.timestamp = some timestamp)
    (lastL2Block : StoredL2Block) :
    let blocks := (db.miniblocks ++ [header]).map (L2BlockHeader.labelled db.l1Batches.length)
    DbInv ⟨blocks, db.l1Batches ++ [⟨db.l1Batches.length, timestamp, lastL2Block⟩]⟩ blocks [] := by
  intro blocks
  -- `b` is the first block of the batch: its timestamp is that of the batch
  obtain ⟨b, opened, hopened⟩ : ∃ b opened, pending ++ [header] = b :: opened :=
    List.exists_cons_of_ne_nil (by simp)
  have hb : b.timestamp = timestamp := by
    rw [hopened] at hfirst
    exact Option.some.inj hfirst
  have hsplit : db.miniblocks ++ [header] = closed ++ b :: opened := by
    rw [h.blocks, List.append_assoc, hopened]
  have hblocks : blocks = closed ++ (b :: opened).map
    (L2BlockHeader.labelled db.l1Batches.length) := by
    rw [← h.map_labelled db.l1Batches.length, ← List.map_append, ← hsplit]
  have hopenedNone : ∀ x ∈ b :: opened, x.l1BatchNumber = none := by
    intro x hx
    rw [← hopened] at hx
    rcases List.mem_append.1 hx with hx | hx
    · exact (h.unlabelled x hx).1
    · rw [List.mem_singleton.1 hx, hnone]
  have htimestamps := hchain.timestamps
  rw [hsplit, List.map_append, List.pairwise_append] at htimestamps
  refine ⟨(List.append_nil _).symm, ?_, nofun, ?_, ?_, ?_, ?_⟩
  · intro x hx
    rw [List.length_append, List.length_singleton]
    rw [hblocks] at hx
    rcases List.mem_append.1 hx with hx | hx
    · obtain ⟨n, hn, hlt⟩ := h.labelled x hx
      exact ⟨n, hn, hlt.trans (Nat.lt_succ_self _)⟩
    · obtain ⟨y, hy, rfl⟩ := List.mem_map.1 hx
      refine ⟨db.l1Batches.length, ?_, Nat.lt_succ_self _⟩
      rw [L2BlockHeader.labelled, hopenedNone y hy]
      rfl
  · rw [List.map_append, h.numbers, List.length_append, List.length_singleton, List.range_succ]
    rfl
  · exact ⟨_, _, db.miniblocks.map (L2BlockHeader.labelled db.l1Batches.length),
      header.labelled db.l1Batches.length, rfl, List.map_append⟩
  · intro batch hbatch
    rw [hblocks, List.find?_append]
    rcases List.mem_append.1 hbatch with hbatch | hbatch
    · obtain ⟨x, hx, htimestamp⟩ := Option.map_eq_some_iff.1 (h.first batch hbatch)
      rw [hx, Option.some_or, Option.map_some, htimestamp]
    · obtain rfl := List.mem_singleton.1 hbatch
      -- closed blocks have lower labels
      have hnotFound : (closed.find? fun x =>
        x.l1BatchNumber = some db.l1Batches.length) = none := by
        rw [List.find?_eq_none]
        intro x hx
        obtain ⟨n, hn, hlt⟩ := h.labelled x hx
        simp [hn, hlt.ne]
      have hfound : ((b :: opened).map (L2BlockHeader.labelled db.l1Batches.length)).find?
          (fun x => x.l1BatchNumber = some db.l1Batches.length)
            = some (b.labelled db.l1Batches.length) := by
        rw [List.map_cons, List.find?_cons_of_pos]
        simp [L2BlockHeader.labelled, hopenedNone b List.mem_cons_self]
      rw [hnotFound, Option.none_or, hfound]
      exact congrArg some hb
  -- the batch before begins with a block before `b`
  · rw [List.map_append, List.pairwise_append]
    refine ⟨h.increasing, List.pairwise_singleton _ _, ?_⟩
    intro t ht t' ht'
    obtain ⟨batch, hbatch, rfl⟩ := List.mem_map.1 ht
    obtain rfl := List.mem_singleton.1 ht'
    obtain ⟨x, hx, htimestamp⟩ := h.timestamp_mem hbatch
    rw [← htimestamp, ← hb]
    exact htimestamps.2.2 _ (List.mem_map_of_mem hx) _ (by simp)

include h in
theorem Inv.finishBatch (hphase : s.phase = .finishing updates vm) (hqueue : s.queue = []) :
    ∃ closed' pending', Inv E (s.finishBatch E updates vm) closed' pending' := by
  have hinv := h.phase
  rw [hphase, hqueue, List.append_nil, List.append_nil] at hinv
  obtain ⟨hbatch, earlier, block, hblocks, hextends⟩ := hinv
  rw [State.finishBatch]
  cases vm.finishBatch E with
  | error panic => exact ⟨closed, pending, h.goTo ⟨panic, rfl⟩⟩
  | ok lastL2Block =>
    have hchain : Chain E (s.db.miniblocks ++ [updates.header E]) := by
      have hold := h.chain
      rw [hqueue, List.append_nil, hblocks] at hold
      rw [hblocks]
      exact chain_snoc hextends.follows hold
    have hdb := h.db.finish hchain rfl hbatch.first lastL2Block
    rw [← hbatch.batch] at hdb
    -- labels do not enter into hashes
    have hlabelled : Chain E ((s.db.miniblocks ++ [updates.header E]).map
        (L2BlockHeader.labelled updates.l1BatchNumber)) :=
      List.isChain_map_of_isChain _ (fun _ _ hfollows => hfollows.labelled _) hchain
    refine ⟨_, [], hdb, ?_, ?_, ?_, ?_⟩
    · rw [hqueue, List.append_nil]
      exact hlabelled
    · exact h.queue
    · rw [hqueue]
      exact nofun
    · rw [hqueue, List.append_nil]
      refine ⟨rfl, ?_, s.db.miniblocks.map (L2BlockHeader.labelled updates.l1BatchNumber),
        (updates.header E).labelled updates.l1BatchNumber, List.map_append, rfl, rfl, rfl⟩
      rw [List.length_append, List.length_singleton, hbatch.batch]

include h in
theorem Inv.step {event : Event Tx} (hstep : s.step E event = some s') :
    ∃ closed' pending', Inv E s' closed' pending' := by
  have hinv := h.phase
  cases State.stepped_of_step hstep with
  | start hphase hstart => exact ⟨_, _, h.initializeIo (by rwa [hphase] at hinv) hstart⟩
  | openBatch hphase hopen => exact ⟨_, _, h.openBatch hphase hopen⟩
  | reexecuteTx hphase => exact ⟨_, _, h.reexecuteTx hphase _⟩
  | reexecuteBlock hphase => exact ⟨_, _, (h.reexecuteBlock hphase).2.2⟩
  | restored hphase =>
    rw [hphase] at hinv
    exact ⟨_, _, h.goTo ⟨hinv.1, hinv.2.1⟩⟩
  | processTx hphase tx compressionFails resolution =>
    exact ⟨_, _, h.processTx hphase tx compressionFails resolution⟩
  | sealL2Block fictive hphase =>
    rw [hphase] at hinv
    obtain ⟨hbatch, earlier, block, hblocks, hextends⟩ : PhaseInv E _ _ _ _ (.running _ _) := by
      cases fictive <;> exact hinv
    exact ⟨_, _, h.handleL2Block hbatch hblocks hextends fictive⟩
  | sealL1Batch hphase =>
    rw [hphase] at hinv
    exact ⟨_, _, h.goTo hinv⟩
  | startNextL2Block hphase hsleep =>
    exact ⟨_, _, h.startNextL2Block hphase (lt_of_sleepPast hsleep)⟩
  | finishBatch hphase _ hqueue => exact h.finishBatch hphase hqueue
  | storeL2Block hqueue hne => exact ⟨_, _, h.storeL2Block hqueue hne⟩
  -- what was not stored is lost
  | stop =>
    have hchain : Chain E s.db.miniblocks := (List.isChain_append.1 h.chain).1
    refine ⟨closed, pending, h.db, ?_, nofun, ?_, rfl⟩
    · rw [List.append_nil]
      exact hchain
    · intro b hb b' hb'
      rw [List.append_nil] at hb hb'
      exact h.uniform b (List.mem_append_left _ hb) b' (List.mem_append_left _ hb')

theorem Inv.genesis (E : BlockExternals Tx) (version : ProtocolVersionId) :
    Inv E (.genesis E version) (Db.genesis E version).miniblocks [] := by
  refine ⟨⟨rfl, ?_, nofun, rfl, ?_, ?_, List.pairwise_singleton _ _⟩,
    List.isChain_singleton _, nofun,
    nofun, rfl⟩
  · intro b hb
    obtain rfl := List.mem_singleton.1 hb
    exact ⟨0, rfl, Nat.zero_lt_one⟩
  · exact ⟨[], _, [], _, rfl, rfl⟩
  · intro batch hbatch
    obtain rfl := List.mem_singleton.1 hbatch
    rfl

end Inv

namespace State

def openBlock (E : BlockExternals Tx) (s : State Tx) : Option (L2BlockHeader Tx) :=
  match s.phase with
  | .running updates _ | .finishing updates _ => some (updates.header E)
  | _ => none

def current (s : State Tx) : Option (UpdatesManager Tx × Vm) :=
  match s.phase with
  | .running updates vm | .finishing updates vm | .waitingForBlock updates vm _
  | .restoring updates vm _ _ => some (updates, vm)
  | _ => none

def blocks (E : BlockExternals Tx) (s : State Tx) : List (L2BlockHeader Tx) :=
  s.db.miniblocks ++ s.queue ++ (s.openBlock E).toList

def batches (s : State Tx) : List (ℕ × ℕ) :=
  s.db.l1Batches.map (fun batch => (batch.number, batch.timestamp)) ++
    (s.current.map fun (updates, _) => (updates.l1BatchNumber, updates.batchTimestamp)).toList

end State

section Runs

variable {E : BlockExternals Tx} {s : State Tx} {closed pending : List (L2BlockHeader Tx)}

section

variable (h : Inv E s closed pending)
include h

theorem Inv.chain_blocks : Chain E (s.blocks E) := by
  have hphase := h.phase
  have hopen : ∀ updates : UpdatesManager Tx, s.openBlock E = some (updates.header E) →
      (∃ earlier block, s.db.miniblocks ++ s.queue = earlier ++ [block] ∧
        Extends block updates.l2Block) → Chain E (s.blocks E) := by
    rintro updates hopen ⟨earlier, block, hblocks, hextends⟩
    have hchain := h.chain
    rw [State.blocks, hopen, Option.toList_some, hblocks]
    rw [hblocks] at hchain
    exact chain_snoc hextends.follows hchain
  have hclosed : s.openBlock E = none → Chain E (s.blocks E) := by
    intro hnone
    rw [State.blocks, hnone, Option.toList_none, List.append_nil]
    exact h.chain
  cases heq : s.phase with
  | running updates vm | finishing updates vm =>
    rw [heq] at hphase
    exact hopen updates (by rw [State.openBlock, heq]) hphase.2
  | stopped | waitingForBatch | restoring | waitingForBlock | failed =>
    exact hclosed (by rw [State.openBlock, heq])

theorem Inv.openBatch_current (hcurrent : s.current = some (updates, vm)) :
    OpenBatch s.db.l1Batches.length (pending ++ s.queue ++ (s.openBlock E).toList) updates := by
  have hphase := h.phase
  rw [State.current] at hcurrent
  rw [State.openBlock]
  cases heq : s.phase with
  | running updates' vm' | finishing updates' vm' =>
    rw [heq] at hphase hcurrent
    cases hcurrent
    exact hphase.1
  | restoring updates' vm' txs rest | waitingForBlock updates' vm' fictive =>
    rw [heq] at hphase hcurrent
    cases hcurrent
    rw [Option.toList_none, List.append_nil]
    exact hphase.1
  | stopped | waitingForBatch | failed =>
    rw [heq] at hcurrent
    cases hcurrent

theorem Inv.openBlock_label {b : L2BlockHeader Tx}
    (hb : b ∈ pending ++ s.queue ++ (s.openBlock E).toList) : b.l1BatchNumber = none := by
  rcases List.mem_append.1 hb with hb | hb
  · rcases List.mem_append.1 hb with hb | hb
    · exact (h.db.unlabelled b hb).1
    · exact h.queue b hb
  · rw [State.openBlock] at hb
    split at hb
    · obtain rfl := List.mem_singleton.1 hb
      rfl
    · obtain rfl := List.mem_singleton.1 hb
      rfl
    · cases hb

theorem Inv.first_block {batch : ℕ × ℕ} (hbatch : batch ∈ s.batches) :
    ((s.blocks E).find? fun b => b.l1BatchNumber.getD s.db.l1Batches.length = batch.1).map
      L2BlockHeader.timestamp = some batch.2 := by
  have hsplit : s.blocks E = closed ++ (pending ++ s.queue ++ (s.openBlock E).toList) := by
    rw [State.blocks, h.db.blocks]
    simp only [List.append_assoc]
  rw [hsplit, List.find?_append]
  rcases List.mem_append.1 hbatch with hbatch | hbatch
  -- a sealed batch: its blocks are labelled
  · obtain ⟨row, hrow, rfl⟩ := List.mem_map.1 hbatch
    have hsame : (closed.find? fun b => b.l1BatchNumber.getD s.db.l1Batches.length = row.number)
        = closed.find? fun b => b.l1BatchNumber = some row.number := by
      refine List.find?_congr fun b hb => ?_
      obtain ⟨n, hn, -⟩ := h.db.labelled b hb
      simp [hn]
    obtain ⟨b, hb, htimestamp⟩ := Option.map_eq_some_iff.1 (h.db.first row hrow)
    rw [hsame, hb, Option.some_or, Option.map_some, htimestamp]
  -- the open one: none of its blocks is
  · obtain ⟨⟨updates, vm⟩, hcurrent, rfl⟩ :=
      Option.map_eq_some_iff.1 (Option.mem_toList.1 hbatch)
    have hopen := h.openBatch_current hcurrent
    have hnotFound : (closed.find? fun b =>
        b.l1BatchNumber.getD s.db.l1Batches.length = updates.l1BatchNumber) = none := by
      rw [List.find?_eq_none]
      intro b hb
      obtain ⟨n, hn, hlt⟩ := h.db.labelled b hb
      simp [hn, hopen.batch, hlt.ne]
    have hlabel : ∀ b ∈ pending ++ s.queue ++ (s.openBlock E).toList, b.l1BatchNumber = none :=
      fun b hb => h.openBlock_label hb
    have hfirst := hopen.first
    rw [hnotFound, Option.none_or]
    cases hopened : pending ++ s.queue ++ (s.openBlock E).toList with
    | nil =>
      rw [hopened] at hfirst
      cases hfirst
    | cons b opened =>
      rw [hopened] at hfirst hlabel
      rw [List.find?_cons_of_pos]
      · exact hfirst
      · simp [hlabel b List.mem_cons_self, hopen.batch]

theorem Inv.increasing_batches : (s.batches.map Prod.snd).Pairwise (· < ·) := by
  have hmap : (s.db.l1Batches.map fun batch => (batch.number, batch.timestamp)).map Prod.snd
      = s.db.l1Batches.map L1BatchHeader.timestamp := by
    rw [List.map_map]
    rfl
  rw [State.batches, List.map_append, hmap, List.pairwise_append]
  refine ⟨h.db.increasing, ?_, ?_⟩
  · cases s.current with
    | none => exact List.Pairwise.nil
    | some current => exact List.pairwise_singleton _ _
  -- a stored block is before the first block of the open batch
  · intro t ht t' ht'
    obtain ⟨batch, hbatch, rfl⟩ := List.mem_map.1 ht
    obtain ⟨pair, hpair, rfl⟩ := List.mem_map.1 ht'
    obtain ⟨⟨updates, vm⟩, hcurrent, rfl⟩ := Option.map_eq_some_iff.1 (Option.mem_toList.1 hpair)
    obtain ⟨b, hb, htimestamp⟩ := h.db.timestamp_mem hbatch
    obtain ⟨first, hfirst, hupdates⟩ :=
      Option.map_eq_some_iff.1 (h.openBatch_current hcurrent).first
    have htimestamps := h.chain_blocks.timestamps
    rw [State.blocks, h.db.blocks, List.append_assoc, List.append_assoc, List.map_append,
      List.pairwise_append, ← List.append_assoc] at htimestamps
    rw [← htimestamp]
    show b.timestamp < updates.batchTimestamp
    rw [← hupdates]
    exact htimestamps.2.2 _ (List.mem_map_of_mem hb) _
      (List.mem_map_of_mem (List.mem_of_head? hfirst))

end

variable {events : List (Event Tx)}

theorem Inv.of_run (hrun : Run (StepRel.ofPartial (State.step E)) (.genesis E version) events s) :
    ∃ closed pending, Inv E s closed pending := by
  refine hrun.invariant (I := fun s => ∃ closed pending, Inv E s closed pending) ?_
    ⟨_, _, Inv.genesis E version⟩
  rintro s event s' ⟨closed, pending, h⟩ hstep
  exact h.step hstep

/-- **Timestamps increase**, those of blocks and those of batches, at every point of every run,
whatever the clock returned; and a batch that is loaded after a restart passes the check. -/
theorem keeperRun_timestamps {version : ProtocolVersionId}
    (hrun : Run (StepRel.ofPartial (State.step E)) (.genesis E version) events s) :
    ((s.blocks E).map L2BlockHeader.timestamp).Pairwise (· < ·) ∧
    (s.batches.map Prod.snd).Pairwise (· < ·) ∧
    (∀ batch ∈ s.batches, ((s.blocks E).find? fun b =>
      b.l1BatchNumber.getD s.db.l1Batches.length = batch.1).map L2BlockHeader.timestamp
        = some batch.2) ∧
    s.phase ≠ .failed .batchTimestamp := by
  obtain ⟨closed, pending, h⟩ := Inv.of_run hrun
  refine ⟨h.chain_blocks.timestamps, h.increasing_batches, fun batch hbatch =>
    h.first_block hbatch, ?_⟩
  intro hfailed
  have hphase := h.phase
  rw [hfailed] at hphase
  obtain ⟨panic, hpanic⟩ := hphase
  cases hpanic

/-- **The chain has no gaps**, at every point of every run: blocks and batches have the next
numbers, and stored blocks are those of sealed batches, followed by those of the open one. -/
theorem keeperRun_chain {version : ProtocolVersionId}
    (hrun : Run (StepRel.ofPartial (State.step E)) (.genesis E version) events s) :
    Chain E (s.blocks E) ∧
    s.batches.map Prod.fst = List.range s.batches.length ∧
    ∃ closed opened, s.db.miniblocks = closed ++ opened ∧
      (∀ b ∈ closed, ∃ number < s.db.l1Batches.length, b.l1BatchNumber = some number) ∧
      ∀ b ∈ opened, b.l1BatchNumber = none ∧ b.txs ≠ [] := by
  obtain ⟨closed, pending, h⟩ := Inv.of_run hrun
  refine ⟨h.chain_blocks, ?_, closed, pending, h.db.blocks, fun b hb => ?_, h.db.unlabelled⟩
  · have hstored : s.db.l1Batches.map (Prod.fst ∘ fun batch => (batch.number, batch.timestamp)) =
        List.range s.db.l1Batches.length := h.db.numbers
    rw [State.batches, List.map_append, List.map_map, hstored]
    cases hcurrent : s.current with
    | none => simp
    | some current => simp [List.range_succ, (h.openBatch_current hcurrent).batch]
  · obtain ⟨number, hnumber, hlt⟩ := h.db.labelled b hb
    exact ⟨number, hlt, hnumber⟩

end Runs

def sampleExternals : BlockExternals ℕ where
  keccak256 bytes := FixedBytes.ofNat 32 (bytes.foldl (fun sum b => 3 * sum + b.toNat) 1)
  txHash := FixedBytes.ofNat 32
  bootloaderTxHash := FixedBytes.ofNat 32
  systemContext block := ⟨block.number, block.timestamp, block.prevBlockHash, block.txsRollingHash⟩

/-- A restart in a batch, a clock that goes back, a rejected transaction, and the last block. -/
def eventsWith {Tx : Type} (a b c : Tx) : List (Event Tx) :=
  [.start, .openBatch [5000] .version24, .processTx a true .noSeal, .sealL2Block,
    .storeL2Block, .stop,
    .start, .reexecuteTx false, .reexecuteBlock, .startNextL2Block [3000, 5999, 9000],
    .processTx b false .unexecutable, .processTx c false .includeAndSeal, .sealL2Block,
    .startNextL2Block [9500, 10000], .storeL2Block, .finishBatch, .openBatch [12000] .version25]

def sampleEvents : List (Event ℕ) := eventsWith 1 2 3

theorem sampleEvents_run : ∃ s, Run (StepRel.ofPartial (State.step sampleExternals))
    (.genesis sampleExternals .version24) sampleEvents s ∧
    (s.blocks sampleExternals).map L2BlockHeader.timestamp = [0, 5, 9, 10, 12] ∧
    s.batches = [(0, 0), (1, 5), (2, 12)] :=
  Run.witness (fun _ _ h => h) (by decide +kernel)

theorem keeperRun_timestamps_sample : ∃ s, Run (StepRel.ofPartial (State.step sampleExternals))
    (.genesis sampleExternals .version24) sampleEvents s ∧
    (s.blocks sampleExternals).map L2BlockHeader.timestamp = [0, 5, 9, 10, 12] ∧
    ((s.blocks sampleExternals).map L2BlockHeader.timestamp).Pairwise (· < ·) := by
  obtain ⟨s, hrun, hblocks, -⟩ := sampleEvents_run
  exact ⟨s, hrun, hblocks, (keeperRun_timestamps hrun).1⟩

theorem keeperRun_chain_sample : ∃ s, Run (StepRel.ofPartial (State.step sampleExternals))
    (.genesis sampleExternals .version24) sampleEvents s ∧
    (s.blocks sampleExternals).map L2BlockHeader.timestamp = [0, 5, 9, 10, 12] ∧
    Chain sampleExternals (s.blocks sampleExternals) := by
  obtain ⟨s, hrun, hblocks, -⟩ := sampleEvents_run
  exact ⟨s, hrun, hblocks, (keeperRun_chain hrun).1⟩

end Keeper
