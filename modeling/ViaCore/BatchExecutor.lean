/-
The state keeper and the thread that executes its transactions.

For every batch there is a VM, in a thread of its own, to which the state keeper sends one command
after the other.  Before a transaction is executed, a snapshot of the VM is made; if the state
keeper does not want to have the transaction in the batch, it sends the command to roll it back.
The state keeper keeps its own list of the transactions of the batch, which is stored in the end.
Nothing compares it with what the VM has executed: both sides only follow the same rules.

* `finishBatch_agrees` — the sealed batch is what the VM has executed.
-/
import ViaCore.Runs
import ViaCore.Outcome
import ViaCore.L2Blocks

namespace BatchExecutor

inductive ExecutionResult where
  | success
  | revert
  | halt (reason : Halt)
  deriving DecidableEq

def ExecutionResult.isFailed : ExecutionResult → Bool
  | .success => false
  | .revert => true
  | .halt _ => true

structure VmExecutionResultAndLogs (Logs : Type) where
  result : ExecutionResult
  logs : Logs

structure TransactionExecution (Tx Logs : Type) where
  transaction : Tx
  txResult : VmExecutionResultAndLogs Logs
  /-- Original and compressed. -/
  compressedBytecodes : List (Bytes × Bytes)

structure ExecutedL2Block (Tx Logs : Type) where
  env : L2BlockEnv
  txs : List (TransactionExecution Tx Logs)

/-- What a snapshot has: the blocks and transactions that were given to the bootloader, and the rest
of the memory, which they have led to. -/
structure Machine (Tx Logs Memory : Type) where
  earlier : List (ExecutedL2Block Tx Logs)
  lastL2Block : ExecutedL2Block Tx Logs
  memory : Memory

structure Vm (Tx Logs Memory : Type) where
  machine : Machine Tx Logs Memory
  snapshots : List (Machine Tx Logs Memory)

structure Inspected (Logs Memory : Type) where
  memory : Memory
  published : Bool
  txResult : VmExecutionResultAndLogs Logs
  compressedBytecodes : List (Bytes × Bytes)

variable {Tx Logs Memory : Type}

namespace Machine

def l2Blocks (self : Machine Tx Logs Memory) : List (ExecutedL2Block Tx Logs) :=
  self.earlier ++ [self.lastL2Block]

def pushTx (self : Machine Tx Logs Memory) (executed : TransactionExecution Tx Logs)
    (memory : Memory) : Machine Tx Logs Memory :=
  { self with
    lastL2Block := { self.lastL2Block with txs := self.lastL2Block.txs ++ [executed] }
    memory }

end Machine

namespace Vm

def new (firstL2Block : L2BlockEnv) (memory : Memory) : Vm Tx Logs Memory :=
  ⟨⟨[], ⟨firstL2Block, []⟩, memory⟩, []⟩

def makeSnapshot (self : Vm Tx Logs Memory) : Vm Tx Logs Memory :=
  { self with snapshots := self.machine :: self.snapshots }

def rollbackToTheLatestSnapshot (self : Vm Tx Logs Memory) : Outcome Unit (Vm Tx Logs Memory) :=
  match self.snapshots with
  -- "Snapshot should be created before rolling it back"
  | [] => .panic
  | snapshot :: snapshots => .ok ⟨snapshot, snapshots⟩

def popSnapshotNoRollback (self : Vm Tx Logs Memory) : Vm Tx Logs Memory :=
  { self with snapshots := self.snapshots.tail }

def inspectTransactionWithBytecodeCompression (self : Vm Tx Logs Memory) (tx : Tx)
    (inspected : Inspected Logs Memory) : Vm Tx Logs Memory :=
  { self with
    machine := self.machine.pushTx ⟨tx, inspected.txResult, inspected.compressedBytecodes⟩
      inspected.memory }

def startNewL2Block (self : Vm Tx Logs Memory) (env : L2BlockEnv) : Vm Tx Logs Memory :=
  { self with machine := ⟨self.machine.l2Blocks, ⟨env, []⟩, self.machine.memory⟩ }

end Vm

/-! ### Commands -/

inductive Command (Tx : Type) where
  | executeTx (tx : Tx)
  | startNextL2Block (env : L2BlockEnv)
  | rollbackLastTx
  | finishBatch

inductive TxExecutionResult (Logs : Type) where
  | success (txResult : VmExecutionResultAndLogs Logs) (compressedBytecodes : List (Bytes × Bytes))
  | rejectedByVm (reason : Halt)
  | bootloaderOutOfGasForTx

inductive Response (Logs : Type) where
  | executed (result : TxExecutionResult Logs)
  | done
  | finished

structure TransactionOutput (Logs : Type) where
  txResult : VmExecutionResultAndLogs Logs
  compressedBytecodes : List (Bytes × Bytes)

structure CommandReceiver where
  optionalBytecodeCompression : Bool

namespace CommandReceiver

/-- If the compressed bytecodes are not published, the transaction is executed again, without
compression. -/
def executeTxInVmWithOptionalCompression (tx : Tx) (vm : Vm Tx Logs Memory)
    (compressed plain : Inspected Logs Memory) :
    Outcome Unit (Vm Tx Logs Memory × TransactionOutput Logs) :=
  let inspectedVm := vm.inspectTransactionWithBytecodeCompression tx compressed
  if compressed.published then
    .ok (inspectedVm, ⟨compressed.txResult, compressed.compressedBytecodes⟩)
  else do
    let vm ← inspectedVm.rollbackToTheLatestSnapshot
    let vm := vm.makeSnapshot.inspectTransactionWithBytecodeCompression tx plain
    -- "compression failed when it wasn't applied"
    if plain.published then .ok (vm, ⟨plain.txResult, plain.compressedBytecodes⟩) else .err ()

/-- If the compressed bytecodes are not published, the transaction is rejected. -/
def executeTxInVm (tx : Tx) (vm : Vm Tx Logs Memory) (compressed : Inspected Logs Memory) :
    Outcome Unit (Vm Tx Logs Memory × TransactionOutput Logs) :=
  let vm := vm.inspectTransactionWithBytecodeCompression tx compressed
  if compressed.published then .ok (vm, ⟨compressed.txResult, compressed.compressedBytecodes⟩)
  else
    .ok (vm, ⟨{ compressed.txResult with result := .halt .failedToPublishCompressedBytecodes }, []⟩)

def executeTx (self : CommandReceiver) (tx : Tx) (vm : Vm Tx Logs Memory)
    (compressed plain : Inspected Logs Memory) :
    Outcome Unit (Vm Tx Logs Memory × TxExecutionResult Logs) :=
  let vm := vm.popSnapshotNoRollback.makeSnapshot
  let inspect :=
    if self.optionalBytecodeCompression then
      executeTxInVmWithOptionalCompression tx vm compressed plain
    else executeTxInVm tx vm compressed
  do
    let (vm, output) ← inspect
    pure (vm, match output.txResult.result with
      | .halt .bootloaderOutOfGas => .bootloaderOutOfGasForTx
      | .halt reason => .rejectedByVm reason
      | _ => .success output.txResult output.compressedBytecodes)

def handle (self : CommandReceiver) (vm : Vm Tx Logs Memory)
    (compressed plain : Inspected Logs Memory) :
    Command Tx → Outcome Unit (Vm Tx Logs Memory × Response Logs)
  | .executeTx tx => do
    let (vm, result) ← self.executeTx tx vm compressed plain
    pure (vm, .executed result)
  | .rollbackLastTx => do
    let vm ← vm.rollbackToTheLatestSnapshot
    pure (vm, .done)
  | .startNextL2Block env => pure (vm.startNewL2Block env, .done)
  | .finishBatch => pure (vm, .finished)

end CommandReceiver

structure UpdatesManager (Tx Logs : Type) where
  protocolVersion : ProtocolVersionId
  /-- `l1_batch.executed_transactions`, of the blocks before. -/
  executedTransactions : List (TransactionExecution Tx Logs)
  l2Block : KeeperL2Block (TransactionExecution Tx Logs)
  pushed : List (KeeperL2Block (TransactionExecution Tx Logs))

namespace UpdatesManager

def new (firstL2Block : L2BlockEnv) (version : ProtocolVersionId) : UpdatesManager Tx Logs :=
  ⟨version, [],
    .new firstL2Block.timestamp firstL2Block.number firstL2Block.prevBlockHash version, []⟩

def extendFromExecutedTransaction (self : UpdatesManager Tx Logs) (tx : Tx)
    (txResult : VmExecutionResultAndLogs Logs) (compressedBytecodes : List (Bytes × Bytes)) :
    UpdatesManager Tx Logs :=
  { self with
    l2Block := self.l2Block.extendFromExecutedTransaction ⟨tx, txResult, compressedBytecodes⟩ }

def pendingExecutedTransactionsLen (self : UpdatesManager Tx Logs) : ℕ :=
  self.executedTransactions.length + self.l2Block.executedTransactions.length

def pushL2Block (E : BlockExternals (TransactionExecution Tx Logs)) (self : UpdatesManager Tx Logs)
    (timestamp : ℕ) : UpdatesManager Tx Logs :=
  { self with
    executedTransactions := self.executedTransactions ++ self.l2Block.executedTransactions
    l2Block := .new timestamp (self.l2Block.number + 1) (self.l2Block.getL2BlockHash E)
      self.protocolVersion
    pushed := self.pushed ++ [self.l2Block] }

def l2Blocks (self : UpdatesManager Tx Logs) : List (ExecutedL2Block Tx Logs) :=
  (self.pushed ++ [self.l2Block]).map fun block => ⟨block.getEnv, block.executedTransactions⟩

end UpdatesManager

structure L2BlockExecutionData (Tx : Type) where
  timestamp : ℕ
  txs : List Tx

inductive KeeperPc (Tx : Type) where
  /-- `restore_state`: transactions of the current block, and later blocks. -/
  | restoring (txs : List Tx) (blocks : List (L2BlockExecutionData Tx))
  | starting
  | looping
  | waitingForTx
  | sealedL2Block
  /-- `process_l1_batch` has returned. -/
  | sealing
  /-- The last block with transactions is sealed. -/
  | sealedLast
  | finishing
  | awaitingReexecuted (tx : Tx) (txs : List Tx) (blocks : List (L2BlockExecutionData Tx))
  | awaitingStart (next : KeeperPc Tx)
  | awaitingExecuted (tx : Tx) (isUpgrade : Bool)
  /-- The batch may be sealed without the transaction. -/
  | awaitingRollback (shouldSeal : Bool)
  | awaitingFinished
  | finished
  /-- With an error, or canceled. -/
  | stopped
  /-- "Tx inclusion seal resolution must be a result of a successful tx execution" -/
  | unreachable

inductive ExecutorState (Tx Logs Memory : Type) where
  | running (vm : Vm Tx Logs Memory)
  | finished (vm : Vm Tx Logs Memory)
  | failed
  /-- It was rolled back without a snapshot. -/
  | noSnapshot

def ExecutorState.after (vm : Vm Tx Logs Memory) : Command Tx → ExecutorState Tx Logs Memory
  | .finishBatch => .finished vm
  | _ => .running vm

structure BatchState (Tx Logs Memory : Type) where
  pc : KeeperPc Tx
  updates : UpdatesManager Tx Logs
  protocolUpgradeTx : Option Tx
  command : Option (Command Tx)
  response : Option (Response Logs)
  executor : ExecutorState Tx Logs Memory

inductive BatchEvent (Tx Logs Memory : Type) where
  | proceed
  | sealUnconditionally
  | sealL2Block
  | newL2BlockParams (timestamp : ℕ)
  | nextTx (tx : Option Tx)
  /-- The state keeper gets the response; the sealer is asked if the execution was a success. -/
  | receive (sealer : SealResolution)
  | handle (compressed plain : Inspected Logs Memory)
  /-- Some panic of the VM, such as a check of the next block, or an error. -/
  | executorFails
  /-- A stop signal, or an error of the database. -/
  | stop

/-- The resolution of `process_one_tx`. -/
def processOneTx (isFirstTx : Bool) (sealer : SealResolution) :
    TxExecutionResult Logs → SealResolution
  | .bootloaderOutOfGasForTx =>
    if isFirstTx then .unexecutable .bootloaderOutOfGas else .excludeAndSeal
  | .rejectedByVm .notEnoughGasProvided =>
    if isFirstTx then .unexecutable .notEnoughGasProvided else .excludeAndSeal
  | .rejectedByVm reason => .unexecutable (.halt reason)
  | .success _ _ => sealer

namespace BatchState

variable (E : BlockExternals (TransactionExecution Tx Logs))

/-- A batch at its start; after a restart there are blocks to execute again. -/
def init (firstL2Block : L2BlockEnv) (version : ProtocolVersionId) (memory : Memory)
    (protocolUpgradeTx : Option Tx) (pendingL2Blocks : List (L2BlockExecutionData Tx)) :
    BatchState Tx Logs Memory where
  pc := match pendingL2Blocks with
    | [] => .starting
    | block :: blocks => .restoring block.txs blocks
  updates := .new firstL2Block version
  protocolUpgradeTx
  command := none
  response := none
  executor := .running (.new firstL2Block memory)

def goTo (s : BatchState Tx Logs Memory) (pc : KeeperPc Tx) : BatchState Tx Logs Memory :=
  { s with response := none, pc }

def send (s : BatchState Tx Logs Memory) (command : Command Tx) (pc : KeeperPc Tx) :
    BatchState Tx Logs Memory :=
  { s with command := some command, response := none, pc }

def extend (s : BatchState Tx Logs Memory) (tx : Tx) (txResult : VmExecutionResultAndLogs Logs)
    (compressedBytecodes : List (Bytes × Bytes)) (pc : KeeperPc Tx) : BatchState Tx Logs Memory :=
  { s with
    updates := s.updates.extendFromExecutedTransaction tx txResult compressedBytecodes
    response := none
    pc }

def startNextL2Block (s : BatchState Tx Logs Memory) (timestamp : ℕ) (next : KeeperPc Tx) :
    BatchState Tx Logs Memory :=
  let updates := s.updates.pushL2Block E timestamp
  { s with updates }.send (.startNextL2Block updates.l2Block.getEnv) (.awaitingStart next)

def proceed (s : BatchState Tx Logs Memory) : Option (BatchState Tx Logs Memory) :=
  match s.pc with
  | .restoring (tx :: txs) blocks =>
    some (s.send (.executeTx tx) (.awaitingReexecuted tx txs blocks))
  | .restoring [] (block :: blocks) =>
    some (s.startNextL2Block E block.timestamp (.restoring block.txs blocks))
  | .starting =>
    match s.protocolUpgradeTx with
    | none => some (s.goTo .looping)
    | some tx =>
      if s.updates.pendingExecutedTransactionsLen = 0 then
        some (s.send (.executeTx tx) (.awaitingExecuted tx true))
      else some (s.goTo .stopped)
  | .looping => some (s.goTo .waitingForTx)
  | .sealing =>
    if s.updates.l2Block.executedTransactions = [] then some (s.goTo .finishing)
    else some (s.goTo .sealedLast)
  | .finishing => some (s.send .finishBatch .awaitingFinished)
  | _ => none

def newL2BlockParams (s : BatchState Tx Logs Memory) (timestamp : ℕ) :
    Option (BatchState Tx Logs Memory) :=
  match s.pc with
  | .restoring [] [] => some (s.startNextL2Block E timestamp .starting)
  | .sealedL2Block => some (s.startNextL2Block E timestamp .waitingForTx)
  | .sealedLast => some (s.startNextL2Block E timestamp .finishing)
  | _ => none

/-- `process_upgrade_tx`, when the transaction is executed. -/
def upgradeTxExecuted (s : BatchState Tx Logs Memory) (tx : Tx) (result : TxExecutionResult Logs)
    (resolution : SealResolution) : BatchState Tx Logs Memory :=
  match resolution, result with
  | .noSeal, .success txResult compressedBytecodes
  | .includeAndSeal, .success txResult compressedBytecodes =>
    if txResult.result.isFailed then s.goTo .stopped
    else s.extend tx txResult compressedBytecodes .looping
  | _, _ => s.goTo .stopped

/-- `process_l1_batch`, when a transaction is executed. -/
def txExecuted (s : BatchState Tx Logs Memory) (tx : Tx) (result : TxExecutionResult Logs) :
    SealResolution → BatchState Tx Logs Memory
  | .noSeal =>
    match result with
    | .success txResult compressedBytecodes => s.extend tx txResult compressedBytecodes .looping
    | _ => s.goTo .unreachable
  | .includeAndSeal =>
    match result with
    | .success txResult compressedBytecodes => s.extend tx txResult compressedBytecodes .sealing
    | _ => s.goTo .unreachable
  | .excludeAndSeal => s.send .rollbackLastTx (.awaitingRollback true)
  | .unexecutable _ => s.send .rollbackLastTx (.awaitingRollback false)

def receive (s : BatchState Tx Logs Memory) (sealer : SealResolution) :
    Option (BatchState Tx Logs Memory) :=
  match s.pc, s.response with
  | .awaitingReexecuted tx txs blocks, some (.executed (.success txResult compressedBytecodes)) =>
    some (s.extend tx txResult compressedBytecodes (.restoring txs blocks))
  -- "Re-executing stored tx failed."
  | .awaitingReexecuted _ _ _, some (.executed _) => some (s.goTo .stopped)
  | .awaitingStart next, some .done => some (s.goTo next)
  | .awaitingExecuted tx isUpgrade, some (.executed result) =>
    let resolution := processOneTx (s.updates.pendingExecutedTransactionsLen == 0) sealer result
    if isUpgrade then some (s.upgradeTxExecuted tx result resolution)
    else some (s.txExecuted tx result resolution)
  | .awaitingRollback shouldSeal, some .done =>
    some (s.goTo (if shouldSeal then .sealing else .looping))
  | .awaitingFinished, some .finished => some (s.goTo .finished)
  | _, _ => none

def handle (receiver : CommandReceiver) (s : BatchState Tx Logs Memory)
    (compressed plain : Inspected Logs Memory) : Option (BatchState Tx Logs Memory) :=
  match s.command, s.executor with
  | some command, .running vm =>
    some (match receiver.handle vm compressed plain command with
      | .ok (vm, response) =>
        { s with
          command := none
          response := some response
          executor := .after vm command }
      | .err _ => { s with command := none, executor := .failed }
      | .panic => { s with command := none, executor := .noSnapshot })
  | _, _ => none

def step (receiver : CommandReceiver) (s : BatchState Tx Logs Memory) :
    BatchEvent Tx Logs Memory → Option (BatchState Tx Logs Memory)
  | .proceed => s.proceed E
  | .sealUnconditionally =>
    match s.pc with
    | .looping => some (s.goTo .sealing)
    | _ => none
  | .sealL2Block =>
    match s.pc with
    | .looping => some (s.goTo .sealedL2Block)
    | _ => none
  | .newL2BlockParams timestamp => s.newL2BlockParams E timestamp
  | .nextTx tx =>
    match s.pc, tx with
    | .waitingForTx, some tx => some (s.send (.executeTx tx) (.awaitingExecuted tx false))
    | .waitingForTx, none => some (s.goTo .looping)
    | _, _ => none
  | .receive sealer => s.receive sealer
  | .handle compressed plain => s.handle receiver compressed plain
  | .executorFails =>
    match s.command, s.executor with
    | some _, .running _ => some { s with command := none, executor := .failed }
    | _, _ => none
  | .stop => some (s.goTo .stopped)

end BatchState

/-! ### Commands, from before to after -/

/-- What a command to execute leaves behind: one snapshot, of the VM before, and after a success the
transaction at the end, with its result. -/
structure Executed (vm vm' : Vm Tx Logs Memory) (tx : Tx) (result : TxExecutionResult Logs) :
    Prop where
  snapshots : vm'.snapshots = [vm.machine]
  machine : ∀ txResult compressedBytecodes, result = .success txResult compressedBytecodes →
    ∃ memory, vm'.machine = vm.machine.pushTx ⟨tx, txResult, compressedBytecodes⟩ memory

/-- The same for the output of the VM, of which a halt is not told apart yet. -/
structure Inspects (vm vm' : Vm Tx Logs Memory) (tx : Tx) (output : TransactionOutput Logs) :
    Prop where
  snapshots : vm'.snapshots = [vm.machine]
  machine : (∀ reason, output.txResult.result ≠ .halt reason) →
    ∃ memory, vm'.machine =
      vm.machine.pushTx ⟨tx, output.txResult, output.compressedBytecodes⟩ memory

variable {result : TxExecutionResult Logs} {updates : UpdatesManager Tx Logs}
  {After : Response Logs → ExecutorState Tx Logs Memory → Prop} {Before : Vm Tx Logs Memory → Prop}

section Commands

variable {vm vm' : Vm Tx Logs Memory} {tx : Tx} {compressed plain : Inspected Logs Memory}

variable {output : TransactionOutput Logs} {receiver : CommandReceiver}

section

variable (hsnapshots : vm.snapshots.length ≤ 1)
include hsnapshots

theorem inspects_withOptionalCompression
    (h : CommandReceiver.executeTxInVmWithOptionalCompression tx
      vm.popSnapshotNoRollback.makeSnapshot compressed plain = .ok (vm', output)) :
    Inspects vm vm' tx output := by
  have htail : vm.snapshots.tail = [] := List.length_eq_zero_iff.1 (by simp; omega)
  rw [CommandReceiver.executeTxInVmWithOptionalCompression] at h
  split at h
  · cases h
    exact ⟨congrArg (vm.machine :: ·) htail, fun _ => ⟨_, rfl⟩⟩
  · -- the snapshot is used up, and made again
    obtain ⟨rolledBack, hrollback, h⟩ := Outcome.bind_eq_ok.1 h
    cases hrollback
    split at h
    · cases h
      exact ⟨congrArg (vm.machine :: ·) htail, fun _ => ⟨_, rfl⟩⟩
    · cases h

theorem inspects_withCompression
    (h : CommandReceiver.executeTxInVm tx vm.popSnapshotNoRollback.makeSnapshot compressed =
      .ok (vm', output)) : Inspects vm vm' tx output := by
  have htail : vm.snapshots.tail = [] := List.length_eq_zero_iff.1 (by simp; omega)
  rw [CommandReceiver.executeTxInVm] at h
  split at h
  · cases h
    exact ⟨congrArg (vm.machine :: ·) htail, fun _ => ⟨_, rfl⟩⟩
  · cases h
    exact ⟨congrArg (vm.machine :: ·) htail, fun hhalt => absurd rfl (hhalt _)⟩

theorem executeTx_spec (h : receiver.executeTx tx vm compressed plain = .ok (vm', result)) :
    Executed vm vm' tx result := by
  rw [CommandReceiver.executeTx] at h
  obtain ⟨⟨vm'', output⟩, hinspect, h⟩ := Outcome.bind_eq_ok.1 h
  obtain ⟨rfl, rfl⟩ := Prod.mk.inj (Outcome.ok.inj h)
  have hinspects : Inspects vm vm'' tx output := by
    split at hinspect
    · exact inspects_withOptionalCompression hsnapshots hinspect
    · exact inspects_withCompression hsnapshots hinspect
  refine ⟨hinspects.snapshots, fun txResult compressedBytecodes hsuccess => ?_⟩
  split at hsuccess
  · cases hsuccess
  · cases hsuccess
  · rename_i hnotHalt
    cases hsuccess
    exact hinspects.machine hnotHalt

end

theorem executeTx_ne_panic : receiver.executeTx tx vm compressed plain ≠ .panic := by
  intro h
  rcases Outcome.bind_eq_panic.1 h with h | ⟨_, _, h⟩
  · split at h
    · rw [CommandReceiver.executeTxInVmWithOptionalCompression] at h
      split at h
      · cases h
      · rcases Outcome.bind_eq_panic.1 h with h | ⟨_, _, h⟩
        · cases h
        · split at h <;> cases h
    · rw [CommandReceiver.executeTxInVm] at h
      split at h <;> cases h
  · cases h

end Commands

/-! ### What both sides know about each other -/

/-- The VM has executed what the manager has recorded. -/
def Agrees (updates : UpdatesManager Tx Logs) (machine : Machine Tx Logs Memory) : Prop :=
  machine.l2Blocks = updates.l2Blocks

theorem Agrees.extend {machine : Machine Tx Logs Memory} (h : Agrees updates machine) (tx : Tx)
    (txResult : VmExecutionResultAndLogs Logs) (compressedBytecodes : List (Bytes × Bytes))
    (memory : Memory) :
    Agrees (updates.extendFromExecutedTransaction tx txResult compressedBytecodes)
      (machine.pushTx ⟨tx, txResult, compressedBytecodes⟩ memory) := by
  rw [Agrees, Machine.l2Blocks, UpdatesManager.l2Blocks, List.map_append] at h
  obtain ⟨hearlier, hlast⟩ := List.append_inj' h rfl
  have hlast := List.head_eq_of_cons_eq hlast
  show machine.earlier ++ [{ machine.lastL2Block with
    txs := machine.lastL2Block.txs ++ [⟨tx, txResult, compressedBytecodes⟩] }] = _
  rw [hearlier, hlast, UpdatesManager.l2Blocks, List.map_append]
  rfl

theorem Agrees.pushL2Block {vm : Vm Tx Logs Memory} (h : Agrees updates vm.machine)
    (E : BlockExternals (TransactionExecution Tx Logs)) (timestamp : ℕ) :
    Agrees (updates.pushL2Block E timestamp)
      (vm.startNewL2Block (updates.pushL2Block E timestamp).l2Block.getEnv).machine := by
  have hpushed : (updates.pushL2Block E timestamp).l2Blocks =
      updates.l2Blocks ++ [⟨(updates.pushL2Block E timestamp).l2Block.getEnv, []⟩] := by
    rw [UpdatesManager.l2Blocks, List.map_append]
    rfl
  rw [Agrees, hpushed, ← h]
  rfl

/-- What holds at every time, also when the state keeper has stopped and the thread has not. -/
structure Safe (s : BatchState Tx Logs Memory) : Prop where
  noSnapshot : s.executor ≠ .noSnapshot
  running : ∀ vm, s.executor = .running vm →
    vm.snapshots.length ≤ 1 ∧ (s.command = some .rollbackLastTx → vm.snapshots ≠ [])
  finished : ∀ vm, s.executor = .finished vm → vm.snapshots.length ≤ 1
  finishing : s.command = some .finishBatch →
    ∃ vm, s.executor = .running vm ∧ Agrees s.updates vm.machine

structure Quiet (s : BatchState Tx Logs Memory) : Prop where
  command : s.command = none
  response : s.response = none
  vm : ∃ vm, s.executor = .running vm ∧ Agrees s.updates vm.machine

/-- A command is on its way, or its response, or there will be none. -/
inductive Awaits (s : BatchState Tx Logs Memory) (command : Command Tx)
    (Before : Vm Tx Logs Memory → Prop)
    (After : Response Logs → ExecutorState Tx Logs Memory → Prop) : Prop
  | sent (vm : Vm Tx Logs Memory) (hcommand : s.command = some command)
      (hresponse : s.response = none) (hrunning : s.executor = .running vm) (hbefore : Before vm)
  | answered (response : Response Logs) (hcommand : s.command = none)
      (hresponse : s.response = some response) (hafter : After response s.executor)
  | failed (hcommand : s.command = none) (hresponse : s.response = none)

/-- A transaction was, or will be, executed on top of what the manager has recorded. -/
def AwaitsExecuted (s : BatchState Tx Logs Memory) (tx : Tx) : Prop :=
  Awaits s (.executeTx tx) (fun vm => Agrees s.updates vm.machine) fun response executor =>
    ∃ vm vm' result, response = .executed result ∧ executor = .running vm' ∧
      Agrees s.updates vm.machine ∧ Executed vm vm' tx result

/-- The manager has the new block already. -/
def AwaitsStart (s : BatchState Tx Logs Memory) : Prop :=
  Awaits s (.startNextL2Block s.updates.l2Block.getEnv)
    (fun vm => Agrees s.updates (vm.startNewL2Block s.updates.l2Block.getEnv).machine)
    fun response executor =>
      response = .done ∧ ∃ vm, executor = .running vm ∧ Agrees s.updates vm.machine

/-- The snapshot is what the manager has recorded. -/
def AwaitsRollback (s : BatchState Tx Logs Memory) : Prop :=
  Awaits s .rollbackLastTx
    (fun vm => ∃ snapshot, vm.snapshots = [snapshot] ∧ Agrees s.updates snapshot)
    fun response executor =>
      response = .done ∧ ∃ vm, executor = .running vm ∧ Agrees s.updates vm.machine

def AwaitsFinished (s : BatchState Tx Logs Memory) : Prop :=
  Awaits s .finishBatch (fun vm => Agrees s.updates vm.machine) fun _ _ => True

def KeeperPc.IsQuiet : KeeperPc Tx → Prop
  | .restoring _ _ | .starting | .looping | .waitingForTx | .sealedL2Block | .sealing | .sealedLast
  | .finishing => True
  | _ => False

def PcInv (s : BatchState Tx Logs Memory) : KeeperPc Tx → Prop
  | .restoring _ _ | .starting | .looping | .waitingForTx | .sealedL2Block | .sealing | .sealedLast
  | .finishing => Quiet s
  | .awaitingReexecuted tx _ _ | .awaitingExecuted tx _ => AwaitsExecuted s tx
  | .awaitingStart next => next.IsQuiet ∧ AwaitsStart s
  | .awaitingRollback _ => AwaitsRollback s
  | .awaitingFinished => AwaitsFinished s
  | .finished | .stopped => True
  | .unreachable => False

structure BatchInv (s : BatchState Tx Logs Memory) : Prop where
  safe : Safe s
  pc : PcInv s s.pc
  flat : s.updates.executedTransactions = s.updates.pushed.flatMap (·.executedTransactions)

section Handle

variable {receiver : CommandReceiver} {s s' : BatchState Tx Logs Memory}
  {vm vm' : Vm Tx Logs Memory} {compressed plain : Inspected Logs Memory} {command : Command Tx}
  {response : Response Logs}

theorem handle_ne_panic (hrollback : command = .rollbackLastTx → vm.snapshots ≠ []) :
    receiver.handle vm compressed plain command ≠ .panic := by
  intro h
  cases command with
  | executeTx tx =>
    rcases Outcome.bind_eq_panic.1 h with h | ⟨_, _, h⟩
    · exact executeTx_ne_panic h
    · cases h
  | startNextL2Block env => cases h
  | rollbackLastTx =>
    rcases Outcome.bind_eq_panic.1 h with h | ⟨_, _, h⟩
    · rw [Vm.rollbackToTheLatestSnapshot] at h
      split at h
      · rename_i hnone
        exact hrollback rfl hnone
      · cases h
    · cases h
  | finishBatch => cases h

theorem handle_executeTx {tx : Tx} (hsnapshots : vm.snapshots.length ≤ 1)
    (h : receiver.handle vm compressed plain (.executeTx tx) = .ok (vm', response)) :
    ∃ result, response = .executed result ∧ Executed vm vm' tx result := by
  obtain ⟨⟨vm'', result⟩, hexecute, h⟩ := Outcome.bind_eq_ok.1 h
  cases h
  exact ⟨result, rfl, executeTx_spec hsnapshots hexecute⟩

theorem handle_rollbackLastTx
    (h : receiver.handle vm compressed plain .rollbackLastTx = .ok (vm', response)) :
    response = .done ∧ vm.snapshots = vm'.machine :: vm'.snapshots := by
  obtain ⟨vm'', hrollback, h⟩ := Outcome.bind_eq_ok.1 h
  cases h
  rw [Vm.rollbackToTheLatestSnapshot] at hrollback
  split at hrollback
  · cases hrollback
  · rename_i hsnapshots
    cases hrollback
    exact ⟨rfl, hsnapshots⟩

theorem handle_snapshots (hsnapshots : vm.snapshots.length ≤ 1)
    (h : receiver.handle vm compressed plain command = .ok (vm', response)) :
    vm'.snapshots.length ≤ 1 := by
  cases command with
  | executeTx tx =>
    obtain ⟨_, -, hexecuted⟩ := handle_executeTx hsnapshots h
    rw [hexecuted.snapshots]
    rfl
  | startNextL2Block env | finishBatch =>
    cases h
    exact hsnapshots
  | rollbackLastTx =>
    rw [(handle_rollbackLastTx h).2, List.length_cons] at hsnapshots
    omega

theorem BatchState.handle_cases (h : s.handle receiver compressed plain = some s') :
    ∃ command vm, s.command = some command ∧ s.executor = .running vm ∧
      ((∃ vm' response, receiver.handle vm compressed plain command = .ok (vm', response) ∧
          s' = { s with
            command := none, response := some response, executor := .after vm' command }) ∨
        s' = { s with command := none, executor := .failed } ∨
        receiver.handle vm compressed plain command = .panic ∧
          s' = { s with command := none, executor := .noSnapshot }) := by
  rw [BatchState.handle] at h
  split at h
  · rename_i command vm hcommand hrunning
    refine ⟨command, vm, hcommand, hrunning, ?_⟩
    split at h
    · rename_i vm' response hok
      exact .inl ⟨vm', response, hok, (Option.some.inj h).symm⟩
    · exact .inr (.inl (Option.some.inj h).symm)
    · rename_i hpanic
      exact .inr (.inr ⟨hpanic, (Option.some.inj h).symm⟩)
  · cases h

theorem Safe.failed (s : BatchState Tx Logs Memory) :
    Safe ({ s with command := none, executor := .failed } : BatchState Tx Logs Memory) where
  noSnapshot := nofun
  running := nofun
  finished := nofun
  finishing := nofun

theorem ExecutorState.after_eq_running (h : ExecutorState.after vm command = .running vm') :
    vm' = vm := by
  cases command <;> cases h
  all_goals rfl

theorem ExecutorState.after_eq_finished (h : ExecutorState.after vm command = .finished vm') :
    vm' = vm := by
  cases command <;> cases h
  rfl

theorem Safe.answered (hsnapshots : vm.snapshots.length ≤ 1) :
    Safe { s with command := none, response := some response, executor := .after vm command } where
  noSnapshot := fun h => by cases command <;> cases h
  running := fun _ h => by
    obtain rfl := ExecutorState.after_eq_running h
    exact ⟨hsnapshots, nofun⟩
  finished := fun _ h => by
    obtain rfl := ExecutorState.after_eq_finished h
    exact hsnapshots
  finishing := nofun

theorem Awaits.handle (h : Awaits s command Before After) (hsafe : Safe s)
    (hspec : ∀ vm vm' response, vm.snapshots.length ≤ 1 → Before vm →
      receiver.handle vm compressed plain command = .ok (vm', response) →
      After response (.after vm' command)) (hstep : s.handle receiver compressed plain = some s') :
    Awaits s' command Before After := by
  obtain ⟨taken, vm, htaken, hrunning, hresult⟩ := BatchState.handle_cases hstep
  cases h with
  | sent before hcommand hresponse hbefore' hbefore =>
    cases htaken.symm.trans hcommand
    obtain rfl := ExecutorState.running.inj (hrunning.symm.trans hbefore')
    obtain ⟨hsnapshots, hrollback⟩ := hsafe.running vm hrunning
    rcases hresult with ⟨vm', response, hok, rfl⟩ | rfl | ⟨hpanic, -⟩
    · exact .answered response rfl rfl (hspec vm vm' response hsnapshots hbefore hok)
    · exact .failed rfl hresponse
    · exact absurd hpanic (handle_ne_panic fun heq => hrollback (heq ▸ htaken))
  | answered _ hcommand | failed hcommand => rw [hcommand] at htaken; cases htaken

theorem Safe.handle (h : Safe s) (hstep : s.handle receiver compressed plain = some s') :
    Safe s' := by
  obtain ⟨command, vm, hcommand, hrunning, hresult⟩ := BatchState.handle_cases hstep
  obtain ⟨hsnapshots, hrollback⟩ := h.running vm hrunning
  rcases hresult with ⟨vm', response, hok, rfl⟩ | rfl | ⟨hpanic, -⟩
  · exact .answered (handle_snapshots hsnapshots hok)
  · exact .failed s
  · exact absurd hpanic (handle_ne_panic fun heq => hrollback (heq ▸ hcommand))

end Handle

section Keeper

variable {receiver : CommandReceiver} {s s' : BatchState Tx Logs Memory} {tx : Tx}
  {pc : KeeperPc Tx} {E : BlockExternals (TransactionExecution Tx Logs)}

theorem pcInv_of_isQuiet (hpc : pc.IsQuiet) : PcInv s pc ↔ Quiet s := by
  cases pc with
  | awaitingReexecuted | awaitingStart | awaitingExecuted | awaitingRollback | awaitingFinished
  | finished | stopped | unreachable => exact hpc.elim
  | _ => exact Iff.rfl

theorem Safe.goTo (h : Safe s) (pc : KeeperPc Tx) : Safe (s.goTo pc) :=
  ⟨h.noSnapshot, h.running, h.finished, h.finishing⟩

theorem BatchInv.stop (h : BatchInv s) : BatchInv (s.goTo .stopped) :=
  ⟨h.safe.goTo _, trivial, h.flat⟩

theorem BatchInv.goTo (h : BatchInv s) (hpc : pc.IsQuiet) (hcommand : s.command = none)
    (hvm : ∃ vm, s.executor = .running vm ∧ Agrees s.updates vm.machine) : BatchInv (s.goTo pc) :=
  ⟨h.safe.goTo _, (pcInv_of_isQuiet hpc).2 ⟨hcommand, rfl, hvm⟩, h.flat⟩

theorem BatchInv.goTo_of_quiet (h : BatchInv s) (hquiet : Quiet s) (hpc : pc.IsQuiet) :
    BatchInv (s.goTo pc) :=
  h.goTo hpc hquiet.command hquiet.vm

variable {command : Command Tx}

theorem Safe.send (h : Safe s) (hrollback : command ≠ .rollbackLastTx)
    (hfinishing : command = .finishBatch →
      ∃ vm, s.executor = .running vm ∧ Agrees s.updates vm.machine) :
    Safe (s.send command pc) where
  noSnapshot := h.noSnapshot
  running := fun vm hrunning =>
    ⟨(h.running vm hrunning).1, fun heq => absurd (Option.some.inj heq) hrollback⟩
  finished := h.finished
  finishing := fun heq => hfinishing (Option.some.inj heq)

theorem BatchInv.send_executeTx (h : BatchInv s) (hquiet : Quiet s)
    (hpc : ∀ s : BatchState Tx Logs Memory, PcInv s pc = AwaitsExecuted s tx) :
    BatchInv (s.send (.executeTx tx) pc) := by
  obtain ⟨vm, hrunning, hagrees⟩ := hquiet.vm
  refine ⟨h.safe.send (by simp) (by simp), ?_, h.flat⟩
  change PcInv _ pc
  rw [hpc]
  exact .sent vm rfl rfl hrunning hagrees

theorem BatchInv.startNextL2Block (h : BatchInv s) (hquiet : Quiet s) (timestamp : ℕ)
    {next : KeeperPc Tx} (hnext : next.IsQuiet) :
    BatchInv (s.startNextL2Block E timestamp next) := by
  obtain ⟨vm, hrunning, hagrees⟩ := hquiet.vm
  refine ⟨⟨h.safe.noSnapshot, fun vm hrunning => ⟨(h.safe.running vm hrunning).1, ?_⟩,
    h.safe.finished, ?_⟩, ⟨hnext, .sent vm rfl rfl hrunning (hagrees.pushL2Block E timestamp)⟩, ?_⟩
  · nofun
  · nofun
  · change s.updates.executedTransactions ++ _ = (s.updates.pushed ++ [s.updates.l2Block]).flatMap _
    rw [h.flat, List.flatMap_append, List.flatMap_singleton]

variable {vm' : Vm Tx Logs Memory} {sealer : SealResolution} {vm : Vm Tx Logs Memory}

theorem BatchInv.extend (h : BatchInv s) (hcommand : s.command = none)
    {txResult : VmExecutionResultAndLogs Logs} {compressedBytecodes : List (Bytes × Bytes)}
    (hrunning : s.executor = .running vm') (hagrees : Agrees s.updates vm.machine)
    (hexecuted : Executed vm vm' tx (.success txResult compressedBytecodes)) (hpc : pc.IsQuiet) :
    BatchInv (s.extend tx txResult compressedBytecodes pc) := by
  obtain ⟨memory, hmachine⟩ := hexecuted.machine _ _ rfl
  refine ⟨⟨h.safe.noSnapshot, h.safe.running, h.safe.finished, ?_⟩,
    (pcInv_of_isQuiet hpc).2 ⟨hcommand, rfl, vm', hrunning, ?_⟩, h.flat⟩
  · intro heq
    exact absurd (hcommand.symm.trans heq) (by simp)
  · rw [hmachine]
    exact hagrees.extend tx txResult compressedBytecodes memory

theorem BatchInv.send_rollback (h : BatchInv s)
    (hrunning : s.executor = .running vm') (hagrees : Agrees s.updates vm.machine)
    (hexecuted : Executed vm vm' tx result) (shouldSeal : Bool) :
    BatchInv (s.send .rollbackLastTx (.awaitingRollback shouldSeal)) where
  safe := {
    noSnapshot := h.safe.noSnapshot
    running := fun vm₀ hvm₀ => by
      obtain rfl := ExecutorState.running.inj (hrunning.symm.trans hvm₀)
      refine ⟨(h.safe.running vm' hrunning).1, fun _ => ?_⟩
      rw [hexecuted.snapshots]
      exact List.cons_ne_nil _ _
    finished := h.safe.finished
    finishing := nofun }
  pc := .sent vm' rfl rfl hrunning ⟨vm.machine, hexecuted.snapshots, hagrees⟩
  flat := h.flat

theorem Awaits.of_response {response : Response Logs}
    (h : Awaits s command Before After) (hresponse : s.response = some response) :
    s.command = none ∧ After response s.executor := by
  cases h with
  | sent _ _ hnone | failed _ hnone => rw [hnone] at hresponse; cases hresponse
  | answered response' hcommand hresponse' hafter =>
    cases hresponse'.symm.trans hresponse
    exact ⟨hcommand, hafter⟩

theorem BatchInv.proceed (h : BatchInv s) (hstep : s.proceed E = some s') : BatchInv s' := by
  have hpcInv := h.pc
  rw [BatchState.proceed] at hstep
  split at hstep
  -- one case for each point at which the state keeper goes on by itself
  · rename_i tx txs blocks hpc
    rw [hpc] at hpcInv
    cases hstep
    exact h.send_executeTx hpcInv fun _ => rfl
  · rename_i block blocks hpc
    rw [hpc] at hpcInv
    cases hstep
    exact h.startNextL2Block hpcInv _ trivial
  · rename_i hpc
    rw [hpc] at hpcInv
    split at hstep
    · cases hstep
      exact h.goTo_of_quiet hpcInv trivial
    · split at hstep
      · cases hstep
        exact h.send_executeTx hpcInv fun _ => rfl
      · cases hstep
        exact h.stop
  · rename_i hpc
    rw [hpc] at hpcInv
    cases hstep
    exact h.goTo_of_quiet hpcInv trivial
  · rename_i hpc
    rw [hpc] at hpcInv
    split at hstep
    · cases hstep
      exact h.goTo_of_quiet hpcInv trivial
    · cases hstep
      exact h.goTo_of_quiet hpcInv trivial
  · rename_i hpc
    rw [hpc] at hpcInv
    cases hstep
    -- the batch is finished, with a VM that agrees
    obtain ⟨vm, hrunning, hagrees⟩ := hpcInv.vm
    exact ⟨h.safe.send (by simp) fun _ => ⟨vm, hrunning, hagrees⟩,
      .sent vm rfl rfl hrunning hagrees, h.flat⟩
  · cases hstep

theorem BatchInv.newL2BlockParams (h : BatchInv s) {timestamp : ℕ}
    (hstep : s.newL2BlockParams E timestamp = some s') : BatchInv s' := by
  have hpcInv := h.pc
  rw [BatchState.newL2BlockParams] at hstep
  split at hstep
  case h_4 => cases hstep
  all_goals
    rename_i hpc
    rw [hpc] at hpcInv
    cases hstep
    exact h.startNextL2Block hpcInv _ trivial

theorem processOneTx_of_included {isFirstTx : Bool}
    (h : processOneTx isFirstTx sealer result = .noSeal ∨
      processOneTx isFirstTx sealer result = .includeAndSeal) :
    ∃ txResult compressedBytecodes, result = .success txResult compressedBytecodes := by
  cases result with
  | success txResult compressedBytecodes => exact ⟨txResult, compressedBytecodes, rfl⟩
  | bootloaderOutOfGasForTx => cases isFirstTx <;> simp [processOneTx] at h
  | rejectedByVm reason => cases reason <;> cases isFirstTx <;> simp [processOneTx] at h

theorem BatchInv.txExecuted (h : BatchInv s) {isFirstTx : Bool} (hcommand : s.command = none)
    (hrunning : s.executor = .running vm')
    (hagrees : Agrees s.updates vm.machine) (hexecuted : Executed vm vm' tx result) :
    BatchInv (s.txExecuted tx result (processOneTx isFirstTx sealer result)) := by
  cases hresolution : processOneTx isFirstTx sealer result with
  | noSeal =>
    obtain ⟨txResult, compressedBytecodes, rfl⟩ := processOneTx_of_included (.inl hresolution)
    exact h.extend hcommand hrunning hagrees hexecuted trivial
  | includeAndSeal =>
    obtain ⟨txResult, compressedBytecodes, rfl⟩ := processOneTx_of_included (.inr hresolution)
    exact h.extend hcommand hrunning hagrees hexecuted trivial
  | excludeAndSeal => exact h.send_rollback hrunning hagrees hexecuted true
  | unexecutable reason => exact h.send_rollback hrunning hagrees hexecuted false

theorem BatchInv.upgradeTxExecuted (h : BatchInv s) (hcommand : s.command = none)
    (hrunning : s.executor = .running vm')
    (hagrees : Agrees s.updates vm.machine) (hexecuted : Executed vm vm' tx result)
    (resolution : SealResolution) : BatchInv (s.upgradeTxExecuted tx result resolution) := by
  have hincluded : ∀ txResult compressedBytecodes, result = .success txResult compressedBytecodes →
      BatchInv (if txResult.result.isFailed then s.goTo .stopped
        else s.extend tx txResult compressedBytecodes .looping) := by
    rintro txResult compressedBytecodes rfl
    split
    · exact h.stop
    · exact h.extend hcommand hrunning hagrees hexecuted trivial
  cases result with
  | success txResult compressedBytecodes =>
    cases resolution with
    | noSeal | includeAndSeal => exact hincluded _ _ rfl
    | excludeAndSeal | unexecutable => exact h.stop
  | rejectedByVm reason | bootloaderOutOfGasForTx => cases resolution <;> exact h.stop

theorem BatchInv.receive (h : BatchInv s) (hstep : s.receive sealer = some s') : BatchInv s' := by
  have hpcInv := h.pc
  rw [BatchState.receive] at hstep
  split at hstep
  · rename_i txResult compressedBytecodes hpc hresponse
    rw [hpc] at hpcInv
    obtain ⟨hcommand, vm, vm', _, heq, hrunning, hagrees, hexecuted⟩ := hpcInv.of_response hresponse
    -- a stored transaction, executed again after a restart
    cases hstep
    cases heq
    exact h.extend hcommand hrunning hagrees hexecuted trivial
  · cases hstep
    exact h.stop
  · rename_i next hpc hresponse
    rw [hpc] at hpcInv
    obtain ⟨hcommand, -, hvm⟩ := hpcInv.2.of_response hresponse
    cases hstep
    exact h.goTo hpcInv.1 hcommand hvm
  · rename_i tx isUpgrade result hpc hresponse
    rw [hpc] at hpcInv
    obtain ⟨hcommand, vm, vm', _, heq, hrunning, hagrees, hexecuted⟩ := hpcInv.of_response hresponse
    cases heq
    split at hstep
    · cases hstep
      exact h.upgradeTxExecuted hcommand hrunning hagrees hexecuted _
    · cases hstep
      exact h.txExecuted hcommand hrunning hagrees hexecuted
  · rename_i shouldSeal hpc hresponse
    rw [hpc] at hpcInv
    obtain ⟨hcommand, -, hvm⟩ := hpcInv.of_response hresponse
    cases hstep
    -- the transaction is rolled back: both sides drop it
    refine h.goTo ?_ hcommand hvm
    cases shouldSeal <;> trivial
  · cases hstep
    exact ⟨h.safe.goTo _, trivial, h.flat⟩
  · cases hstep

end Keeper

section Runs

variable {receiver : CommandReceiver} {s s' : BatchState Tx Logs Memory}
  {E : BlockExternals (TransactionExecution Tx Logs)}

theorem PcInv.handle {pc : KeeperPc Tx} {compressed plain : Inspected Logs Memory}
    (h : PcInv s pc) (hsafe : Safe s) (hstep : s.handle receiver compressed plain = some s') :
    PcInv s' pc := by
  have hupdates : s'.updates = s.updates := by
    obtain ⟨_, _, _, _, ⟨_, _, _, rfl⟩ | rfl | ⟨-, rfl⟩⟩ := BatchState.handle_cases hstep
    all_goals rfl
  -- a state keeper that awaits nothing has sent nothing
  have hquiet : ∀ {P : Prop}, Quiet s → P := by
    intro P hquiet
    obtain ⟨_, _, hcommand, -⟩ := BatchState.handle_cases hstep
    cases hquiet.command.symm.trans hcommand
  have hexecuted : ∀ tx, AwaitsExecuted s tx → AwaitsExecuted s' tx := by
    intro tx hawaits
    rw [AwaitsExecuted, hupdates]
    refine hawaits.handle hsafe (fun vm vm' response hsnapshots hagrees hok => ?_) hstep
    obtain ⟨result, hresult, hexecuted⟩ := handle_executeTx hsnapshots hok
    exact ⟨vm, vm', result, hresult, rfl, hagrees, hexecuted⟩
  cases pc with
  | awaitingReexecuted tx txs blocks | awaitingExecuted tx isUpgrade => exact hexecuted tx h
  | awaitingStart next =>
    refine ⟨h.1, ?_⟩
    rw [AwaitsStart, hupdates]
    refine h.2.handle hsafe (fun vm vm' response _ hagrees hok => ?_) hstep
    cases hok
    exact ⟨rfl, _, rfl, hagrees⟩
  | awaitingRollback shouldSeal =>
    change AwaitsRollback s'
    rw [AwaitsRollback, hupdates]
    refine Awaits.handle h hsafe (fun vm vm' response _ hsnapshot hok => ?_) hstep
    obtain ⟨snapshot, hsnapshots, hagrees⟩ := hsnapshot
    obtain ⟨rfl, hrolledBack⟩ := handle_rollbackLastTx hok
    rw [hsnapshots] at hrolledBack
    exact ⟨rfl, vm', rfl, (List.cons.inj hrolledBack).1 ▸ hagrees⟩
  | awaitingFinished =>
    change AwaitsFinished s'
    rw [AwaitsFinished, hupdates]
    exact Awaits.handle h hsafe (fun _ _ _ _ _ _ => trivial) hstep
  | finished | stopped => trivial
  | unreachable => exact h
  | _ => exact hquiet h

theorem Awaits.executorFails {command command' : Command Tx} {Before : Vm Tx Logs Memory → Prop}
    {After : Response Logs → ExecutorState Tx Logs Memory → Prop}
    (h : Awaits s command Before After) (hcommand : s.command = some command') :
    Awaits { s with command := none, executor := .failed } command Before After := by
  cases h with
  | sent _ _ hresponse => exact .failed rfl hresponse
  | answered _ hnone | failed hnone => rw [hnone] at hcommand; cases hcommand

theorem PcInv.executorFails {pc : KeeperPc Tx} {command : Command Tx} (h : PcInv s pc)
    (hcommand : s.command = some command) :
    PcInv ({ s with command := none, executor := .failed } : BatchState Tx Logs Memory) pc := by
  cases pc with
  | awaitingReexecuted tx txs blocks | awaitingFinished => exact Awaits.executorFails h hcommand
  | awaitingExecuted tx isUpgrade => exact Awaits.executorFails h hcommand
  | awaitingStart next => exact ⟨h.1, h.2.executorFails hcommand⟩
  | awaitingRollback shouldSeal => exact Awaits.executorFails h hcommand
  | finished | stopped => trivial
  | unreachable => exact h
  | _ => exact absurd (h.command.symm.trans hcommand) (by simp)

/-- **The step lemma.**  Whatever answer comes, the two sides keep to the same rules. -/
theorem BatchInv.step (h : BatchInv s) {event : BatchEvent Tx Logs Memory}
    (hstep : s.step E receiver event = some s') : BatchInv s' := by
  have hpcInv := h.pc
  cases event with
  | proceed => exact h.proceed hstep
  | newL2BlockParams timestamp => exact h.newL2BlockParams hstep
  | receive sealer => exact h.receive hstep
  | stop =>
    cases hstep
    exact h.stop
  | sealUnconditionally | sealL2Block =>
    simp only [BatchState.step] at hstep
    split at hstep
    · rename_i hpc
      rw [hpc] at hpcInv
      cases hstep
      exact h.goTo_of_quiet hpcInv trivial
    · cases hstep
  | nextTx tx =>
    simp only [BatchState.step] at hstep
    split at hstep
    · rename_i tx hpc
      rw [hpc] at hpcInv
      cases hstep
      exact h.send_executeTx hpcInv fun _ => rfl
    · rename_i hpc
      rw [hpc] at hpcInv
      cases hstep
      exact h.goTo_of_quiet hpcInv trivial
    · cases hstep
  -- the thread never touches what the state keeper has recorded
  | handle compressed plain =>
    have hpc := hpcInv.handle h.safe hstep
    have hsafe := h.safe.handle hstep
    obtain ⟨_, _, _, _, ⟨_, _, _, rfl⟩ | rfl | ⟨-, rfl⟩⟩ := BatchState.handle_cases hstep
    all_goals exact ⟨hsafe, hpc, h.flat⟩
  | executorFails =>
    simp only [BatchState.step] at hstep
    split at hstep
    · rename_i hcommand _
      cases hstep
      exact ⟨.failed s, hpcInv.executorFails hcommand, h.flat⟩
    · cases hstep

theorem BatchInv.init (firstL2Block : L2BlockEnv) (version : ProtocolVersionId) (memory : Memory)
    (protocolUpgradeTx : Option Tx) (pendingL2Blocks : List (L2BlockExecutionData Tx)) :
    BatchInv (BatchState.init firstL2Block version memory protocolUpgradeTx pendingL2Blocks :
      BatchState Tx Logs Memory) where
  safe := {
    noSnapshot := nofun
    running := fun vm h => by
      obtain rfl := ExecutorState.running.inj h
      exact ⟨Nat.zero_le _, nofun⟩
    finished := nofun
    finishing := nofun }
  pc := by cases pendingL2Blocks <;> exact ⟨rfl, rfl, _, rfl, rfl⟩
  flat := rfl

/-- **What is sealed was executed.**  When the batch is finished, the VM has executed and not rolled
back exactly the recorded transactions, in their order and in their blocks. -/
theorem finishBatch_agrees {firstL2Block : L2BlockEnv} {version : ProtocolVersionId}
    {memory : Memory}
    {protocolUpgradeTx : Option Tx} {pendingL2Blocks : List (L2BlockExecutionData Tx)}
    {events : List (BatchEvent Tx Logs Memory)}
    (hrun : Run (StepRel.ofPartial (BatchState.step E receiver))
      (.init firstL2Block version memory protocolUpgradeTx pendingL2Blocks) events s) :
    (s.command = some .finishBatch → ∃ vm, s.executor = .running vm ∧
      vm.machine.l2Blocks = s.updates.l2Blocks ∧
      vm.machine.l2Blocks.flatMap (·.txs) =
        s.updates.executedTransactions ++ s.updates.l2Block.executedTransactions) ∧
    (∀ vm, s.executor = .running vm ∨ s.executor = .finished vm → vm.snapshots.length ≤ 1) ∧
    s.executor ≠ .noSnapshot := by
  have hinv : BatchInv s := hrun.invariant (I := BatchInv) (fun _ _ _ h hs => h.step hs)
    (.init firstL2Block version memory protocolUpgradeTx pendingL2Blocks)
  refine ⟨fun hcommand => ?_, fun vm hvm => ?_, hinv.safe.noSnapshot⟩
  · obtain ⟨vm, hrunning, hagrees⟩ := hinv.safe.finishing hcommand
    refine ⟨vm, hrunning, hagrees, ?_⟩
    rw [hagrees, UpdatesManager.l2Blocks, List.flatMap_map, List.flatMap_append,
      List.flatMap_singleton, hinv.flat]
  · rcases hvm with hvm | hvm
    · exact (hinv.safe.running vm hvm).1
    · exact hinv.safe.finished vm hvm

end Runs

def sampleHashes : BlockExternals (TransactionExecution ℕ Unit) :=
  ⟨fun _ => .replicate 32 0, fun _ => .replicate 32 0, fun _ => .replicate 32 0,
    fun _ => ⟨0, 0, .replicate 32 0, .replicate 32 0⟩⟩

def inspectedAs (published : Bool) (result : ExecutionResult) : Inspected Unit Unit :=
  ⟨(), published, ⟨result, ()⟩, []⟩

/-- An upgrade, a transaction whose bytecodes are only published without compression, and in the
next block one that runs out of gas. -/
def sampleBatchEvents : List (BatchEvent ℕ Unit Unit) :=
  [.proceed, .handle (inspectedAs true .success) (inspectedAs true .success), .receive .noSeal,
    .proceed, .nextTx (some 8), .handle (inspectedAs false .success) (inspectedAs true .revert),
    .receive .noSeal, .sealL2Block, .newL2BlockParams 11,
    .handle (inspectedAs true .success) (inspectedAs true .success), .receive .noSeal,
    .nextTx (some 9),
    .handle (inspectedAs true (.halt .bootloaderOutOfGas)) (inspectedAs true .success),
    .receive .noSeal, .handle (inspectedAs true .success) (inspectedAs true .success),
    .receive .noSeal, .proceed, .proceed]

theorem finishBatch_agrees_excluded : ∃ s vm,
    Run (StepRel.ofPartial (BatchState.step sampleHashes ⟨true⟩))
      (.init ⟨1, 10, FixedBytes.replicate 32 0⟩ .version24 () (some 7) []) sampleBatchEvents s ∧
    s.executor = .running vm ∧ vm.machine.l2Blocks = s.updates.l2Blocks ∧
    s.updates.l2Blocks.map (fun block => block.txs.map (·.transaction)) = [[7, 8], []] := by
  obtain ⟨s, hrun, hcommand, htxs⟩ :
    ∃ s, Run (StepRel.ofPartial (BatchState.step sampleHashes ⟨true⟩))
      (.init ⟨1, 10, FixedBytes.replicate 32 0⟩ .version24 () (some 7) []) sampleBatchEvents s ∧
      (match s.command with | some .finishBatch => true | some _ | none => false) = true ∧
      s.updates.l2Blocks.map (fun block => block.txs.map (·.transaction)) = [[7, 8], []] :=
    Run.witness (fun _ _ h => h) (by decide +kernel)
  have hfinish : s.command = some .finishBatch := by
    split at hcommand
    · assumption
    all_goals cases hcommand
  obtain ⟨vm, hrunning, hblocks, -⟩ := (finishBatch_agrees hrun).1 hfinish
  exact ⟨s, vm, hrun, hrunning, hblocks, htxs⟩

end BatchExecutor
