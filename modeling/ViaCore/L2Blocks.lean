/-
L2 blocks in the state keeper and in the bootloader.

The hash of a block is computed twice.  The state keeper hashes the transactions that it has kept;
the bootloader has a rolling hash, to which every transaction is added before it is executed, and
which is restored from a snapshot when the transaction is rolled back.  A new block names the hash
that the state keeper has computed, and the bootloader checks it against its own.

* `Vm.startNewL2Block_of_tracks` — the checks of the bootloader pass.
-/
import ViaCore.Bytes
import ViaCore.SealCriteria

/-- The slots of the system context: the last block of the batch. -/
structure StoredL2Block where
  number : ℕ
  timestamp : ℕ
  prevBlockHash : H256
  txsRollingHash : H256

structure BootloaderL2Block where
  number : ℕ
  timestamp : ℕ
  txsRollingHash : H256
  prevBlockHash : H256
  txs : List H256

/-- What is used of the transactions: `Transaction::hash`, the hash that the bootloader derives from
its own encoding, and what the system context has in its slots after a batch. -/
structure BlockExternals (Tx : Type) where
  keccak256 : Bytes → H256
  txHash : Tx → H256
  bootloaderTxHash : Tx → H256
  systemContext : BootloaderL2Block → StoredL2Block

def BlockExternals.TxHashesAgree {Tx : Type} (E : BlockExternals Tx) : Prop :=
  ∀ tx, E.bootloaderTxHash tx = E.txHash tx

def BlockExternals.StoresLastBlock {Tx : Type} (E : BlockExternals Tx) : Prop :=
  ∀ block, E.systemContext block =
    ⟨block.number, block.timestamp, block.prevBlockHash, block.txsRollingHash⟩

structure L2BlockHasher where
  number : ℕ
  timestamp : ℕ
  prevL2BlockHash : H256
  txsRollingHash : H256

structure L2BlockEnv where
  number : ℕ
  timestamp : ℕ
  prevBlockHash : H256

variable {Tx : Type}

section Hashing

variable (E : BlockExternals Tx)

def concatAndHash (hash1 hash2 : H256) : H256 := E.keccak256 (hash1.bytes ++ hash2.bytes)

namespace L2BlockHasher

def legacyHash (number : ℕ) : H256 := E.keccak256 (FixedBytes.ofNat 4 number).bytes

def new (number timestamp : ℕ) (prevL2BlockHash : H256) : L2BlockHasher :=
  ⟨number, timestamp, prevL2BlockHash, FixedBytes.replicate 32 0⟩

def pushTxHash (self : L2BlockHasher) (txHash : H256) : L2BlockHasher :=
  { self with txsRollingHash := concatAndHash E self.txsRollingHash txHash }

def finalize (self : L2BlockHasher) (protocolVersion : ProtocolVersionId) : H256 :=
  if ProtocolVersionId.version13.ctorIdx ≤ protocolVersion.ctorIdx then
    E.keccak256 ((FixedBytes.ofNat 32 self.number).bytes ++
      (FixedBytes.ofNat 32 self.timestamp).bytes
      ++ self.prevL2BlockHash.bytes ++ self.txsRollingHash.bytes)
  else legacyHash E self.number

end L2BlockHasher

structure KeeperL2Block (Tx : Type) where
  number : ℕ
  timestamp : ℕ
  prevBlockHash : H256
  protocolVersion : ProtocolVersionId
  executedTransactions : List Tx

namespace KeeperL2Block

def new (timestamp number : ℕ) (prevBlockHash : H256) (protocolVersion : ProtocolVersionId) :
    KeeperL2Block Tx :=
  ⟨number, timestamp, prevBlockHash, protocolVersion, []⟩

def extendFromExecutedTransaction (self : KeeperL2Block Tx) (tx : Tx) : KeeperL2Block Tx :=
  { self with executedTransactions := self.executedTransactions ++ [tx] }

def getL2BlockHash (self : KeeperL2Block Tx) : H256 :=
  let digest := L2BlockHasher.new self.number self.timestamp self.prevBlockHash
  (self.executedTransactions.foldl (fun digest tx =>
    digest.pushTxHash E (E.txHash tx)) digest).finalize
    E self.protocolVersion

def getEnv (self : KeeperL2Block Tx) : L2BlockEnv :=
  ⟨self.number, self.timestamp, self.prevBlockHash⟩

end KeeperL2Block

structure L2Block where
  number : ℕ
  timestamp : ℕ
  hash : H256

inductive BootloaderPanic where
  /-- "Can not create new miniblocks on top of empty ones" -/
  | emptyL2Block
  /-- One of the checks of `assert_next_block`. -/
  | nextBlock
  /-- "Applying snapshot from future is not supported" -/
  | snapshotFromFuture
  /-- "Snapshot should be created before rolling it back" -/
  | noSnapshot
  deriving DecidableEq

def AssertNextBlock (prevBlock : L2Block) (nextBlock : L2BlockEnv) : Prop :=
  (if prevBlock.number = 0 then prevBlock.timestamp ≤ nextBlock.timestamp
    else prevBlock.number + 1 = nextBlock.number ∧ prevBlock.timestamp < nextBlock.timestamp) ∧
    prevBlock.hash = nextBlock.prevBlockHash
deriving Decidable

def l2BlockHash (number timestamp : ℕ) (prevL2BlockHash txsRollingHash : H256) : H256 :=
  E.keccak256 ((FixedBytes.ofNat 32 number).bytes ++ (FixedBytes.ofNat 32 timestamp).bytes
    ++ prevL2BlockHash.bytes ++ txsRollingHash.bytes)

def loadLastL2Block (stored : StoredL2Block) : Option L2Block :=
  if stored.number = 0 then none
  else some ⟨stored.number, stored.timestamp,
    l2BlockHash E stored.number stored.timestamp stored.prevBlockHash stored.txsRollingHash⟩

structure L2BlockSnapshot where
  txsRollingHash : H256
  txsLen : ℕ

namespace BootloaderL2Block

def new (l2Block : L2BlockEnv) : BootloaderL2Block :=
  ⟨l2Block.number, l2Block.timestamp, FixedBytes.replicate 32 0, l2Block.prevBlockHash, []⟩

def pushTx (self : BootloaderL2Block) (hash : H256) : BootloaderL2Block :=
  { self with
    txsRollingHash := concatAndHash E self.txsRollingHash hash
    txs := self.txs ++ [hash] }

def getHash (self : BootloaderL2Block) : H256 :=
  l2BlockHash E self.number self.timestamp self.prevBlockHash self.txsRollingHash

def l2Block (self : BootloaderL2Block) : L2Block := ⟨self.number, self.timestamp, self.getHash E⟩

def makeSnapshot (self : BootloaderL2Block) : L2BlockSnapshot :=
  ⟨self.txsRollingHash, self.txs.length⟩

def applySnapshot (self : BootloaderL2Block) (snapshot : L2BlockSnapshot) :
    Except BootloaderPanic BootloaderL2Block :=
  if self.txs.length < snapshot.txsLen then throw .snapshotFromFuture
  else pure { self with
    txsRollingHash := snapshot.txsRollingHash
    txs := self.txs.take snapshot.txsLen }

end BootloaderL2Block

structure BootloaderStateSnapshot where
  l2BlocksLen : ℕ
  lastL2Block : L2BlockSnapshot

/-- The blocks of the batch; there is always a last one. -/
structure BootloaderState where
  earlier : List BootloaderL2Block
  lastL2Block : BootloaderL2Block

namespace BootloaderState

def l2Blocks (self : BootloaderState) : List BootloaderL2Block := self.earlier ++ [self.lastL2Block]

def pushL2Block (self : BootloaderState) (l2Block : L2BlockEnv) : BootloaderState :=
  ⟨self.l2Blocks, .new l2Block⟩

def startNewL2Block (self : BootloaderState) (l2Block : L2BlockEnv) :
    Except BootloaderPanic BootloaderState :=
  if self.lastL2Block.txs = [] then throw .emptyL2Block
  else if AssertNextBlock (self.lastL2Block.l2Block E) l2Block then pure (self.pushL2Block l2Block)
  else throw .nextBlock

def pushTx (self : BootloaderState) (hash : H256) : BootloaderState :=
  { self with lastL2Block := self.lastL2Block.pushTx E hash }

def insertFictiveL2Block (self : BootloaderState) : Except BootloaderPanic BootloaderState :=
  let block := self.lastL2Block
  if block.txs = [] then pure self
  else self.startNewL2Block E ⟨block.number + 1, block.timestamp + 1, block.getHash E⟩

def getSnapshot (self : BootloaderState) : BootloaderStateSnapshot :=
  ⟨self.l2Blocks.length, self.lastL2Block.makeSnapshot⟩

def applySnapshot (self : BootloaderState) (snapshot : BootloaderStateSnapshot) :
    Except BootloaderPanic BootloaderState :=
  let kept := self.l2Blocks.take snapshot.l2BlocksLen
  if self.l2Blocks.length < snapshot.l2BlocksLen then throw .snapshotFromFuture
  else
    match kept.getLast? with
    | none => throw .snapshotFromFuture
    | some last => do pure ⟨kept.dropLast, ← last.applySnapshot snapshot.lastL2Block⟩

end BootloaderState

structure Vm where
  bootloaderState : BootloaderState
  snapshots : List BootloaderStateSnapshot

namespace Vm

/-- The first block of the batch is checked against the last one in the storage. -/
def new (stored : StoredL2Block) (firstL2Block : L2BlockEnv) : Except BootloaderPanic Vm :=
  let lastL2Block := (loadLastL2Block E stored).getD
    ⟨firstL2Block.number - 1, 0, L2BlockHasher.legacyHash E (firstL2Block.number - 1)⟩
  if AssertNextBlock lastL2Block firstL2Block then pure ⟨⟨[], .new firstL2Block⟩, []⟩
  else throw .nextBlock

def popSnapshotNoRollback (self : Vm) : Vm := { self with snapshots := self.snapshots.tail }

def makeSnapshot (self : Vm) : Vm :=
  { self with snapshots := self.bootloaderState.getSnapshot :: self.snapshots }

def pushTransaction (self : Vm) (tx : Tx) : Vm :=
  { self with bootloaderState := self.bootloaderState.pushTx E (E.bootloaderTxHash tx) }

def rollbackToTheLatestSnapshot (self : Vm) : Except BootloaderPanic Vm :=
  match self.snapshots with
  | [] => throw .noSnapshot
  | snapshot :: rest => do pure ⟨← self.bootloaderState.applySnapshot snapshot, rest⟩

/-- The transaction is executed with compressed bytecodes; if these are not published, it is rolled
back and executed again without. -/
def executeTx (self : Vm) (tx : Tx) (compressionFails : Bool) : Except BootloaderPanic Vm :=
  let vm := (self.popSnapshotNoRollback.makeSnapshot).pushTransaction E tx
  if compressionFails then do
    let vm ← vm.rollbackToTheLatestSnapshot
    pure (vm.makeSnapshot.pushTransaction E tx)
  else pure vm

def rollbackLastTx (self : Vm) : Except BootloaderPanic Vm := self.rollbackToTheLatestSnapshot

def startNewL2Block (self : Vm) (l2Block : L2BlockEnv) : Except BootloaderPanic Vm := do
  pure { self with bootloaderState := ← self.bootloaderState.startNewL2Block E l2Block }

def finishBatch (self : Vm) : Except BootloaderPanic StoredL2Block := do
  let state ← self.bootloaderState.insertFictiveL2Block E
  pure (E.systemContext state.lastL2Block)

end Vm

end Hashing

section Rollback

variable {E : BlockExternals Tx}

theorem BootloaderState.applySnapshot_pushTx (state : BootloaderState) (hash : H256) :
    (state.pushTx E hash).applySnapshot state.getSnapshot = .ok state := by
  have hlength : (state.pushTx E hash).l2Blocks.length = state.l2Blocks.length := by
    simp [BootloaderState.l2Blocks, BootloaderState.pushTx]
  have htake : (state.pushTx E hash).l2Blocks.take state.l2Blocks.length
      = state.earlier ++ [state.lastL2Block.pushTx E hash] := by
    rw [← hlength, List.take_length]
    rfl
  have hlast : (state.lastL2Block.pushTx E hash).applySnapshot state.lastL2Block.makeSnapshot
      = .ok state.lastL2Block := by
    simp [BootloaderL2Block.applySnapshot, BootloaderL2Block.pushTx, BootloaderL2Block.makeSnapshot,
      pure, Except.pure]
  rw [BootloaderState.applySnapshot, BootloaderState.getSnapshot, if_neg (hlength ▸ lt_irrefl _)]
  simp only [htake, List.getLast?_append, List.getLast?_singleton, Option.some_or, hlast]
  simp [bind, Except.bind, pure, Except.pure]

namespace Vm

theorem rollback_pushTransaction (vm : Vm) (tx : Tx) :
    (vm.makeSnapshot.pushTransaction E tx).rollbackToTheLatestSnapshot = .ok vm := by
  simp only [rollbackToTheLatestSnapshot, pushTransaction, makeSnapshot,
    BootloaderState.applySnapshot_pushTx]
  rfl

theorem executeTx_eq (vm : Vm) (tx : Tx) (compressionFails : Bool) :
    vm.executeTx E tx compressionFails
      = .ok (vm.popSnapshotNoRollback.makeSnapshot.pushTransaction E tx) := by
  unfold executeTx
  cases compressionFails with
  | false => rfl
  | true =>
    simp only [if_true, rollback_pushTransaction]
    rfl

end Vm

end Rollback

section Tracks

variable {E : BlockExternals Tx}

def rollingHash (E : BlockExternals Tx) (hashes : List H256) : H256 :=
  hashes.foldl (concatAndHash E) (FixedBytes.replicate 32 0)

/-- The bootloader has the block of the state keeper. -/
structure Tracks (E : BlockExternals Tx) (block : KeeperL2Block Tx) (state : BootloaderL2Block) :
    Prop where
  number : state.number = block.number
  timestamp : state.timestamp = block.timestamp
  prevBlockHash : state.prevBlockHash = block.prevBlockHash
  txs : state.txs = block.executedTransactions.map E.txHash
  txsRollingHash : state.txsRollingHash = rollingHash E state.txs

theorem foldl_pushTxHash (digest : L2BlockHasher) (txs : List Tx) :
    txs.foldl (fun digest tx => digest.pushTxHash E (E.txHash tx)) digest
      = { digest with
          txsRollingHash := (txs.map E.txHash).foldl (concatAndHash E) digest.txsRollingHash } := by
  induction txs generalizing digest with
  | nil => rfl
  | cons tx rest ih =>
    rw [List.foldl_cons, ih]
    rfl

variable {block : KeeperL2Block Tx}

theorem KeeperL2Block.getL2BlockHash_eq
    (hversion : ProtocolVersionId.version13.ctorIdx ≤ block.protocolVersion.ctorIdx) :
    block.getL2BlockHash E = l2BlockHash E block.number block.timestamp block.prevBlockHash
      (rollingHash E (block.executedTransactions.map E.txHash)) := by
  rw [getL2BlockHash, foldl_pushTxHash, L2BlockHasher.finalize, if_pos hversion]
  rfl

namespace Tracks

variable {block : KeeperL2Block Tx} {state : BootloaderL2Block}

theorem getHash_eq (h : Tracks E block state)
    (hversion : ProtocolVersionId.version13.ctorIdx ≤ block.protocolVersion.ctorIdx) :
    state.getHash E = block.getL2BlockHash E := by
  rw [block.getL2BlockHash_eq hversion, BootloaderL2Block.getHash, h.txsRollingHash, h.number,
    h.timestamp, h.prevBlockHash, h.txs]

theorem new (timestamp number : ℕ) (prevBlockHash : H256) (version : ProtocolVersionId) :
    Tracks E (KeeperL2Block.new timestamp number prevBlockHash version)
      (.new (KeeperL2Block.new timestamp number prevBlockHash version : KeeperL2Block Tx).getEnv) :=
  ⟨rfl, rfl, rfl, rfl, rfl⟩

theorem pushTx (h : Tracks E block state) (hhash : E.TxHashesAgree) (tx : Tx) :
    Tracks E (block.extendFromExecutedTransaction tx) (state.pushTx E (E.bootloaderTxHash tx)) := by
  refine ⟨h.number, h.timestamp, h.prevBlockHash, ?_, ?_⟩
  · show state.txs ++ [E.bootloaderTxHash tx] = (block.executedTransactions ++ [tx]).map E.txHash
    rw [List.map_append, h.txs, hhash tx]
    rfl
  · show concatAndHash E state.txsRollingHash _ = rollingHash E (state.txs ++ [_])
    rw [rollingHash, List.foldl_append, h.txsRollingHash]
    rfl

end Tracks

theorem Vm.startNewL2Block_of_tracks {vm : Vm} {env : L2BlockEnv}
    (h : Tracks E block vm.bootloaderState.lastL2Block)
    (hversion : ProtocolVersionId.version13.ctorIdx ≤ block.protocolVersion.ctorIdx)
    (hnumber : env.number = block.number + 1) (htimestamp : block.timestamp < env.timestamp)
    (hprev : env.prevBlockHash = block.getL2BlockHash E) :
    vm.startNewL2Block E env = if block.executedTransactions = [] then .error .emptyL2Block
      else .ok { vm with bootloaderState := vm.bootloaderState.pushL2Block env } := by
  have hempty : vm.bootloaderState.lastL2Block.txs = [] ↔ block.executedTransactions = [] := by
    rw [h.txs, List.map_eq_nil_iff]
  -- the numbers of the keeper pass the checks of the VM
  have hassert : AssertNextBlock (vm.bootloaderState.lastL2Block.l2Block E) env := by
    refine ⟨?_, (h.getHash_eq hversion).trans hprev.symm⟩
    show if vm.bootloaderState.lastL2Block.number = 0
      then vm.bootloaderState.lastL2Block.timestamp ≤ env.timestamp
      else vm.bootloaderState.lastL2Block.number + 1 = env.number ∧
        vm.bootloaderState.lastL2Block.timestamp < env.timestamp
    rw [h.number, h.timestamp]
    split
    · exact htimestamp.le
    · exact ⟨hnumber.symm, htimestamp⟩
  rw [Vm.startNewL2Block, BootloaderState.startNewL2Block]
  by_cases hnil : block.executedTransactions = []
  · rw [if_pos (hempty.2 hnil), if_pos hnil]
    rfl
  · rw [if_neg (mt hempty.1 hnil), if_pos hassert, if_neg hnil]
    rfl

/-- A batch can be finished on a block without transactions; this block is stored. -/
theorem Vm.finishBatch_of_tracks (hstores : E.StoresLastBlock) {vm : Vm}
    (h : Tracks E block vm.bootloaderState.lastL2Block) (hempty : block.executedTransactions = []) :
    vm.finishBatch E = .ok ⟨block.number, block.timestamp, block.prevBlockHash,
      rollingHash E []⟩ := by
  have hnil : vm.bootloaderState.lastL2Block.txs = [] := by rw [h.txs, hempty, List.map_nil]
  rw [Vm.finishBatch, BootloaderState.insertFictiveL2Block, if_pos hnil]
  show Except.ok (E.systemContext _) = Except.ok _
  rw [hstores, h.number, h.timestamp, h.prevBlockHash, h.txsRollingHash, hnil]

end Tracks
