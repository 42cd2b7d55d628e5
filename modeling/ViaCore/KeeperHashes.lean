/-
Hashes of L2 blocks, along every run of the state keeper.

The bootloader checks every new block against its own last one: the number, the timestamp, and the
hash.  For the first block of a batch the last one is read from the storage.

* `keeperRun_blockHashes` — both sides compute the same hashes.
-/
import ViaCore.KeeperChain
import ViaCore.TransactionData

namespace Keeper

variable {Tx : Type} {E : BlockExternals Tx}

/-- The storage has the block; of the genesis it has nothing. -/
structure StoredAs (E : BlockExternals Tx) (stored : StoredL2Block) (block : L2BlockHeader Tx) :
    Prop where
  number : stored.number = block.number
  genesis : block.number = 0 → block.hash = L2BlockHasher.legacyHash E 0
  timestamp : block.number ≠ 0 → stored.timestamp = block.timestamp
  hash : block.number ≠ 0 → l2BlockHash E stored.number stored.timestamp stored.prevBlockHash
    stored.txsRollingHash = block.hash

theorem Vm.new_of_storedAs {stored : StoredL2Block} {block : L2BlockHeader Tx} {env : L2BlockEnv}
    (h : StoredAs E stored block) (hnumber : env.number = block.number + 1)
    (htimestamp : block.timestamp < env.timestamp) (hprev : env.prevBlockHash = block.hash) :
    Vm.new E stored env = .ok ⟨⟨[], .new env⟩, []⟩ := by
  rw [Vm.new]
  by_cases hzero : block.number = 0
  · have hload : loadLastL2Block E stored = none := if_pos (h.number.trans hzero)
    rw [hload, Option.getD_none, hnumber, hzero, if_pos]
    · rfl
    · exact ⟨Nat.zero_le _, (h.genesis hzero).symm.trans hprev.symm⟩
  · have hload : loadLastL2Block E stored = some ⟨block.number, block.timestamp, block.hash⟩ := by
      rw [loadLastL2Block, if_neg (h.number ▸ hzero), h.hash hzero, h.timestamp hzero, h.number]
    rw [hload, Option.getD_some, if_pos]
    · rfl
    · refine ⟨?_, hprev.symm⟩
      rw [if_neg hzero]
      exact ⟨hnumber.symm, htimestamp⟩

/-! ### Memory and bootloader -/

/-- Both have the same current block, and the VM has not stopped at one of its checks. -/
def Phase.Agrees (E : BlockExternals Tx) : Phase Tx → Prop
  | .running updates vm | .finishing updates vm | .waitingForBlock updates vm _
  | .restoring updates vm _ _ => Tracks E updates.l2Block vm.bootloaderState.lastL2Block
  | .failed failure => failure = .vm .emptyL2Block
  | .stopped | .waitingForBatch _ => True

def Db.lastClosed (db : Db Tx) : Option (L2BlockHeader Tx) :=
  (db.miniblocks.filter fun b => b.l1BatchNumber ≠ none).getLast?

structure VmInv (E : BlockExternals Tx) (s : State Tx) : Prop where
  stored : ∃ batch block, s.db.l1Batches.getLast? = some batch ∧ s.db.lastClosed = some block ∧
    StoredAs E batch.lastL2Block block
  phase : s.phase.Agrees E

variable {s s' : State Tx} {closed pending : List (L2BlockHeader Tx)}

theorem DbInv.lastClosed_eq {db : Db Tx} (h : DbInv db closed pending) :
    db.lastClosed = closed.getLast? := by
  rw [Db.lastClosed, h.blocks, List.filter_append, List.filter_eq_self.2, List.filter_eq_nil_iff.2,
    List.append_nil]
  · intro b hb
    simp [(h.unlabelled b hb).1]
  · intro b hb
    obtain ⟨n, hn, -⟩ := h.labelled b hb
    simp [hn]

theorem VmInv.goTo (h : VmInv E s) {phase : Phase Tx} (hphase : phase.Agrees E) :
    VmInv E (s.goTo phase) := ⟨h.stored, hphase⟩

theorem VmInv.last (h : VmInv E s) (hinv : Inv E s closed pending) :
    ∃ batches batch blocks block, s.db.l1Batches = batches ++ [batch] ∧ closed = blocks ++ [block] ∧
      StoredAs E batch.lastL2Block block := by
  obtain ⟨batch, block, hbatch, hblock, hstored⟩ := h.stored
  obtain ⟨batches, hbatches⟩ := List.getLast?_eq_some_iff.1 hbatch
  rw [hinv.db.lastClosed_eq] at hblock
  obtain ⟨blocks, hblocks⟩ := List.getLast?_eq_some_iff.1 hblock
  exact ⟨batches, batch, blocks, block, hbatches, hblocks, hstored⟩

theorem VmInv.initializeIo (h : VmInv E s) (hinv : Inv E s closed pending) (hqueue : s.queue = [])
    (hstep : s.initializeIo E = some s') : VmInv E s' := by
  obtain ⟨batches, batch, blocks, block, hbatches, hclosed, hstored⟩ := h.last hinv
  obtain ⟨cursor, hcursor, hstep⟩ := Option.bind_eq_some_iff.1 hstep
  have hnumber : cursor.l1Batch = s.db.l1Batches.length := by
    rw [IoCursor.new, hbatches, List.getLast?_concat] at hcursor
    obtain ⟨_, hlast, hcursor⟩ := Option.bind_eq_some_iff.1 hcursor
    obtain ⟨_, -, hcursor⟩ := Option.bind_eq_some_iff.1 hcursor
    cases hlast
    cases hcursor
    exact (hinv.db.find_last hbatches).1
  rw [hinv.db.l2BlocksToReexecute_eq] at hstep
  cases hpending : pending with
  | nil =>
    rw [hpending] at hstep
    cases hstep
    exact h.goTo trivial
  | cons first rest =>
    rw [hpending] at hstep
    obtain ⟨hfollows, heq⟩ := hinv.loadPendingBatch_eq hqueue hbatches hclosed hpending hnumber
    cases heq.symm.trans hstep
    rw [Vm.new_of_storedAs hstored hfollows.number hfollows.timestamp rfl]
    exact h.goTo (Tracks.new _ _ _ _)

variable {version : ProtocolVersionId}

theorem VmInv.openBatch (h : VmInv E s) (hinv : Inv E s closed pending) {cursor : IoCursor}
    {readings : List ℕ} (hphase : s.phase = .waitingForBatch cursor)
    (hstep : s.openBatch E cursor readings version = some s') : VmInv E s' := by
  obtain ⟨batches, batch, blocks, block, hbatches, hclosed, hstored⟩ := h.last hinv
  have hwaiting := hinv.phase
  rw [hphase] at hwaiting
  obtain ⟨hopened, hnumber, earlier, last, hblocks, hnext, hhash, htimestamp⟩ := hwaiting
  obtain ⟨hpending, hqueue⟩ := List.append_eq_nil_iff.1 hopened
  have hlast : last = block := by
    rw [hinv.db.blocks, hpending, hqueue, List.append_nil, List.append_nil, hclosed] at hblocks
    exact ((List.append_inj' hblocks rfl).2 |> List.head_eq_of_cons_eq).symm
  rw [State.openBatch, hnumber, (hinv.db.find_last hbatches).2] at hstep
  obtain ⟨timestamp, hsleep, hstep⟩ := Option.bind_eq_some_iff.1 hstep
  have hlt := lt_of_sleepPast hsleep
  rw [htimestamp, hlast] at hlt
  change (if IsVmLatest version then _ else _) = some s' at hstep
  split at hstep
  · rw [Vm.new_of_storedAs hstored (hnext.trans (hlast ▸ rfl)) hlt
      (hhash.trans (hlast ▸ rfl))] at hstep
    cases hstep
    exact h.goTo (Tracks.new _ _ _ _)
  · cases hstep

variable {updates : UpdatesManager Tx} {vm : Vm}

theorem VmInv.processTx (h : VmInv E s) (hhashes : E.TxHashesAgree)
    (hphase : s.phase = .running updates vm) (tx : Tx) (compressionFails : Bool)
    (resolution : Resolution) :
    VmInv E (s.processTx E updates vm tx compressionFails resolution) := by
  have htracks := h.phase
  rw [hphase] at htracks
  have hpushed := htracks.pushTx hhashes tx
  rw [State.processTx, Vm.executeTx_eq]
  refine h.goTo ?_
  cases resolution with
  | noSeal | includeAndSeal => exact hpushed
  | excludeAndSeal | unexecutable =>
    show Phase.Agrees E (.afterVm (Vm.rollbackToTheLatestSnapshot _) _)
    rw [Vm.rollback_pushTransaction]
    exact htracks

theorem VmInv.startNextL2Block (h : VmInv E s) {timestamp : ℕ}
    (htracks : Tracks E updates.l2Block vm.bootloaderState.lastL2Block)
    (hversion : ProtocolVersionId.version13.ctorIdx ≤ updates.l2Block.protocolVersion.ctorIdx)
    (hlt : updates.l2Block.timestamp < timestamp) {next : UpdatesManager Tx → Vm → Phase Tx}
    (hnext : ∀ updates vm, Tracks E updates.l2Block vm.bootloaderState.lastL2Block →
      (next updates vm).Agrees E) : VmInv E (s.startNextL2Block E updates vm timestamp next) := by
  rw [State.startNextL2Block]
  have hstart : vm.startNewL2Block E (updates.pushL2Block E timestamp).l2Block.getEnv = _ :=
    Vm.startNewL2Block_of_tracks htracks hversion rfl hlt rfl
  refine h.goTo ?_
  rw [hstart]
  split
  · exact rfl
  · exact hnext _ _ (Tracks.new _ _ _ _)

theorem VmInv.finishBatch (h : VmInv E s) (hinv : Inv E s closed pending)
    (hstores : E.StoresLastBlock) (hphase : s.phase = .finishing updates vm)
    (hempty : updates.l2Block.executedTransactions = []) :
    VmInv E (s.finishBatch E updates vm) := by
  have htracks := h.phase
  have hfinishing := hinv.phase
  rw [hphase] at htracks hfinishing
  obtain ⟨hbatch, earlier, block, hblocks, hextends⟩ := hfinishing
  rw [State.finishBatch, Vm.finishBatch_of_tracks hstores htracks hempty]
  refine ⟨⟨_, (updates.header E).labelled updates.l1BatchNumber, List.getLast?_concat, ?_, ?_⟩,
    trivial⟩
  · show (((s.db.miniblocks ++ [updates.header E]).map (L2BlockHeader.labelled _)).filter
      _).getLast? = _
    rw [List.map_append, List.filter_append, List.getLast?_append]
    rfl
  · have hne : updates.l2Block.number ≠ 0 := by
      rw [hextends.number]
      exact Nat.succ_ne_zero _
    refine ⟨rfl, fun hzero => absurd hzero hne, fun _ => rfl, fun _ => ?_⟩
    show l2BlockHash E updates.l2Block.number updates.l2Block.timestamp
      updates.l2Block.prevBlockHash _
      = updates.l2Block.getL2BlockHash E
    rw [KeeperL2Block.getL2BlockHash_eq hextends.version, hempty, List.map_nil]

theorem OpenBatch.supported_l2Block {number : ℕ} {opened : List (L2BlockHeader Tx)}
    (h : OpenBatch number opened updates) :
    ProtocolVersionId.version13.ctorIdx ≤ updates.l2Block.protocolVersion.ctorIdx := by
  rw [h.version]
  exact h.supported

theorem VmInv.step (h : VmInv E s) (hinv : Inv E s closed pending) (hhashes : E.TxHashesAgree)
    (hstores : E.StoresLastBlock) {event : Event Tx} (hstep : s.step E event = some s') :
      VmInv E s' := by
  have hagrees := h.phase
  have hknown := hinv.phase
  cases State.stepped_of_step hstep with
  | start hphase hstart => exact h.initializeIo hinv (by rwa [hphase] at hknown) hstart
  | openBatch hphase hopen => exact h.openBatch hinv hphase hopen
  | reexecuteTx hphase =>
    rw [hphase] at hagrees
    rw [Vm.executeTx_eq]
    exact h.goTo (hagrees.pushTx hhashes _)
  | reexecuteBlock hphase =>
    obtain ⟨hfollows, -, -⟩ := hinv.reexecuteBlock hphase
    rw [hphase] at hagrees hknown
    exact h.startNextL2Block hagrees hknown.1.supported_l2Block hfollows.timestamp
      fun _ _ htracks => htracks
  | restored hphase | sealL1Batch hphase =>
    rw [hphase] at hagrees
    exact h.goTo hagrees
  | processTx hphase tx compressionFails resolution =>
    exact h.processTx hhashes hphase tx compressionFails resolution
  | sealL2Block fictive hphase =>
    rw [hphase] at hagrees
    exact ⟨h.stored, by cases fictive <;> exact hagrees⟩
  | @startNextL2Block _ _ fictive _ _ hphase hsleep =>
    rw [hphase] at hagrees hknown
    refine h.startNextL2Block hagrees hknown.1.supported_l2Block (lt_of_sleepPast hsleep)
      fun _ _ htracks => ?_
    cases fictive <;> exact htracks
  | finishBatch hphase hempty => exact h.finishBatch hinv hstores hphase hempty
  | @storeL2Block block queue hqueue =>
    have hnone : block.l1BatchNumber = none := hinv.queue block (by simp [hqueue])
    obtain ⟨batch, last, hbatch, hlast, hstored⟩ := h.stored
    refine ⟨⟨batch, last, hbatch, ?_, hstored⟩, hagrees⟩
    rw [← hlast]
    -- the block is not labelled yet, so the last labelled one stays
    show ((s.db.miniblocks ++ [block]).filter _).getLast? = _
    rw [List.filter_append, List.filter_cons_of_neg (by simp [hnone]), List.filter_nil,
      List.append_nil]
    rfl
  | stop => exact ⟨h.stored, trivial⟩

theorem VmInv.genesis (E : BlockExternals Tx) (version : ProtocolVersionId) :
    VmInv E (.genesis E version) :=
  ⟨⟨_, _, rfl, rfl, rfl, fun _ => rfl, fun hne => absurd rfl hne, fun hne =>
    absurd rfl hne⟩, trivial⟩

theorem VmInv.tracks (h : VmInv E s) (hcurrent : s.current = some (updates, vm)) :
    Tracks E updates.l2Block vm.bootloaderState.lastL2Block := by
  have hphase := h.phase
  rw [State.current] at hcurrent
  cases heq : s.phase with
  | running | finishing | waitingForBlock | restoring =>
    rw [heq] at hphase hcurrent
    cases hcurrent
    exact hphase
  | stopped | waitingForBatch | failed =>
    rw [heq] at hcurrent
    cases hcurrent

/-- **The bootloader computes the hash that the state keeper computes**, at every point of every
run, and no check on a new block and no rollback has failed, but for a block on top of an empty
one. -/
theorem keeperRun_blockHashes (hhashes : E.TxHashesAgree) (hstores : E.StoresLastBlock)
    {events : List (Event Tx)}
    (hrun : Run (StepRel.ofPartial (State.step E)) (.genesis E version) events s) :
    (∀ updates vm, s.current = some (updates, vm) →
      vm.bootloaderState.lastL2Block.getHash E = updates.l2Block.getL2BlockHash E ∧
      vm.bootloaderState.lastL2Block.number = updates.l2Block.number ∧
      vm.bootloaderState.lastL2Block.timestamp = updates.l2Block.timestamp ∧
      vm.bootloaderState.lastL2Block.prevBlockHash = updates.l2Block.prevBlockHash) ∧
    ∀ failure, s.phase = .failed failure → failure = .vm .emptyL2Block := by
  -- each step needs the chain of the keeper as well
  obtain ⟨⟨closed, pending, hinv⟩, h⟩ : (∃ closed pending, Inv E s closed pending) ∧ VmInv E s := by
    refine hrun.invariant (I := fun s => (∃ closed pending, Inv E s closed pending) ∧ VmInv E s) ?_
      ⟨⟨_, _, Inv.genesis E version⟩, VmInv.genesis E version⟩
    rintro s event s' ⟨⟨closed, pending, hinv⟩, h⟩ hstep
    exact ⟨hinv.step hstep, h.step hinv hhashes hstores hstep⟩
  have hphase := h.phase
  constructor
  · intro updates vm hcurrent
    have hopen := hinv.openBatch_current hcurrent
    have htracks := h.tracks hcurrent
    have hversion := hopen.supported
    rw [← hopen.version] at hversion
    exact ⟨htracks.getHash_eq hversion, htracks.number, htracks.timestamp, htracks.prevBlockHash⟩
  · intro failure hfailed
    rw [hfailed] at hphase
    exact hphase

section Received

open Web3

/-- A transaction of the mempool: bytes that the server has accepted, or a deposit. -/
inductive ReceivedTx (R : RlpReader) (C : Crypto) (overflowChecks : Bool) (chainId : L2ChainId)
    (Address : Type) where
  | user (bytes : Bytes) (maxTxSize : ℕ)
      (haccepted : (parseTransactionBytes R C overflowChecks bytes chainId
        maxTxSize).toOption.isSome = true)
  | deposit (msg : L1ToL2Message Address) (serialId : ℕ)

variable {R : RlpReader} {C : Crypto} {overflowChecks : Bool} {chainId : L2ChainId} {Address : Type}

namespace ReceivedTx

def kept : ReceivedTx R C overflowChecks chainId Address → Web3.Transaction × H256
  | .user bytes _ haccepted =>
    let (tx, hash) := Option.get _ haccepted
    (.ofL2Tx (tx.setInput bytes hash), hash)
  | .deposit msg serialId =>
    let tx := createL1TxFromMessage (L2CanonicalTransaction.hash C) msg serialId
    (.ofL1Tx tx, tx.commonData.canonicalTxHash)

def bootloaderHash (tx : ReceivedTx R C overflowChecks chainId Address) : Outcome Unit H256 :=
  (TransactionData.ofTransaction R tx.kept.1).txHash R C overflowChecks chainId

def externals (systemContext : BootloaderL2Block → StoredL2Block) :
    BlockExternals (ReceivedTx R C overflowChecks chainId Address) where
  keccak256 := C.keccak256
  txHash tx := tx.kept.2
  bootloaderTxHash tx := tx.bootloaderHash.toOption.getD (.replicate 32 0)
  systemContext

/-- **The bootloader has the hashes of all received transactions**; nothing is assumed of them. -/
theorem externals_agree (hE : C.toEncoder.Lawful)
    (systemContext : BootloaderL2Block → StoredL2Block) :
    (externals systemContext :
      BlockExternals (ReceivedTx R C overflowChecks chainId Address)).TxHashesAgree := by
  intro tx
  have hcomputed : tx.bootloaderHash = .ok tx.kept.2 := by
    cases tx with
    | user bytes maxTxSize haccepted =>
      have hparsed := Outcome.toOption_eq_some.1 (Option.some_get haccepted).symm
      exact TransactionData.txHash_ofL2 hparsed
    | deposit msg serialId =>
      exact congrArg unwrapped (TransactionData.canonicalL1TxHash_deposit R hE msg serialId)
  show tx.bootloaderHash.toOption.getD _ = _
  rw [hcomputed]
  rfl

end ReceivedTx

/-! A typed transaction and two deposits. -/

abbrev SampleTx := ReceivedTx rlpCrate sampleCrypto false sampleChainId Unit

theorem sampleEip712_accepted : (parseTransactionBytes rlpCrate sampleCrypto false
    (sampleEip712 270 1) sampleChainId 1000000).toOption.isSome = true := by decide +kernel

def receivedEvents : List (Event SampleTx) :=
  eventsWith (.user (sampleEip712 270 1) 1000000 sampleEip712_accepted)
    (.deposit sampleDepositMessage 0) (.deposit sampleDepositMessage 1)

def receivedExternals : BlockExternals SampleTx :=
  ReceivedTx.externals sampleExternals.systemContext

theorem keeperRun_blockHashes_sample :
    ∃ s, Run (StepRel.ofPartial (State.step receivedExternals))
      (.genesis receivedExternals .version24)
        receivedEvents s ∧
      ∃ updates vm, s.current = some (updates, vm) ∧
        vm.bootloaderState.lastL2Block.getHash receivedExternals
          = updates.l2Block.getL2BlockHash receivedExternals := by
  obtain ⟨s, hrun, hsome⟩ : ∃ s, Run (StepRel.ofPartial (State.step receivedExternals))
      (.genesis receivedExternals .version24) receivedEvents s ∧ s.current.isSome = true :=
    Run.witness (fun _ _ h => h) (by decide +kernel)
  obtain ⟨⟨updates, vm⟩, hcurrent⟩ := Option.isSome_iff_exists.1 hsome
  have hhashes : receivedExternals.TxHashesAgree :=
    ReceivedTx.externals_agree Abi.encoder_lawful sampleExternals.systemContext
  have hstores : receivedExternals.StoresLastBlock := fun _ => rfl
  exact ⟨s, hrun, updates, vm, hcurrent,
    ((keeperRun_blockHashes hhashes hstores hrun).1 updates vm hcurrent).1⟩

end Received

end Keeper
