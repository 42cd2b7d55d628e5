/-
The first transaction of a batch.

The first transaction of a batch is the batch.  Whenever a criterion finds the batch too large for
the hard limit, it should already have rejected the transaction, for otherwise an empty batch is
sealed and the transaction comes first in the next one, again and again.  It has not for pubdata:
the transaction is measured by the pubdata that was published, and the batch by the sizes of its
logs, messages, bytecodes and writes.

* `processOneTx_first_iff` — when the first transaction is included or rejected.
-/
import ViaCore.Runs
import ViaCore.SealCriteria

variable {F32 F64 Key Value : Type} {E : Externals F32 F64 Value} {storage : Key → Value}
  {updates updates' : UpdatesManager F32 Key Value} {config : StateKeeperConfig F64}

/-! ### A batch in which nothing was executed -/

/-- Nothing was executed in the batch.  Initial values may be known from transactions that were
rejected, and then they are those of the storage. -/
structure EmptyBatch (E : Externals F32 F64 Value) (storage : Key → Value)
    (updates : UpdatesManager F32 Key Value) : Prop where
  batchMetrics : updates.l1Batch.blockExecutionMetrics = VmExecutionMetrics.default E.floats
  batchGas : updates.l1Batch.l1GasCount = newBlockGasCount
  batchSize : updates.l1Batch.txsEncodingSize = 0
  l2Block : updates.l2Block = L2BlockUpdates.new E
  modified : updates.storageWritesDeduplicator.modifiedKeyValues = fun _ => none
  writes : updates.storageWritesDeduplicator.metrics = ⟨0, 0, 0⟩
  learned : StorageWritesDeduplicator.Learned storage storage
    updates.storageWritesDeduplicator.initialValues

theorem BlockGasCount.add_zero (gas : BlockGasCount) : gas.add ⟨0, 0, 0⟩ = gas := by
  cases gas with
  | mk commit prove execute => simp [add]

theorem EmptyBatch.new (version : ProtocolVersionId) :
    EmptyBatch E storage (UpdatesManager.new E version : UpdatesManager F32 Key Value) :=
  ⟨rfl, rfl, rfl, rfl, rfl, rfl, fun _ => rfl⟩

theorem EmptyBatch.pushL2Block (h : EmptyBatch E storage updates) (hF : E.floats.Laws) :
    EmptyBatch E storage (updates.pushL2Block E) := by
  refine ⟨?_, ?_, ?_, rfl, h.modified, h.writes, h.learned⟩
  · show updates.l1Batch.blockExecutionMetrics.add E.floats updates.l2Block.blockExecutionMetrics =
      _
    rw [h.batchMetrics, h.l2Block]
    exact VmExecutionMetrics.default_add_default hF
  · show updates.l1Batch.l1GasCount.add updates.l2Block.l1GasCount = _
    rw [h.batchGas, h.l2Block]
    exact BlockGasCount.add_zero _
  · show updates.l1Batch.txsEncodingSize + updates.l2Block.txsEncodingSize = _
    rw [h.batchSize, h.l2Block]
    rfl

section Operations

variable [DecidableEq Key] [DecidableEq Value]

theorem EmptyBatch.applyAndRollback (h : EmptyBatch E storage updates)
    {logs : List (StorageLogWithPreviousValue Key Value)}
    (hlogs : StorageWritesDeduplicator.ReadsFrom storage logs) :
    ∃ deduplicator, updates.storageWritesDeduplicator.applyAndRollback E.compressedLen logs =
        some (StorageWritesDeduplicator.applyOnEmptyState E.compressedLen logs, deduplicator) ∧
      EmptyBatch E storage { updates with storageWritesDeduplicator := deduplicator } := by
  have hsame : (updates.storageWritesDeduplicator.processStorageLogs E.compressedLen
    logs).1.metrics =
      StorageWritesDeduplicator.applyOnEmptyState E.compressedLen logs :=
    (StorageWritesDeduplicator.Alike.run E.compressedLen
      ⟨h.learned, fun _ => rfl, h.modified, h.writes⟩ hlogs).metrics
  refine ⟨{ updates.storageWritesDeduplicator with
      initialValues := (updates.storageWritesDeduplicator.processStorageLogs E.compressedLen
        logs).1.initialValues }, by rw [StorageWritesDeduplicator.applyAndRollback_eq, hsame],
    h.batchMetrics, h.batchGas, h.batchSize, h.l2Block, h.modified, h.writes,
    h.learned.trial E.compressedLen hlogs⟩

/-! ### Sequences of operations -/

inductive UpdatesOperation (F32 Key Value : Type) where
  | processOneTx (execResult : TxExecutionResult F32 Key Value) (tx : SizedTransaction)
  | extendFromExecutedTransaction (tx : SizedTransaction) (result : TxSuccess F32 Key Value)
  | pushL2Block

def UpdatesManager.step (E : Externals F32 F64 Value) (config : StateKeeperConfig F64)
    (updates : UpdatesManager F32 Key Value) :
    UpdatesOperation F32 Key Value → Option (UpdatesManager F32 Key Value)
  | .processOneTx execResult tx => (processOneTx E config updates execResult tx).map Prod.snd
  | .extendFromExecutedTransaction tx result =>
    some (updates.extendFromExecutedTransaction E tx result)
  | .pushL2Block => some (updates.pushL2Block E)

def TxExecutionResult.ReadsFrom (storage : Key → Value) : TxExecutionResult F32 Key Value → Prop
  | .success result => StorageWritesDeduplicator.ReadsFrom storage result.storageLogs
  | _ => True

/-- As long as nothing was executed in the batch, transactions read from the storage at its
start. -/
def ReadsFromStart (storage : Key → Value) (updates : UpdatesManager F32 Key Value) :
    UpdatesOperation F32 Key Value → Prop
  | .processOneTx execResult _ =>
    updates.pendingExecutedTransactionsLen = 0 → execResult.ReadsFrom storage
  | _ => True

variable {execResult : TxExecutionResult F32 Key Value} {tx : SizedTransaction}
  {resolution : SealResolution} {version : ProtocolVersionId}

theorem processOneTx_keeps
    (hprocess : processOneTx E config updates execResult tx = some (resolution, updates')) :
    updates'.protocolVersion = updates.protocolVersion ∧ updates'.l1Batch = updates.l1Batch ∧
      updates'.l2Block = updates.l2Block := by
  cases execResult with
  | success result =>
    obtain ⟨_, _, hprocess⟩ := Option.bind_eq_some_iff.1 hprocess
    obtain ⟨_, _, hprocess⟩ := Option.bind_eq_some_iff.1 hprocess
    obtain ⟨_, rfl⟩ := Prod.mk.inj (Option.some.inj hprocess)
    exact ⟨rfl, rfl, rfl⟩
  | rejectedByVm reason | bootloaderOutOfGasForTx =>
    obtain ⟨_, rfl⟩ := Prod.mk.inj (Option.some.inj hprocess)
    exact ⟨rfl, rfl, rfl⟩

theorem processOneTx_first_failed (hfirst : updates.pendingExecutedTransactionsLen = 0)
    (hfailed : ∀ result, execResult ≠ .success result) :
    ∃ reason, processOneTx E config updates execResult tx =
      some (.unexecutable reason, updates) := by
  have houtOfGas : ∀ reason, updates.outOfGas reason = .unexecutable reason :=
    fun _ => if_pos hfirst
  cases execResult with
  | success result => exact absurd rfl (hfailed result)
  | rejectedByVm reason =>
    rw [processOneTx]
    by_cases hreason : reason = .notEnoughGasProvided
    · exact ⟨.notEnoughGasProvided, by rw [if_pos hreason, houtOfGas]⟩
    · exact ⟨.halt reason, by rw [if_neg hreason]⟩
  | bootloaderOutOfGasForTx => exact ⟨.bootloaderOutOfGas, by rw [processOneTx, houtOfGas]⟩

theorem EmptyBatch.of_processOneTx (h : EmptyBatch E storage updates)
    (hfirst : updates.pendingExecutedTransactionsLen = 0) (hreads : execResult.ReadsFrom storage)
    (hprocess : processOneTx E config updates execResult tx = some (resolution, updates')) :
    EmptyBatch E storage updates' := by
  by_cases hsuccess : ∃ result, execResult = .success result
  · obtain ⟨result, rfl⟩ := hsuccess
    obtain ⟨deduplicator, happly, hempty⟩ := h.applyAndRollback hreads
    rw [processOneTx, happly, Option.bind_eq_bind, Option.bind_some] at hprocess
    obtain ⟨_, _, hupdates⟩ := Option.bind_eq_some_iff.1 hprocess
    exact (Prod.mk.inj (Option.some.inj hupdates)).2 ▸ hempty
  · obtain ⟨reason, hfailed⟩ :=
      @processOneTx_first_failed _ _ _ _ E updates config _ _ execResult tx
      hfirst fun result hresult => hsuccess ⟨result, hresult⟩
    rw [hfailed] at hprocess
    exact (Prod.mk.inj (Option.some.inj hprocess)).2 ▸ h

/-- The pending batch is of one version, and empty unless something was executed in it. -/
structure BatchInv (E : Externals F32 F64 Value) (storage : Key → Value)
    (version : ProtocolVersionId) (updates : UpdatesManager F32 Key Value) : Prop where
  version : updates.protocolVersion = version
  empty : updates.pendingExecutedTransactionsLen = 0 → EmptyBatch E storage updates

theorem BatchInv.step (h : BatchInv E storage version updates) (hF : E.floats.Laws)
    {op : UpdatesOperation F32 Key Value} (hreads : ReadsFromStart storage updates op)
    (hstep : updates.step E config op = some updates') : BatchInv E storage version updates' := by
  cases op with
  | processOneTx execResult tx =>
    obtain ⟨⟨resolution, _⟩, hprocess, rfl⟩ := Option.map_eq_some_iff.1 hstep
    obtain ⟨hversion, hl1, hl2⟩ := processOneTx_keeps hprocess
    refine ⟨hversion.trans h.version, fun hlen => ?_⟩
    rw [UpdatesManager.pendingExecutedTransactionsLen, hl1, hl2] at hlen
    exact (h.empty hlen).of_processOneTx hlen (hreads hlen) hprocess
  | extendFromExecutedTransaction tx result =>
    cases hstep
    refine ⟨h.version, fun hlen => ?_⟩
    -- something is executed now
    have hlen' : updates.l1Batch.executedTransactions.length +
        (updates.l2Block.executedTransactions ++ [tx]).length = 0 := hlen
    rw [List.length_append, List.length_singleton] at hlen'
    omega
  | pushL2Block =>
    cases hstep
    refine ⟨h.version, fun hlen => (h.empty ?_).pushL2Block hF⟩
    have hlen' : (updates.l1Batch.executedTransactions ++
        updates.l2Block.executedTransactions).length + 0 = 0 := hlen
    rw [List.length_append] at hlen'
    exact hlen'

theorem BatchInv.of_run (hF : E.floats.Laws) {ops : List (UpdatesOperation F32 Key Value)}
    (hrun : Run ((StepRel.ofPartial (UpdatesManager.step E config)).under (ReadsFromStart storage))
      (UpdatesManager.new E version) ops updates) : BatchInv E storage version updates :=
  hrun.invariant (I := BatchInv E storage version) (fun _ _ _ h hs => h.step hF hs.2 hs.1)
    ⟨rfl, fun _ => EmptyBatch.new version⟩

end Operations

section Decision

variable [DecidableEq Key] [DecidableEq Value] {version : ProtocolVersionId}
  {result : TxSuccess F32 Key Value} {tx : SizedTransaction}

/-- **The batch with its first transaction** is the transaction: the same sizes, the same circuits,
and the gas of a new block on top of the gas of the transaction. -/
theorem EmptyBatch.sees_transaction (h : EmptyBatch E storage updates) (hF : E.floats.Laws)
    (hversion : updates.protocolVersion = version) :
    let data := txSealData E version result tx
    let block := blockSealData E updates result tx data.writesMetrics
    block.gasCount = data.gasCount.add newBlockGasCount ∧
      block.pubdataSize version = data.pubdataSize version ∧
      usedCircuits E block version = usedCircuits E data version ∧
      block.cumulativeSize = data.cumulativeSize := by
  -- what is pending is all zero, but for the gas of the block
  have hmetrics : updates.pendingExecutionMetrics E = VmExecutionMetrics.default E.floats := by
    rw [UpdatesManager.pendingExecutionMetrics, h.batchMetrics, h.l2Block]
    exact VmExecutionMetrics.default_add_default hF
  have hgas : updates.pendingL1GasCount = newBlockGasCount := by
    rw [UpdatesManager.pendingL1GasCount, h.batchGas, h.l2Block]
    exact BlockGasCount.add_zero _
  have hsize : updates.pendingTxsEncodingSize = 0 := by
    rw [UpdatesManager.pendingTxsEncodingSize, h.batchSize, h.l2Block]
    rfl
  refine ⟨?_, ?_, ?_, ?_⟩
  · rw [blockSealData, hgas, hversion]
    rfl
  · rw [SealData.pubdataSize, blockSealData, hmetrics]
    exact congrArg (· + _) (VmExecutionMetrics.size_add_default _)
  · rw [usedCircuits, blockSealData, hmetrics]
    exact congrArg (· + _) (CircuitStatistic.total_add_default hF _)
  · rw [blockSealData, hsize]
    exact add_zero _

/-- The bounds for rejecting a transaction do not exceed the hard limits. -/
structure RejectBoundsWithin (E : Externals F32 F64 Value) (config : StateKeeperConfig F64)
    (version : ProtocolVersionId) : Prop where
  gas : gasTxBound E config ≤ config.maxSingleTxGas
  pubdata : pubdataRejectBound E config ≤ config.maxPubdataPerBatch
  circuits : circuitsRejectBound E config ≤ config.maxCircuitsPerBatch
  encoding : encodingRejectBound E config version ≤
    (E.getBootloaderEncodingSpace version.toVmVersion).toUInt64

/-- The assertions of the criteria for slots and circuits. -/
structure CriteriaAssertions (config : StateKeeperConfig F64) (version : ProtocolVersionId) :
    Prop where
  slots : config.transactionSlots ≤ getBootloaderMaxTxsInBatch version.toVmVersion
  circuits : config.maxCircuitsPerBatch ≤ getMaxBatchBaseLayerCircuits version.toVmVersion ∧
    circuitStatisticsBootloaderBatchTipOverhead version.toVmVersion < config.maxCircuitsPerBatch

def RejectedElsewhere (E : Externals F32 F64 Value) (config : StateKeeperConfig F64)
    (version : ProtocolVersionId) (data : SealData F32) : Prop :=
  (data.gasCount.add newBlockGasCount).AnyFieldGreaterThan (gasTxBound E config) ∨
    circuitsRejectBound E config ≤ usedCircuits E data version ∨
    encodingRejectBound E config version < data.cumulativeSize ∨
    data.gasRemaining < gasBootloaderBatchTipOverhead version.toVmVersion

/-- The pubdata that was published is no measure for the transaction, or is enough to reject it, or
the batch is not too large by the other measure. -/
def PubdataAgrees (E : Externals F32 F64 Value) (config : StateKeeperConfig F64)
    (version : ProtocolVersionId) (data : SealData F32) : Prop :=
  let overhead := executionMetricsBootloaderBatchTipOverhead version.toVmVersion
  data.executionMetrics.pubdataPublished = 0 ∨
    pubdataRejectBound E config < data.executionMetrics.pubdataPublished.toUInt64 + overhead ∨
    data.pubdataSize version + overhead ≤ config.maxPubdataPerBatch

/-- When the first transaction of a batch is included or rejected. -/
def FirstTxDecided (E : Externals F32 F64 Value) (config : StateKeeperConfig F64)
    (version : ProtocolVersionId) : TxExecutionResult F32 Key Value → SizedTransaction → Prop
  | .success result, tx =>
    CriteriaAssertions config version ∧
      (PubdataAgrees E config version (txSealData E version result tx) ∨
        RejectedElsewhere E config version (txSealData E version result tx))
  | _, _ => True

theorem lt_of_bound_le {bound limit x : UInt64} (hle : bound ≤ limit) (h : limit < x) : bound < x :=
  UInt64.lt_of_le_of_ne (UInt64.le_trans hle (UInt64.le_of_lt h)) fun heq =>
    absurd hle (UInt64.not_le.2 (heq ▸ h))

theorem BlockGasCount.AnyFieldGreaterThan.mono {gas : BlockGasCount} {bound limit : UInt32}
    (hle : bound ≤ limit) (h : gas.AnyFieldGreaterThan limit) : gas.AnyFieldGreaterThan bound := by
  have hlt : ∀ x : UInt32, limit < x → bound < x := fun x hx =>
    UInt32.not_le.1 fun hxb => absurd (UInt32.le_trans hxb hle) (UInt32.not_le.2 hx)
  exact h.imp (hlt _) (Or.imp (hlt _) (hlt _))

omit [DecidableEq Value] in
/-- **The criteria on the first transaction.**  When the batch is the transaction, only the
criterion for pubdata can exclude it. -/
theorem shouldSealL1Batch_first (hbounds : RejectBoundsWithin E config version)
    (hassertions : CriteriaAssertions config version) {block data : SealData F32}
    (hgas : block.gasCount = data.gasCount.add newBlockGasCount)
    (hpubdata : block.pubdataSize version = data.pubdataSize version)
    (hcircuits : usedCircuits E block version = usedCircuits E data version)
    (hsize : block.cumulativeSize = data.cumulativeSize) :
    ∃ resolution, shouldSealL1Batch E config 1 block data version = some resolution ∧
      (resolution ≠ .excludeAndSeal ↔
        PubdataAgrees E config version data ∨ RejectedElsewhere E config version data) := by
  obtain ⟨slots, hslots, hslotsRejects, hslotsExcludes⟩ :=
    (@slotsCriterion_answers _ config 1 version hassertions.slots).of_imp id
  have hgasAnswers : SealResolution.Answers (gasCriterion E config block data) _ _ :=
    SealResolution.answers_bounded _ _ _ _
  obtain ⟨gas, hgasAnswer, hgasRejects, hgasExcludes⟩ := hgasAnswers.of_imp fun hexcludes => by
    rw [hgas] at hexcludes
    exact hexcludes.mono hbounds.gas
  obtain ⟨pubdata, hpubdataAnswer, -, hpubdataExcludes⟩ :
      SealResolution.Answers (pubDataBytesCriterion E config block data version) _ _ :=
    SealResolution.answers_bounded _ _ _ _
  have hcircuitsAnswers :
    SealResolution.Answers (circuitsCriterion E config block data version) _ _ :=
    (congrArg (SealResolution.Answers · _ _) (if_pos hassertions.circuits)).mpr
      (SealResolution.answers_bounded _ _ _ _)
  obtain ⟨circuits, hcircuitsAnswer, hcircuitsRejects, hcircuitsExcludes⟩ := hcircuitsAnswers.of_imp
    fun hexcludes => UInt64.le_trans hbounds.circuits (hcircuits ▸ hexcludes)
  have hencodingAnswers :
      SealResolution.Answers (txEncodingSizeCriterion E config block data version) _ _ :=
    SealResolution.answers_bounded _ _ _ _
  obtain ⟨encoding, hencodingAnswer, hencodingRejects, hencodingExcludes⟩ := hencodingAnswers.of_imp
    fun hexcludes => lt_of_bound_le hbounds.encoding (hsize ▸ hexcludes)
  obtain ⟨tip, htipAnswer, htipRejects, htipExcludes⟩ :=
    (@gasForBatchTipCriterion_answers _ data version).of_imp False.elim
  have hanswers : defaultSealers E config 1 block data version =
      [slots, gas, pubdata, circuits, encoding, tip].map some := by
    rw [defaultSealers, hslots, hgasAnswer, hpubdataAnswer, hcircuitsAnswer, hencodingAnswer,
      htipAnswer]
    rfl
  refine ⟨_, by rw [shouldSealL1Batch, hanswers, SealResolution.foldlM_stricter], ?_⟩
  have hfold : ([slots, gas] ++ pubdata :: [circuits, encoding, tip]).foldl SealResolution.stricter
        .noSeal = .excludeAndSeal ↔
      pubdata = .excludeAndSeal ∧ ¬ RejectedElsewhere E config version data := by
    rw [SealResolution.foldl_stricter_of_single]
    · simp only [List.cons_append, List.nil_append, List.forall_mem_cons, hslotsRejects,
        hgasRejects, hcircuitsRejects, hencodingRejects, htipRejects, RejectedElsewhere, not_or]
      simp
    · simp only [List.cons_append, List.nil_append, List.forall_mem_cons]
      exact ⟨hslotsExcludes, hgasExcludes, hcircuitsExcludes, hencodingExcludes, htipExcludes,
        by simp⟩
  refine (not_congr hfold).trans ?_
  rw [not_and_or, not_not, hpubdataExcludes, hpubdata]
  refine or_congr_left ?_
  -- the transaction is measured like the batch when the published pubdata is not counted
  rw [PubdataAgrees, SealData.txPubdataSize]
  by_cases hzero : data.executionMetrics.pubdataPublished = 0
  · rw [if_pos hzero]
    refine iff_of_true ?_ (.inl hzero)
    rintro ⟨hnot, hexceeds⟩
    exact hnot (lt_of_bound_le hbounds.pubdata hexceeds)
  · rw [if_neg hzero, not_and_or, not_not, UInt64.not_lt]
    exact (or_iff_right hzero).symm

omit [DecidableEq Value] in
theorem shouldSealL1Batch_of_not_assertions (h : ¬ CriteriaAssertions config version)
    (txCount : UInt64) (block data : SealData F32) :
    shouldSealL1Batch E config txCount block data version = none := by
  refine SealResolution.foldlM_stricter_of_none ?_ _
  by_cases hslots : config.transactionSlots ≤ getBootloaderMaxTxsInBatch version.toVmVersion
  · have hcircuits : circuitsCriterion E config block data version = none :=
      if_neg fun hcircuits => h ⟨hslots, hcircuits⟩
    rw [defaultSealers, hcircuits]
    simp
  · have hnone : slotsCriterion config txCount version = none := if_neg hslots
    rw [defaultSealers, hnone]
    exact List.mem_cons_self

/-- **The first transaction of a batch** is included or rejected exactly when the execution failed,
or the assertions of the criteria hold and the two measures of pubdata agree or another criterion
rejects it. -/
theorem processOneTx_first_iff (hF : E.floats.Laws) (hbounds : RejectBoundsWithin E config version)
    {ops : List (UpdatesOperation F32 Key Value)}
    (hrun : Run ((StepRel.ofPartial (UpdatesManager.step E config)).under (ReadsFromStart storage))
      (UpdatesManager.new E version) ops updates)
    (hfirst : updates.pendingExecutedTransactionsLen = 0)
    {execResult : TxExecutionResult F32 Key Value} (hreads : execResult.ReadsFrom storage)
    (tx : SizedTransaction) :
    (∃ resolution updates', processOneTx E config updates execResult tx =
        some (resolution, updates') ∧ resolution ≠ .excludeAndSeal) ↔
      FirstTxDecided E config version execResult tx := by
  obtain ⟨hversion, hempty⟩ := BatchInv.of_run hF hrun
  cases execResult with
  | success result =>
    obtain ⟨deduplicator, happly, _⟩ := (hempty hfirst).applyAndRollback hreads
    obtain ⟨hgas, hpubdata, hcircuits, hsize⟩ :=
      @EmptyBatch.sees_transaction _ _ _ _ E storage updates _ _ version result tx
        (hempty hfirst) hF
        hversion
    have hprocess : processOneTx E config updates (.success result) tx =
        (shouldSealL1Batch E config 1
          (blockSealData E updates result tx (txSealData E version result tx).writesMetrics)
          (txSealData E version result tx) version).map fun resolution =>
            (resolution, { updates with storageWritesDeduplicator := deduplicator }) := by
      rw [processOneTx, happly, Option.bind_eq_bind, Option.bind_some, hfirst, hversion,
        Option.map_eq_bind]
      rfl
    rw [hprocess]
    -- without the assertions there is no decision at all
    by_cases hassertions : CriteriaAssertions config version
    · obtain ⟨resolution, hresolution, hiff⟩ :=
        shouldSealL1Batch_first hbounds hassertions hgas hpubdata hcircuits hsize
      rw [hresolution, Option.map_some]
      constructor
      · rintro ⟨_, _, hsome, hne⟩
        obtain ⟨rfl, _⟩ := Prod.mk.inj (Option.some.inj hsome)
        exact ⟨hassertions, hiff.1 hne⟩
      · rintro ⟨_, hdecided⟩
        exact ⟨resolution, _, rfl, hiff.2 hdecided⟩
    · rw [shouldSealL1Batch_of_not_assertions hassertions, Option.map_none]
      refine iff_of_false ?_ fun hdecided => hassertions hdecided.1
      rintro ⟨_, _, hnone, _⟩
      cases hnone
  -- a failed execution is rejected before any criterion is asked
  | rejectedByVm reason =>
    obtain ⟨reason, hfailed⟩ := @processOneTx_first_failed _ _ _ _ E updates config _ _
      (.rejectedByVm reason) tx hfirst (by rintro _ ⟨⟩)
    exact iff_of_true ⟨_, _, hfailed, by rintro ⟨⟩⟩ trivial
  | bootloaderOutOfGasForTx =>
    obtain ⟨reason, hfailed⟩ := @processOneTx_first_failed _ _ _ _ E updates config _ _
      .bootloaderOutOfGasForTx tx hfirst (by rintro _ ⟨⟩)
    exact iff_of_true ⟨_, _, hfailed, by rintro ⟨⟩⟩ trivial

end Decision

/-! ### A transaction that seals empty batches -/

def wholeExternals : Externals ℕ ℕ ℕ where
  floats := ⟨0, (· + ·), UInt64.ofNat, fun n percentage =>
    UInt64.ofNat ((n.toNat * percentage + 50) / 100)⟩
  getBootloaderEncodingSpace := fun _ => 336985
  compressedLen := fun _ _ => 2

theorem wholeExternals_laws : wholeExternals.floats.Laws :=
  ⟨rfl, fun x => congrArg UInt64.ofNat (Nat.add_zero x)⟩

def sampleSealConfig : StateKeeperConfig ℕ where
  transactionSlots := 8192
  maxSingleTxGas := 15000000
  rejectTxAtGeometryPercentage := 95
  rejectTxAtEthParamsPercentage := 95
  rejectTxAtGasPercentage := 95
  closeBlockAtGeometryPercentage := 95
  closeBlockAtEthParamsPercentage := 95
  closeBlockAtGasPercentage := 95
  maxPubdataPerBatch := 120000
  maxCircuitsPerBatch := 31100

theorem sampleSealConfig_within : RejectBoundsWithin wholeExternals sampleSealConfig .version24 :=
  ⟨by decide, by decide, by decide, by decide⟩

/-- An execution that publishes bytecode, with a write of one slot.  The bytecode is compressed in
the pubdata. -/
def sampleExecution (publishedBytecodeBytes : UInt64) (pubdataPublished : UInt32) :
    TxSuccess ℕ ℕ ℕ where
  storageLogs := [⟨.initialWrite, 1, 5, 0⟩]
  l1Gas := ⟨publishedBytecodeBytes.toUInt32 * 18, 0, 0⟩
  executionMetrics := ⟨publishedBytecodeBytes, 0, 0, pubdataPublished,
    CircuitStatistic.default wholeExternals.floats⟩
  gasRemaining := 1000000000

theorem processOneTx_first_iff_sample :
    ∃ updates : UpdatesManager ℕ ℕ ℕ,
      updates.pendingExecutedTransactionsLen = 0 ∧
      ∃ resolution updates', processOneTx wholeExternals sampleSealConfig updates
        (.success (sampleExecution 40000 30000)) ⟨100, 100⟩ = some (resolution, updates') ∧
          resolution ≠ .excludeAndSeal := by
  have hrun : Run ((StepRel.ofPartial (UpdatesManager.step wholeExternals sampleSealConfig)).under
      (ReadsFromStart fun _ : ℕ => 0)) (UpdatesManager.new wholeExternals .version24)
      [.processOneTx (.rejectedByVm .fromIsNotAnAccount) ⟨100, 100⟩, .pushL2Block]
      ((UpdatesManager.new wholeExternals .version24).pushL2Block wholeExternals) :=
    .cons ⟨rfl, fun _ => trivial⟩ (.cons ⟨rfl, trivial⟩ (.nil _))
  have hreads : (TxExecutionResult.success (sampleExecution 40000 30000)).ReadsFrom
      (fun _ => 0) := ⟨rfl, trivial⟩
  refine ⟨_, rfl, (processOneTx_first_iff wholeExternals_laws sampleSealConfig_within hrun rfl
    hreads _).2 ?_⟩
  exact ⟨⟨by decide, by decide⟩, .inl (.inr (.inr (by decide)))⟩

/-- **A first transaction that is excluded.**  Its bytecode does not fit into a batch unless it is
compressed: it is not rejected, and the empty batch is sealed. -/
theorem processOneTx_excludes_first :
    RejectBoundsWithin wholeExternals sampleSealConfig .version24 ∧
    (TxExecutionResult.success (sampleExecution 130000 60000)).ReadsFrom (fun _ => 0) ∧
    ∃ updates', processOneTx wholeExternals sampleSealConfig
      (UpdatesManager.new wholeExternals .version24) (.success (sampleExecution 130000 60000))
        ⟨100, 100⟩ = some (.excludeAndSeal, updates') := by
  refine ⟨sampleSealConfig_within, ⟨rfl, trivial⟩, ?_⟩
  have hfst : (processOneTx wholeExternals sampleSealConfig
      (UpdatesManager.new wholeExternals .version24) (.success (sampleExecution 130000 60000))
        ⟨100, 100⟩).map Prod.fst = some .excludeAndSeal := by
    decide +kernel
  obtain ⟨⟨_, updates'⟩, hprocess, rfl⟩ := Option.map_eq_some_iff.1 hfst
  exact ⟨updates', hprocess⟩
