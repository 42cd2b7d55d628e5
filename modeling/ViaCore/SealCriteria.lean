/-
Seal criteria: what the state keeper does with a batch after a transaction is executed.

Each criterion compares the transaction alone with a bound for rejecting it, and the batch with the
transaction with a hard limit.  The strictest of the answers counts.  A transaction that fits into a
batch of its own is never rejected, and a batch that is full is sealed without the transaction,
which then comes first in the next one.

* `UpdatesManager`, `processOneTx` — the pending batch, and the decision.
-/
import ViaCore.Deduplicator

/-! ### Versions -/

inductive VmVersion where
  | m5WithoutRefunds
  | m5WithRefunds
  | m6Initial
  | m6BugWithCompressionFixed
  | vm1_3_2
  | vmVirtualBlocks
  | vmVirtualBlocksRefundsEnhancement
  | vmBoojumIntegration
  | vm1_4_1
  | vm1_4_2
  | vm1_5_0SmallBootloaderMemory
  | vm1_5_0IncreasedBootloaderMemory
  deriving DecidableEq

inductive ProtocolVersionId where
  | version0
  | version1
  | version2
  | version3
  | version4
  | version5
  | version6
  | version7
  | version8
  | version9
  | version10
  | version11
  | version12
  | version13
  | version14
  | version15
  | version16
  | version17
  | version18
  | version19
  | version20
  | version21
  | version22
  | version23
  | version24
  | version25
  deriving DecidableEq

def ProtocolVersionId.toVmVersion : ProtocolVersionId → VmVersion
  | .version0 | .version1 => .m5WithoutRefunds
  | .version2 | .version3 => .m5WithRefunds
  | .version4 => .m6Initial
  | .version5 | .version6 => .m6BugWithCompressionFixed
  | .version7 | .version8 | .version9 | .version10 | .version11 | .version12 => .vm1_3_2
  | .version13 | .version14 | .version15 => .vmVirtualBlocks
  | .version16 | .version17 => .vmVirtualBlocksRefundsEnhancement
  | .version18 | .version19 => .vmBoojumIntegration
  | .version20 => .vm1_4_1
  | .version21 | .version22 => .vm1_4_2
  | .version23 => .vm1_5_0SmallBootloaderMemory
  | .version24 | .version25 => .vm1_5_0IncreasedBootloaderMemory

def ProtocolVersionId.isPreBoojum (version : ProtocolVersionId) : Bool :=
  version.ctorIdx ≤ ProtocolVersionId.version17.ctorIdx

def getBootloaderMaxTxsInBatch : VmVersion → UInt64
  | .vm1_4_1 | .vm1_4_2 | .vm1_5_0SmallBootloaderMemory | .vm1_5_0IncreasedBootloaderMemory => 10000
  | _ => 1024

def gasBootloaderBatchTipOverhead : VmVersion → UInt32
  | .vmBoojumIntegration | .vm1_4_1 => 80000000
  | .vm1_4_2 => 170000000
  | .vm1_5_0SmallBootloaderMemory | .vm1_5_0IncreasedBootloaderMemory => 400000000
  | _ => 0

def circuitStatisticsBootloaderBatchTipOverhead : VmVersion → UInt64
  | .vm1_4_2 => 5000
  | .vm1_5_0SmallBootloaderMemory | .vm1_5_0IncreasedBootloaderMemory => 12000
  | _ => 0

def executionMetricsBootloaderBatchTipOverhead : VmVersion → UInt64
  | .vm1_4_2 => 1500
  | .vm1_5_0SmallBootloaderMemory | .vm1_5_0IncreasedBootloaderMemory => 2000
  | _ => 0

def getMaxBatchBaseLayerCircuits : VmVersion → UInt64
  | .vm1_5_0SmallBootloaderMemory | .vm1_5_0IncreasedBootloaderMemory => 34100
  | _ => 24100

def DeduplicatedWritesMetrics.size (metrics : DeduplicatedWritesMetrics)
    (version : ProtocolVersionId) : UInt64 :=
  if version.isPreBoojum then
    metrics.initialStorageWrites * 64 + metrics.repeatedStorageWrites * 40
  else
    metrics.totalUpdatedValuesSize + 32 * metrics.initialStorageWrites
      + 4 * metrics.repeatedStorageWrites

/-- The floating point numbers of the source, with the operations on them that are used. -/
structure Floats (F32 F64 : Type) where
  zero : F32
  add : F32 → F32 → F32
  /-- `x.ceil() as usize` -/
  ceil : F32 → UInt64
  /-- `(n as f64 * percentage).round() as usize` -/
  scaled : UInt64 → F64 → UInt64

/-- What is used of `f32`: zero is neutral. -/
structure Floats.Laws {F32 F64 : Type} (F : Floats F32 F64) : Prop where
  add_zero_zero : F.add F.zero F.zero = F.zero
  ceil_add_zero : ∀ x, F.ceil (F.add x F.zero) = F.ceil x

structure CircuitStatistic (F32 : Type) where
  mainVm : F32
  ramPermutation : F32
  storageApplication : F32
  storageSorter : F32
  codeDecommitter : F32
  codeDecommitterSorter : F32
  logDemuxer : F32
  eventsSorter : F32
  keccak256 : F32
  ecrecover : F32
  sha256 : F32
  secp256k1Verify : F32
  transientStorageChecker : F32

structure VmExecutionMetrics (F32 : Type) where
  publishedBytecodeBytes : UInt64
  l2L1LongMessages : UInt64
  l2ToL1Logs : UInt64
  pubdataPublished : UInt32
  circuitStatistic : CircuitStatistic F32

structure BlockGasCount where
  commit : UInt32
  prove : UInt32
  execute : UInt32
  deriving DecidableEq

namespace BlockGasCount

def add (self other : BlockGasCount) : BlockGasCount :=
  ⟨self.commit + other.commit, self.prove + other.prove, self.execute + other.execute⟩

def AnyFieldGreaterThan (self : BlockGasCount) (bound : UInt32) : Prop :=
  bound < self.commit ∨ bound < self.prove ∨ bound < self.execute

instance decidableAnyFieldGreaterThan (self : BlockGasCount) (bound : UInt32) :
    Decidable (self.AnyFieldGreaterThan bound) := by
  unfold AnyFieldGreaterThan
  infer_instance

end BlockGasCount

namespace CircuitStatistic

variable {F32 F64 : Type} (F : Floats F32 F64)

def default : CircuitStatistic F32 :=
  ⟨F.zero, F.zero, F.zero, F.zero, F.zero, F.zero, F.zero, F.zero, F.zero, F.zero, F.zero, F.zero,
    F.zero⟩

def add (self other : CircuitStatistic F32) : CircuitStatistic F32 where
  mainVm := F.add self.mainVm other.mainVm
  ramPermutation := F.add self.ramPermutation other.ramPermutation
  storageApplication := F.add self.storageApplication other.storageApplication
  storageSorter := F.add self.storageSorter other.storageSorter
  codeDecommitter := F.add self.codeDecommitter other.codeDecommitter
  codeDecommitterSorter := F.add self.codeDecommitterSorter other.codeDecommitterSorter
  logDemuxer := F.add self.logDemuxer other.logDemuxer
  eventsSorter := F.add self.eventsSorter other.eventsSorter
  keccak256 := F.add self.keccak256 other.keccak256
  ecrecover := F.add self.ecrecover other.ecrecover
  sha256 := F.add self.sha256 other.sha256
  secp256k1Verify := F.add self.secp256k1Verify other.secp256k1Verify
  transientStorageChecker := F.add self.transientStorageChecker other.transientStorageChecker

def total (self : CircuitStatistic F32) : UInt64 :=
  F.ceil self.mainVm + F.ceil self.ramPermutation + F.ceil self.storageApplication
    + F.ceil self.storageSorter + F.ceil self.codeDecommitter + F.ceil self.codeDecommitterSorter
    + F.ceil self.logDemuxer + F.ceil self.eventsSorter + F.ceil self.keccak256
    + F.ceil self.ecrecover + F.ceil self.sha256 + F.ceil self.secp256k1Verify
    + F.ceil self.transientStorageChecker

variable {F}

theorem default_add_default (h : F.Laws) : (default F).add F (default F) = default F := by
  simp only [add, default, h.add_zero_zero]

theorem total_add_default (h : F.Laws) (self : CircuitStatistic F32) :
    (self.add F (default F)).total F = self.total F := by
  simp only [total, add, default, h.ceil_add_zero]

end CircuitStatistic

namespace VmExecutionMetrics

variable {F32 F64 : Type} (F : Floats F32 F64)

def default : VmExecutionMetrics F32 := ⟨0, 0, 0, 0, CircuitStatistic.default F⟩

def add (self other : VmExecutionMetrics F32) : VmExecutionMetrics F32 where
  publishedBytecodeBytes := self.publishedBytecodeBytes + other.publishedBytecodeBytes
  l2L1LongMessages := self.l2L1LongMessages + other.l2L1LongMessages
  l2ToL1Logs := self.l2ToL1Logs + other.l2ToL1Logs
  pubdataPublished := self.pubdataPublished + other.pubdataPublished
  circuitStatistic := self.circuitStatistic.add F other.circuitStatistic

def size (self : VmExecutionMetrics F32) : UInt64 :=
  self.l2ToL1Logs * 88 + self.l2L1LongMessages + self.publishedBytecodeBytes + self.l2ToL1Logs * 4

variable {F}

theorem default_add_default (h : F.Laws) : (default F).add F (default F) = default F := by
  rw [add, default, CircuitStatistic.default_add_default h]
  rfl

theorem size_add_default (self : VmExecutionMetrics F32) :
    (self.add F (default F)).size = self.size := by
  simp only [size, add, default, add_zero]

end VmExecutionMetrics

def newBlockGasCount : BlockGasCount := ⟨31000, 7000, 30000⟩

/-- Only the commit operation pays for writes, 18 gas for a byte. -/
def gasCountFromWrites (metrics : DeduplicatedWritesMetrics) (version : ProtocolVersionId) :
    BlockGasCount :=
  ⟨(metrics.size version).toUInt32 * 18, 0, 0⟩

/-! ### Resolutions -/

/-- Reasons for which the virtual machine stops, with the texts that it gives. -/
inductive Halt where
  | validationFailed (reason : String)
  | paymasterValidationFailed (reason : String)
  | prePaymasterPreparationFailed (reason : String)
  | payForTxFailed (reason : String)
  | failedToMarkFactoryDependencies (reason : String)
  | failedToChargeFee (reason : String)
  | fromIsNotAnAccount
  | innerTxError
  | unknown (reason : String)
  | unexpectedVMBehavior (problem : String)
  | bootloaderOutOfGas
  | validationOutOfGas
  | tooBigGasLimit
  | notEnoughGasProvided
  | missingInvocationLimitReached
  | failedToSetL2Block (reason : String)
  | failedToAppendTransactionToL2Block (reason : String)
  | vmPanic
  | tracerCustom (reason : String)
  | failedToPublishCompressedBytecodes
  deriving DecidableEq

inductive UnexecutableReason where
  | halt (halt : Halt)
  | txEncodingSize
  | largeEncodingSize
  | pubdataLimit
  | proofWillFail
  | tooMuchGas
  | outOfGasForBatchTip
  | bootloaderOutOfGas
  | notEnoughGasProvided
  deriving DecidableEq

inductive SealResolution where
  | noSeal
  | includeAndSeal
  | excludeAndSeal
  | unexecutable (reason : UnexecutableReason)
  deriving DecidableEq

namespace SealResolution

def stricter : SealResolution → SealResolution → SealResolution
  | .unexecutable reason, _ => .unexecutable reason
  | _, .unexecutable reason => .unexecutable reason
  | .excludeAndSeal, _ => .excludeAndSeal
  | _, .excludeAndSeal => .excludeAndSeal
  | .includeAndSeal, _ => .includeAndSeal
  | _, .includeAndSeal => .includeAndSeal
  | .noSeal, .noSeal => .noSeal

def IsUnexecutable : SealResolution → Prop
  | .unexecutable _ => True
  | _ => False

theorem isUnexecutable_stricter (a b : SealResolution) :
    (a.stricter b).IsUnexecutable ↔ a.IsUnexecutable ∨ b.IsUnexecutable := by
  cases a <;> cases b <;> simp [stricter, IsUnexecutable]

theorem stricter_eq_excludeAndSeal {a b : SealResolution} :
    a.stricter b = .excludeAndSeal ↔
      (a = .excludeAndSeal ∨ b = .excludeAndSeal) ∧ ¬ a.IsUnexecutable ∧ ¬ b.IsUnexecutable := by
  cases a <;> cases b <;> simp [stricter, IsUnexecutable]

theorem foldl_stricter_eq_excludeAndSeal (resolutions : List SealResolution) (a : SealResolution) :
    resolutions.foldl stricter a = .excludeAndSeal ↔
      (a = .excludeAndSeal ∨ .excludeAndSeal ∈ resolutions) ∧
        ¬ a.IsUnexecutable ∧ ∀ b ∈ resolutions, ¬ b.IsUnexecutable := by
  induction resolutions generalizing a with
  | nil =>
    cases a <;> simp [IsUnexecutable]
  | cons b resolutions ih =>
    rw [List.foldl_cons, ih, stricter_eq_excludeAndSeal, isUnexecutable_stricter, not_or,
      List.forall_mem_cons, List.mem_cons]
    tauto

theorem foldl_stricter_of_single {before after : List SealResolution} {a : SealResolution}
    (hothers : ∀ b ∈ before ++ after, b ≠ .excludeAndSeal) :
    (before ++ a :: after).foldl stricter .noSeal = .excludeAndSeal ↔
      a = .excludeAndSeal ∧ ∀ b ∈ before ++ after, ¬ b.IsUnexecutable := by
  have hmem : ∀ b, b ∈ before ++ a :: after ↔ b = a ∨ b ∈ before ++ after := by
    intro b
    rw [List.mem_append, List.mem_cons, List.mem_append]
    tauto
  rw [foldl_stricter_eq_excludeAndSeal]
  constructor
  · rintro ⟨hexcludes | hexcludes, _, hnone⟩
    · cases hexcludes
    · refine ⟨?_, fun b hb => hnone b ((hmem b).2 (.inr hb))⟩
      rcases (hmem _).1 hexcludes with ha | hb
      · exact ha.symm
      · exact absurd rfl (hothers _ hb)
  · rintro ⟨rfl, hnone⟩
    refine ⟨.inr ((hmem _).2 (.inl rfl)), id, fun b hb => ?_⟩
    rcases (hmem b).1 hb with rfl | hb
    · exact id
    · exact hnone b hb

theorem foldlM_stricter (resolutions : List SealResolution) (a : SealResolution) :
    (resolutions.map some).foldlM (fun resolution answer => answer.map resolution.stricter) a =
      some (resolutions.foldl stricter a) := by
  induction resolutions generalizing a with
  | nil => rfl
  | cons b resolutions ih => exact ih (a.stricter b)

theorem foldlM_stricter_of_none {answers : List (Option SealResolution)} (h : none ∈ answers)
    (a : SealResolution) :
    answers.foldlM (fun resolution answer => answer.map resolution.stricter) a = none := by
  induction answers generalizing a with
  | nil => cases h
  | cons answer answers ih =>
    rw [List.foldlM_cons]
    cases answer with
    | none => rfl
    | some b => exact ih (List.mem_of_ne_of_mem (Option.some_ne_none b).symm h) (a.stricter b)

/-- The answer of a criterion with a bound for rejecting and two for sealing. -/
def bounded (reason : UnexecutableReason) (rejects excludes includes : Bool) : SealResolution :=
  if rejects then .unexecutable reason
  else if excludes then .excludeAndSeal
  else if includes then .includeAndSeal
  else .noSeal

/-- What an answer says: when it rejects, and when it excludes. -/
def Answers (answer : Option SealResolution) (rejects excludes : Prop) : Prop :=
  ∃ resolution, answer = some resolution ∧ (resolution.IsUnexecutable ↔ rejects) ∧
    (resolution = .excludeAndSeal ↔ ¬ rejects ∧ excludes)

theorem answers_bounded (reason : UnexecutableReason) (rejects excludes : Prop)
    [Decidable rejects] [Decidable excludes] (includes : Bool) :
    Answers (some (bounded reason (decide rejects) (decide excludes) includes))
      rejects excludes := by
  refine ⟨_, rfl, ?_⟩
  by_cases hrejects : rejects <;> by_cases hexcludes : excludes <;> cases includes <;>
    simp [bounded, IsUnexecutable, hrejects, hexcludes]

theorem Answers.of_imp {answer : Option SealResolution} {rejects excludes : Prop}
    (h : Answers answer rejects excludes) (himp : excludes → rejects) :
    ∃ resolution, answer = some resolution ∧ (resolution.IsUnexecutable ↔ rejects) ∧
      resolution ≠ .excludeAndSeal := by
  obtain ⟨resolution, hanswer, hrejects, hexcludes⟩ := h
  refine ⟨resolution, hanswer, hrejects, fun heq => ?_⟩
  obtain ⟨hnot, hexcludes⟩ := hexcludes.1 heq
  exact hnot (himp hexcludes)

end SealResolution

/-! ### Criteria -/

/-- Code outside of the state keeper: floating point numbers, the sizes of the memory of the virtual
machines, and the compression of values. -/
structure Externals (F32 F64 Value : Type) where
  floats : Floats F32 F64
  getBootloaderEncodingSpace : VmVersion → UInt32
  compressedLen : Value → Value → UInt64

structure StateKeeperConfig (F64 : Type) where
  transactionSlots : UInt64
  maxSingleTxGas : UInt32
  rejectTxAtGeometryPercentage : F64
  rejectTxAtEthParamsPercentage : F64
  rejectTxAtGasPercentage : F64
  closeBlockAtGeometryPercentage : F64
  closeBlockAtEthParamsPercentage : F64
  closeBlockAtGasPercentage : F64
  maxPubdataPerBatch : UInt64
  maxCircuitsPerBatch : UInt64

structure SealData (F32 : Type) where
  executionMetrics : VmExecutionMetrics F32
  gasCount : BlockGasCount
  cumulativeSize : UInt64
  writesMetrics : DeduplicatedWritesMetrics
  gasRemaining : UInt32

/-- A saturating cast. -/
def asU32 (n : UInt64) : UInt32 := if n < 4294967296 then n.toUInt32 else 4294967295

section Criteria

variable {F32 F64 Value : Type} (E : Externals F32 F64 Value) (config : StateKeeperConfig F64)
  (txCount : UInt64) (blockData txData : SealData F32) (version : ProtocolVersionId)

/-- `none` is a failed assertion, here and in the criterion for circuits. -/
def slotsCriterion : Option SealResolution :=
  if config.transactionSlots ≤ getBootloaderMaxTxsInBatch version.toVmVersion then
    some (if config.transactionSlots ≤ txCount then .includeAndSeal else .noSeal)
  else none

def gasTxBound : UInt32 :=
  asU32 (E.floats.scaled config.maxSingleTxGas.toUInt64 config.rejectTxAtGasPercentage)

def gasCriterion : Option SealResolution :=
  let blockBound :=
    asU32 (E.floats.scaled config.maxSingleTxGas.toUInt64 config.closeBlockAtGasPercentage)
  some (.bounded .tooMuchGas
    ((txData.gasCount.add newBlockGasCount).AnyFieldGreaterThan (gasTxBound E config))
    (blockData.gasCount.AnyFieldGreaterThan config.maxSingleTxGas)
    (blockData.gasCount.AnyFieldGreaterThan blockBound))

def pubdataRejectBound : UInt64 :=
  E.floats.scaled config.maxPubdataPerBatch config.rejectTxAtEthParamsPercentage

def SealData.pubdataSize (data : SealData F32) (version : ProtocolVersionId) : UInt64 :=
  data.executionMetrics.size + data.writesMetrics.size version

/-- The published pubdata, if the virtual machine counts it. -/
def SealData.txPubdataSize (data : SealData F32) (version : ProtocolVersionId) : UInt64 :=
  if data.executionMetrics.pubdataPublished = 0 then data.pubdataSize version
  else data.executionMetrics.pubdataPublished.toUInt64

def pubDataBytesCriterion : Option SealResolution :=
  let includeAndSealBound :=
    E.floats.scaled config.maxPubdataPerBatch config.closeBlockAtEthParamsPercentage
  let overhead := executionMetricsBootloaderBatchTipOverhead version.toVmVersion
  some (.bounded .pubdataLimit
    (pubdataRejectBound E config < txData.txPubdataSize version + overhead)
    (config.maxPubdataPerBatch < blockData.pubdataSize version + overhead)
    (includeAndSealBound < blockData.pubdataSize version + overhead))

def circuitsRejectBound : UInt64 :=
  E.floats.scaled config.maxCircuitsPerBatch config.rejectTxAtGeometryPercentage

def usedCircuits (data : SealData F32) (version : ProtocolVersionId) : UInt64 :=
  data.executionMetrics.circuitStatistic.total E.floats
    + circuitStatisticsBootloaderBatchTipOverhead version.toVmVersion

def circuitsCriterion : Option SealResolution :=
  if config.maxCircuitsPerBatch ≤ getMaxBatchBaseLayerCircuits version.toVmVersion ∧
      circuitStatisticsBootloaderBatchTipOverhead version.toVmVersion < config.maxCircuitsPerBatch
  then
    let includeAndSealBound :=
      E.floats.scaled config.maxCircuitsPerBatch config.closeBlockAtGeometryPercentage
    some (.bounded .proofWillFail
      (circuitsRejectBound E config ≤ usedCircuits E txData version)
      (config.maxCircuitsPerBatch ≤ usedCircuits E blockData version)
      (includeAndSealBound ≤ usedCircuits E blockData version))
  else none

def encodingRejectBound : UInt64 :=
  E.floats.scaled (E.getBootloaderEncodingSpace version.toVmVersion).toUInt64
    config.rejectTxAtGeometryPercentage

def txEncodingSizeCriterion : Option SealResolution :=
  let encodingSpace := (E.getBootloaderEncodingSpace version.toVmVersion).toUInt64
  let includeAndSealBound := E.floats.scaled encodingSpace config.closeBlockAtGeometryPercentage
  some (.bounded .largeEncodingSize
    (encodingRejectBound E config version < txData.cumulativeSize)
    (encodingSpace < blockData.cumulativeSize)
    (includeAndSealBound < blockData.cumulativeSize))

def gasForBatchTipCriterion : Option SealResolution :=
  some (if txData.gasRemaining < gasBootloaderBatchTipOverhead version.toVmVersion then
    if txCount = 1 then .unexecutable .outOfGasForBatchTip else .excludeAndSeal
  else .noSeal)

/-- The answers of the criteria of the sequencer, in order. -/
def defaultSealers : List (Option SealResolution) :=
  [slotsCriterion config txCount version,
    gasCriterion E config blockData txData,
    pubDataBytesCriterion E config blockData txData version,
    circuitsCriterion E config blockData txData version,
    txEncodingSizeCriterion E config blockData txData version,
    gasForBatchTipCriterion txCount txData version]

def shouldSealL1Batch : Option SealResolution :=
  (defaultSealers E config txCount blockData txData version).foldlM
    (fun resolution answer => answer.map resolution.stricter) .noSeal

variable {E config txCount blockData txData version}

theorem slotsCriterion_answers
    (h : config.transactionSlots ≤ getBootloaderMaxTxsInBatch version.toVmVersion) :
    SealResolution.Answers (slotsCriterion config txCount version) False False := by
  refine ⟨_, if_pos h, ?_, ?_⟩
  · split <;> simp [SealResolution.IsUnexecutable]
  · split <;> simp

theorem gasForBatchTipCriterion_answers :
    SealResolution.Answers (gasForBatchTipCriterion 1 txData version)
      (txData.gasRemaining < gasBootloaderBatchTipOverhead version.toVmVersion) False := by
  by_cases h : txData.gasRemaining < gasBootloaderBatchTipOverhead version.toVmVersion
  · exact ⟨_, rfl, by simp [h, SealResolution.IsUnexecutable], by simp [h]⟩
  · exact ⟨_, rfl, by simp [h, SealResolution.IsUnexecutable], by simp [h]⟩

end Criteria

/-! ### The pending batch -/

structure SizedTransaction where
  encodingLen : UInt64
  bootloaderEncodingSize : UInt64

structure L1BatchUpdates (F32 : Type) where
  executedTransactions : List SizedTransaction
  blockExecutionMetrics : VmExecutionMetrics F32
  l1GasCount : BlockGasCount
  txsEncodingSize : UInt64

structure L2BlockUpdates (F32 : Type) where
  executedTransactions : List SizedTransaction
  l1GasCount : BlockGasCount
  blockExecutionMetrics : VmExecutionMetrics F32
  txsEncodingSize : UInt64

structure UpdatesManager (F32 Key Value : Type) where
  protocolVersion : ProtocolVersionId
  l1Batch : L1BatchUpdates F32
  l2Block : L2BlockUpdates F32
  storageWritesDeduplicator : StorageWritesDeduplicator Key Value

structure TxSuccess (F32 Key Value : Type) where
  storageLogs : List (StorageLogWithPreviousValue Key Value)
  l1Gas : BlockGasCount
  executionMetrics : VmExecutionMetrics F32
  gasRemaining : UInt32

inductive TxExecutionResult (F32 Key Value : Type) where
  | success (result : TxSuccess F32 Key Value)
  | rejectedByVm (reason : Halt)
  | bootloaderOutOfGasForTx

section UpdatesManager

variable {F32 F64 Key Value : Type} [DecidableEq Key] [DecidableEq Value]
  (E : Externals F32 F64 Value)

def L2BlockUpdates.new : L2BlockUpdates F32 :=
  ⟨[], ⟨0, 0, 0⟩, VmExecutionMetrics.default E.floats, 0⟩

namespace UpdatesManager

def new (protocolVersion : ProtocolVersionId) : UpdatesManager F32 Key Value where
  protocolVersion
  l1Batch := ⟨[], VmExecutionMetrics.default E.floats, newBlockGasCount, 0⟩
  l2Block := L2BlockUpdates.new E
  storageWritesDeduplicator := .new

def extendFromExecutedTransaction (self : UpdatesManager F32 Key Value) (tx : SizedTransaction)
    (result : TxSuccess F32 Key Value) : UpdatesManager F32 Key Value :=
  { self with
    storageWritesDeduplicator :=
      self.storageWritesDeduplicator.apply E.compressedLen result.storageLogs
    l2Block := {
      executedTransactions := self.l2Block.executedTransactions ++ [tx]
      l1GasCount := self.l2Block.l1GasCount.add result.l1Gas
      blockExecutionMetrics := self.l2Block.blockExecutionMetrics.add E.floats
        result.executionMetrics
      txsEncodingSize := self.l2Block.txsEncodingSize + tx.bootloaderEncodingSize } }

def pushL2Block (self : UpdatesManager F32 Key Value) : UpdatesManager F32 Key Value :=
  { self with
    l2Block := L2BlockUpdates.new E
    l1Batch := {
      executedTransactions :=
        self.l1Batch.executedTransactions ++ self.l2Block.executedTransactions
      l1GasCount := self.l1Batch.l1GasCount.add self.l2Block.l1GasCount
      blockExecutionMetrics := self.l1Batch.blockExecutionMetrics.add E.floats
        self.l2Block.blockExecutionMetrics
      txsEncodingSize := self.l1Batch.txsEncodingSize + self.l2Block.txsEncodingSize } }

def pendingExecutedTransactionsLen (self : UpdatesManager F32 Key Value) : ℕ :=
  self.l1Batch.executedTransactions.length + self.l2Block.executedTransactions.length

def pendingL1GasCount (self : UpdatesManager F32 Key Value) : BlockGasCount :=
  self.l1Batch.l1GasCount.add self.l2Block.l1GasCount

def pendingExecutionMetrics (self : UpdatesManager F32 Key Value) : VmExecutionMetrics F32 :=
  self.l1Batch.blockExecutionMetrics.add E.floats self.l2Block.blockExecutionMetrics

def pendingTxsEncodingSize (self : UpdatesManager F32 Key Value) : UInt64 :=
  self.l1Batch.txsEncodingSize + self.l2Block.txsEncodingSize

end UpdatesManager

def txSealData (version : ProtocolVersionId) (result : TxSuccess F32 Key Value)
    (tx : SizedTransaction) : SealData F32 :=
  let writesMetrics := StorageWritesDeduplicator.applyOnEmptyState E.compressedLen
    result.storageLogs
  { executionMetrics := result.executionMetrics
    gasCount := result.l1Gas.add (gasCountFromWrites writesMetrics version)
    cumulativeSize := tx.encodingLen
    writesMetrics
    gasRemaining := result.gasRemaining }

def blockSealData (updates : UpdatesManager F32 Key Value) (result : TxSuccess F32 Key Value)
    (tx : SizedTransaction) (writesMetrics : DeduplicatedWritesMetrics) : SealData F32 where
  executionMetrics := result.executionMetrics.add E.floats (updates.pendingExecutionMetrics E)
  gasCount := (result.l1Gas.add (gasCountFromWrites writesMetrics updates.protocolVersion)).add
    updates.pendingL1GasCount
  cumulativeSize := tx.encodingLen + updates.pendingTxsEncodingSize
  writesMetrics
  gasRemaining := result.gasRemaining

/-- A transaction for which the gas of the bootloader did not suffice: another batch may have more,
unless it was the first one. -/
def UpdatesManager.outOfGas (updates : UpdatesManager F32 Key Value) (reason : UnexecutableReason) :
    SealResolution :=
  if updates.pendingExecutedTransactionsLen = 0 then .unexecutable reason else .excludeAndSeal

/-- The decision after a transaction was executed.  The deduplicator learns initial values. -/
def processOneTx (config : StateKeeperConfig F64) (updates : UpdatesManager F32 Key Value)
    (execResult : TxExecutionResult F32 Key Value) (tx : SizedTransaction) :
    Option (SealResolution × UpdatesManager F32 Key Value) :=
  match execResult with
  | .bootloaderOutOfGasForTx => some (updates.outOfGas .bootloaderOutOfGas, updates)
  | .rejectedByVm reason =>
    some (if reason = .notEnoughGasProvided then updates.outOfGas .notEnoughGasProvided
      else .unexecutable (.halt reason), updates)
  | .success result => do
    let (writesMetrics, deduplicator) ←
      updates.storageWritesDeduplicator.applyAndRollback E.compressedLen result.storageLogs
    let resolution ← shouldSealL1Batch E config
      (UInt64.ofNat (updates.pendingExecutedTransactionsLen + 1))
      (blockSealData E updates result tx writesMetrics)
      (txSealData E updates.protocolVersion result tx) updates.protocolVersion
    pure (resolution, { updates with storageWritesDeduplicator := deduplicator })

end UpdatesManager
