/-
Deposits that the sequencer can include.

Anyone can inscribe a deposit on Bitcoin.  It becomes a priority operation with a fixed gas limit
and a fixed fee per gas, and the satoshi paid to the bridge are what it mints.  The keeper takes
priority operations in the order of their ids, and has no way to skip one: an operation that is over
the gas limit, or that the virtual machine does not accept, would have to be rejected, and rejecting
a priority operation ends the sequencer.

The bootloader does not accept an operation that mints less than it may have to pay for.

* `parseTransaction_includable_iff` — the deposits that can be included.
-/
import ViaCore.L1ToL2
import ViaCore.Mempool
import ViaCore.SealCriteria

namespace Mempool

inductive KeeperError where
  | l1Rejected (reason : UnexecutableReason)
  | mempoolPanic (panic : MempoolPanic)
  | criterionPanic
  | unreachable
  deriving DecidableEq

section Transactions

variable {Hash Account : Type}

def Transaction.isL1 : Transaction Hash Account → Bool
  | .l1 _ => true
  | .l2 _ => false
  | .protocolUpgrade => false

/-- The gas limit of a transaction; the mempool holds no protocol upgrades. -/
def Transaction.gasLimit : Transaction Hash Account → ℕ
  | .l1 tx => tx.commonData.gasLimit
  | .l2 tx => tx.fee.gasLimit
  | .protocolUpgrade => 0

end Transactions

variable {Hash Account : Type} [LinearOrder Account]

/-- The keeper's side of the mempool, and the transactions that it marked as rejected. -/
structure MempoolIo (Hash Account : Type) [LinearOrder Account] where
  mempool : MempoolStore Hash Account
  filter : L2TxFilter
  maxAllowedTxGasLimit : ℕ
  rejected : List (Transaction Hash Account × UnexecutableReason)

namespace MempoolIo

/-- Give a transaction up.  A priority operation cannot be given up. -/
def reject (self : MempoolIo Hash Account) (rejected : Transaction Hash Account)
    (reason : UnexecutableReason) : Except KeeperError (MempoolIo Hash Account) :=
  if rejected.isL1 then .error (.l1Rejected reason)
  else
    match self.mempool.rollback rejected with
    | .ok mempool => .ok { self with mempool, rejected := self.rejected ++ [(rejected, reason)] }
    | .error panic => .error (.mempoolPanic panic)

def rollback (self : MempoolIo Hash Account) (tx : Transaction Hash Account) :
    Except KeeperError (MempoolIo Hash Account) :=
  match self.mempool.rollback tx with
  | .error panic => .error (.mempoolPanic panic)
  | .ok mempool =>
    match mempool.insert (fun _ => none) [tx] with
    | .ok mempool => .ok { self with mempool }
    | .error panic => .error (.mempoolPanic panic)

def waitForNextTx : ℕ → MempoolIo Hash Account →
    Except KeeperError (Option (Transaction Hash Account) × MempoolIo Hash Account)
  | 0, self => .ok (none, self)
  | polls + 1, self =>
    match self.mempool.nextTransaction self.filter with
    | .error panic => .error (.mempoolPanic panic)
    | .ok (none, mempool) => waitForNextTx polls { self with mempool }
    | .ok (some tx, mempool) =>
      if self.maxAllowedTxGasLimit < tx.gasLimit then
        match reject { self with mempool } tx (.halt .tooBigGasLimit) with
        | .ok self => waitForNextTx polls self
        | .error e => .error e
      else .ok (some tx, { self with mempool })

def Serves (self : MempoolIo Hash Account) (op : L1Tx Hash) : Prop :=
  self.mempool.l1Transactions.lookup self.mempool.nextPriorityId = some op

end MempoolIo

section Loop

variable {F32 F64 Key Value : Type} [DecidableEq Key] [DecidableEq Value]
  (E : Externals F32 F64 Value) (config : StateKeeperConfig F64)
  (sized : Transaction Hash Account → SizedTransaction)
  (execute : UpdatesManager F32 Key Value → Transaction Hash Account →
    TxExecutionResult F32 Key Value)

/-- Take a transaction, execute it and do what the criteria decide.  The answer says whether the
batch is to be sealed. -/
def processNextTx (polls : ℕ) (io : MempoolIo Hash Account)
    (updates : UpdatesManager F32 Key Value) :
    Except KeeperError (Bool × MempoolIo Hash Account × UpdatesManager F32 Key Value) :=
  match io.waitForNextTx polls with
  | .error e => .error e
  | .ok (none, io) => .ok (false, io, updates)
  | .ok (some tx, io) =>
    match processOneTx E config updates (execute updates tx) (sized tx) with
    | none => .error .criterionPanic
    | some (.unexecutable reason, updates) =>
      (io.reject tx reason).map fun io => (false, io, updates)
    | some (.excludeAndSeal, updates) => (io.rollback tx).map fun io => (true, io, updates)
    | some (resolution, updates') =>
      match execute updates tx with
      | .success result =>
        .ok (resolution = .includeAndSeal, io,
          updates'.extendFromExecutedTransaction E (sized tx) result)
      | _ => .error .unreachable

/-- The operation mints what it may have to pay for. -/
def Covered (op : L1Tx Hash) : Prop :=
  op.commonData.gasLimit * op.commonData.maxFeePerGas + op.execute.value ≤ op.commonData.toMint

instance (op : L1Tx Hash) : Decidable (Covered op) := inferInstanceAs (Decidable (_ ≤ _))

/-- What is known of the bootloader: it does not accept an operation that is not covered. -/
def RejectsUncovered : Prop :=
  ∀ updates op, ¬ Covered op → ∃ reason, execute updates (.l1 op) = .rejectedByVm reason

structure Includable (maxAllowedTxGasLimit : ℕ) (op : L1Tx Hash) : Prop where
  covered : Covered op
  within : op.commonData.gasLimit ≤ maxAllowedTxGasLimit

variable {E config sized execute} {io : MempoolIo Hash Account}
  {updates : UpdatesManager F32 Key Value} {op : L1Tx Hash}

theorem MempoolIo.Serves.nextTransaction (h : io.Serves op) :
    ∃ mempool, io.mempool.nextTransaction io.filter = .ok (some (.l1 op), mempool) := by
  rw [MempoolIo.Serves] at h
  rw [MempoolStore.nextTransaction, h]
  exact ⟨_, rfl⟩

theorem MempoolIo.Serves.waitForNextTx_of_le (h : io.Serves op)
    (hle : op.commonData.gasLimit ≤ io.maxAllowedTxGasLimit) (polls : ℕ) :
    ∃ mempool, io.waitForNextTx (polls + 1) = .ok (some (.l1 op), { io with mempool }) := by
  obtain ⟨mempool, hnext⟩ := h.nextTransaction
  have hwithin : ¬ io.maxAllowedTxGasLimit
      < (Transaction.l1 op : Transaction Hash Account).gasLimit := Nat.not_lt.2 hle
  exact ⟨mempool, by rw [MempoolIo.waitForNextTx, hnext]; exact if_neg hwithin⟩

theorem MempoolIo.Serves.waitForNextTx_of_lt (h : io.Serves op)
    (hlt : io.maxAllowedTxGasLimit < op.commonData.gasLimit) (polls : ℕ) :
    io.waitForNextTx (polls + 1) = .error (.l1Rejected (.halt .tooBigGasLimit)) := by
  obtain ⟨mempool, hnext⟩ := h.nextTransaction
  have hover : io.maxAllowedTxGasLimit < (Transaction.l1 op : Transaction Hash Account).gasLimit :=
    hlt
  rw [MempoolIo.waitForNextTx, hnext]
  exact if_pos hover

/-- **When a priority operation ends the keeper.**  It is over the limit, or the decision after its
execution is that it cannot be executed. -/
theorem processNextTx_l1Rejected_iff (h : io.Serves op) (polls : ℕ) (reason : UnexecutableReason) :
    processNextTx E config sized execute (polls + 1) io updates = .error (.l1Rejected reason)
      ↔ io.maxAllowedTxGasLimit < op.commonData.gasLimit ∧ reason = .halt .tooBigGasLimit
        ∨ op.commonData.gasLimit ≤ io.maxAllowedTxGasLimit
          ∧ ∃ updates', processOneTx E config updates (execute updates (.l1 op)) (sized (.l1 op))
              = some (.unexecutable reason, updates') := by
  rcases Nat.lt_or_ge io.maxAllowedTxGasLimit op.commonData.gasLimit with hlt | hle
  · rw [processNextTx, h.waitForNextTx_of_lt hlt]
    simp [hlt, Nat.not_le.2 hlt, eq_comm]
  · obtain ⟨mempool, hwait⟩ := h.waitForNextTx_of_le hle polls
    rw [processNextTx, hwait]
    simp only [Nat.not_lt.2 hle, hle, true_and, false_and, false_or]
    rcases hone : processOneTx E config updates (execute updates (.l1 op)) (sized (.l1 op)) with
      _ | ⟨resolution, updates'⟩
    · simp
    · cases resolution with
      | unexecutable r => simp [MempoolIo.reject, Transaction.isL1, Except.map]
      -- the other resolutions reject nothing
      | excludeAndSeal =>
        simp only [MempoolIo.rollback, MempoolStore.rollback, MempoolStore.insert, Except.map]
        simp
      | noSeal | includeAndSeal =>
        cases hexec : execute updates (.l1 op) with
        | success result => simp
        | rejectedByVm r => simp
        | bootloaderOutOfGasForTx => simp

/-- An operation that cannot be included ends the keeper when it comes first in a batch. -/
theorem processNextTx_of_not_includable (hvm : RejectsUncovered execute) (h : io.Serves op)
    (hfirst : updates.pendingExecutedTransactionsLen = 0)
    (hnot : ¬ Includable io.maxAllowedTxGasLimit op) (polls : ℕ) :
    ∃ reason, processNextTx E config sized execute (polls + 1) io updates
      = .error (.l1Rejected reason) := by
  rcases Nat.lt_or_ge io.maxAllowedTxGasLimit op.commonData.gasLimit with hlt | hle
  · exact ⟨_, (processNextTx_l1Rejected_iff h polls _).2 (.inl ⟨hlt, rfl⟩)⟩
  · have huncovered : ¬ Covered op := fun hcovered => hnot ⟨hcovered, hle⟩
    obtain ⟨halt, hexec⟩ := hvm updates op huncovered
    -- in the first place even a lack of gas is a reason to reject
    obtain ⟨reason, hreason⟩ : ∃ reason,
        (if halt = .notEnoughGasProvided then updates.outOfGas .notEnoughGasProvided
          else SealResolution.unexecutable (.halt halt)) = .unexecutable reason := by
      split
      · exact ⟨.notEnoughGasProvided, if_pos hfirst⟩
      · exact ⟨.halt halt, rfl⟩
    refine ⟨reason, (processNextTx_l1Rejected_iff h polls reason).2 (.inr ⟨hle, updates, ?_⟩)⟩
    rw [hexec, processOneTx, hreason]

end Loop

end Mempool

section Deposits

open Mempool

variable {Address Hash : Type} (B : RustBitcoin Address)

/-- The bridge address that the parser knows after some of the inputs of a transaction. -/
def bridgeAfter (self : MessageParser Address) (inputs : List TxIn) : Option Address :=
  (inputs.foldl (fun p input => p.store (bridgeWrite B p.network input)) self).bridgeAddress

/-- Every deposit of a transaction pays a tenth of a bitcoin to the bridge, and the keeper allows
its gas limit. -/
def DepositsFunded (maxAllowedTxGasLimit : ℕ) (self : MessageParser Address) (tx : Transaction) :
    Prop :=
  (senderAddress B self.network tx).isSome = true →
    ∀ (i : ℕ) (hi : i < tx.input.length), carriesDeposit B tx.input[i] = true →
      10000000 ≤ depositAmount B (bridgeAfter B self (tx.input.take i)) tx.output
        ∧ 1000000 ≤ maxAllowedTxGasLimit

instance (self : MessageParser Address) (tx : Transaction) (maxAllowedTxGasLimit : ℕ) :
    Decidable (DepositsFunded B maxAllowedTxGasLimit self tx) :=
  inferInstanceAs (Decidable (_ → _))

variable {B} {canonicalHash : L2CanonicalTransaction → Hash} {maxAllowedTxGasLimit : ℕ}

theorem covered_createL1TxFromMessage_iff (msg : L1ToL2Message Address) (serialId : ℕ) :
    Covered (createL1TxFromMessage canonicalHash msg serialId) ↔ 10000000 ≤ msg.amount := by
  norm_num [Covered, createL1TxFromMessage]

theorem includable_createL1TxFromMessage_iff (msg : L1ToL2Message Address) (serialId : ℕ) :
    Includable maxAllowedTxGasLimit (createL1TxFromMessage canonicalHash msg serialId)
      ↔ 10000000 ≤ msg.amount ∧ 1000000 ≤ maxAllowedTxGasLimit := by
  have hcovered : Covered (createL1TxFromMessage canonicalHash msg serialId)
      ↔ 10000000 ≤ msg.amount := covered_createL1TxFromMessage_iff msg serialId
  rw [← hcovered]
  exact ⟨fun h => ⟨h.covered, h.within⟩, fun h => ⟨h.1, h.2⟩⟩

variable {ms : List (FullInscriptionMessage Address)} {self : MessageParser Address}

theorem parseTransaction_deposit_iff {ε : Type} {tx : Transaction} {blockHeight : ℕ}
    (hms : (parseTransaction (ε := ε) B self tx blockHeight).2 = .ok ms) (amount : ℕ) :
    (∃ d, .l1ToL2Message d ∈ ms ∧ d.amount = amount)
      ↔ (senderAddress B self.network tx).isSome = true
        ∧ ∃ (i : ℕ) (hi : i < tx.input.length), carriesDeposit B tx.input[i] = true
            ∧ depositAmount B (bridgeAfter B self (tx.input.take i)) tx.output = amount := by
  unfold parseTransaction at hms
  cases hsender : senderAddress B self.network tx with
  | none =>
    rw [hsender] at hms
    cases hms
    simp
  | some address =>
    rw [hsender] at hms
    -- the state of the parser in front of an input
    have hstate : ∀ before : List TxIn,
        before.foldl (fun t a => (readInput (ε := ε) B tx blockHeight address t a).1) self
          = before.foldl (fun p input => p.store (bridgeWrite B p.network input)) self := by
      intro before
      congr 1
      funext p input
      exact readInput_fst
    simp only [Option.isSome_some, true_and]
    constructor
    · rintro ⟨d, hd, rfl⟩
      obtain ⟨i, hi, bs, hread, hmem⟩ := (mem_collect hms _).1 hd
      have hparse := readInput_mem hread hmem
      refine ⟨i, hi, carriesDeposit_iff.2 ⟨d, hparse⟩, ?_⟩
      rw [(parseInput_amount hparse).1, bridgeAfter, hstate]
    · rintro ⟨i, hi, hcarries, rfl⟩
      have hiff : carriesDeposit B tx.input[i] = true ↔ ∃ d, (parseInput B
          ((tx.input.take i).foldl (fun p input => p.store (bridgeWrite B p.network input)) self)
          tx blockHeight address tx.input[i]).2 = .ok (.l1ToL2Message d) := carriesDeposit_iff
      obtain ⟨d, hparse⟩ := hiff.1 hcarries
      refine ⟨d, (mem_collect hms _).2 ⟨i, hi, [.l1ToL2Message d], ?_, List.mem_singleton_self _⟩,
        (parseInput_amount hparse).1⟩
      rw [hstate]
      exact readInput_of_ok hparse

/-- **The deposits that the keeper can include**: exactly those that pay ten million satoshi to the
bridge, when the keeper allows a gas limit of a million. -/
theorem parseTransaction_includable_iff {ε : Type} (Account : Type) [LinearOrder Account]
    {tx : Transaction} {blockHeight : ℕ}
    (hms : (parseTransaction (ε := ε) B self tx blockHeight).2 = .ok ms) :
    (∀ d, .l1ToL2Message d ∈ ms → ∀ serialId,
        Includable maxAllowedTxGasLimit (createL1TxFromMessage canonicalHash d serialId)
          ∧ ∀ (io : MempoolIo Hash Account) (polls : ℕ),
              io.maxAllowedTxGasLimit = maxAllowedTxGasLimit →
              io.Serves (createL1TxFromMessage canonicalHash d serialId) →
              ∃ mempool, io.waitForNextTx (polls + 1)
                = .ok (some (.l1 (createL1TxFromMessage canonicalHash d serialId)),
                    { io with mempool }))
      ↔ DepositsFunded B maxAllowedTxGasLimit self tx := by
  constructor
  · intro h hsender i hi hcarries
    obtain ⟨d, hd, hamount⟩ := (parseTransaction_deposit_iff hms _).2
      ⟨hsender, i, hi, hcarries, rfl⟩
    rw [← hamount]
    exact (includable_createL1TxFromMessage_iff d 0).1 (h d hd 0).1
  · intro hfunded d hd serialId
    obtain ⟨hsender, i, hi, hcarries, hamount⟩ :=
      (parseTransaction_deposit_iff hms _).1 ⟨d, hd, rfl⟩
    have hincludable : Includable maxAllowedTxGasLimit
        (createL1TxFromMessage canonicalHash d serialId) := by
      rw [includable_createL1TxFromMessage_iff, ← hamount]
      exact hfunded hsender i hi hcarries
    refine ⟨hincludable, fun io polls hlimit hserves => ?_⟩
    exact hserves.waitForNextTx_of_le (hlimit ▸ hincludable.within) polls

def sampleFundedDeposit : Txid × Transaction :=
  (.replicate 32 5,
    SampleAddress.key1.inscribe (.replicate 32 5)
      [.l1ToL2Message
        { receiverL2Address := .replicate 20 0x11
          l2ContractAddress := .replicate 20 0x22
          callData := [] }]
      [{ value := 10000000, scriptPubkey := SampleAddress.key3.script }])

def fundingBitcoin : RustBitcoin SampleAddress := tableBitcoin [sampleDeposit, sampleFundedDeposit]

def sampleGasLimit : ℕ := 4000000000

theorem parseTransaction_includable_funded :
    ∃ ms d, (parseTransaction (ε := Empty) fundingBitcoin sampleIndexer.parser
          sampleFundedDeposit.2 10).2 = .ok ms
      ∧ .l1ToL2Message d ∈ ms ∧ d.amount = 10000000
      ∧ Includable sampleGasLimit (createL1TxFromMessage id d 0) := by
  have hreturns : (parseTransaction (ε := Empty) fundingBitcoin sampleIndexer.parser
      sampleFundedDeposit.2 10).2.toOption.isSome = true := by
    decide +kernel
  obtain ⟨ms, hms⟩ := Option.isSome_iff_exists.1 hreturns
  rw [Outcome.toOption_eq_some] at hms
  have hfunded : DepositsFunded fundingBitcoin sampleGasLimit sampleIndexer.parser
      sampleFundedDeposit.2 := by
    decide +kernel
  obtain ⟨d, hd, hamount⟩ := (parseTransaction_deposit_iff hms 10000000).2
    ⟨by decide +kernel, 1, by decide +kernel, by decide +kernel, by decide +kernel⟩
  exact ⟨ms, d, hms, hd, hamount,
    ((parseTransaction_includable_iff ℕ hms).2 hfunded d hd 0).1⟩

def sampleIo (op : L1Tx L2CanonicalTransaction) : MempoolIo L2CanonicalTransaction ℕ where
  mempool := { (MempoolStore.new 0 100 : MempoolStore L2CanonicalTransaction ℕ) with
    l1Transactions := (∅ : Map ℕ (L1Tx L2CanonicalTransaction)).insert 0 op }
  filter := ⟨0, 0⟩
  maxAllowedTxGasLimit := sampleGasLimit
  rejected := []

/-- **A deposit can stop the sequencer.**  An operation for 50000 satoshi does not cover its gas,
and the keeper fails on it. -/
theorem processNextTx_stopped_by_deposit :
    ∃ ms d, (parseTransaction (ε := Empty) fundingBitcoin sampleIndexer.parser
          sampleDeposit.2 10).2 = .ok ms
      ∧ .l1ToL2Message d ∈ ms
      ∧ ¬ Covered (createL1TxFromMessage id d 0)
      ∧ ∀ (E : Externals ℕ ℕ ℕ) (config : StateKeeperConfig ℕ)
          (sized : Mempool.Transaction L2CanonicalTransaction ℕ → SizedTransaction)
          (execute : UpdatesManager ℕ ℕ ℕ → Mempool.Transaction L2CanonicalTransaction ℕ →
            TxExecutionResult ℕ ℕ ℕ), RejectsUncovered execute →
          ∃ reason, processNextTx E config sized execute 1
              (sampleIo (createL1TxFromMessage id d 0)) (.new E .version24)
            = .error (.l1Rejected reason) := by
  have hreturns : (parseTransaction (ε := Empty) fundingBitcoin sampleIndexer.parser
      sampleDeposit.2 10).2.toOption.isSome = true := by
    decide +kernel
  obtain ⟨ms, hms⟩ := Option.isSome_iff_exists.1 hreturns
  rw [Outcome.toOption_eq_some] at hms
  obtain ⟨d, hd, hamount⟩ := (parseTransaction_deposit_iff hms 50000).2
    ⟨by decide +kernel, 1, by decide +kernel, by decide +kernel, by decide +kernel⟩
  have huncovered : ¬ Covered (createL1TxFromMessage id d 0) := by
    rw [covered_createL1TxFromMessage_iff, hamount]
    decide
  refine ⟨ms, d, hms, hd, huncovered, fun E config sized execute hvm => ?_⟩
  have hserves : (sampleIo (createL1TxFromMessage id d 0)).Serves (createL1TxFromMessage id d 0) :=
    AList.lookup_insert (a := 0) (∅ : Map ℕ (L1Tx L2CanonicalTransaction))
  exact processNextTx_of_not_includable hvm hserves rfl (fun h => huncovered h.covered) 0

end Deposits
