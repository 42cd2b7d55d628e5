/-
The estimate of the gas that a transaction needs.

There is no way to ask the VM for the gas limit of a transaction: it is executed in a sandbox again
and again.  A binary search runs on the gas for the computation only; every trial gets the gas for
the public data and the overhead of the transaction on top, and the sum is capped at the limit of a
batch.

A transaction of the L1 brings along what it may have to pay: its value and the gas at the base fee.
The value comes from the caller, and the sum is one of 256 bits that nothing bounds.

* `getTxsFeeInWei_sufficient_iff` — the estimate suffices, exceeds the least limit by at most what
  was accepted and does not overflow, exactly when the required funds fit.
-/
import ViaCore.PubdataPrice
import ViaCore.BatchExecutor

namespace GasEstimate

open FeeModel BatchExecutor

def maxL2TxGasLimit : ℕ := 80000000

/-- The errors that the estimate tells apart, and those of the sandbox. -/
inductive SubmitTxError where
  | insufficientFundsForTransfer
  | serverShuttingDown
  | executionReverted (message : String)
  | unexecutable (reason : String)
  | failed (result : ExecutionResult)
  | internal (message : String)
  deriving DecidableEq

structure SandboxOutput (Metrics : Type) where
  result : ExecutionResult
  pubdataPublished : UInt32
  metrics : Metrics
  deriving DecidableEq

inductive TxKind where
  | l1
  | l2
  | protocolUpgrade
  deriving DecidableEq

structure EstimatedTx where
  kind : TxKind
  value : BitVec 256
  hasCode : Bool
  balance : BitVec 256
  gasPerPubdataByteLimit : BitVec 256
  encodingLen : ℕ

/-- `execute_tx_in_sandbox`: a call for one estimate, by its number, with the gas limit that is put
into the transaction. -/
def Sandbox (Metrics : Type) := ℕ → ℕ → Except SubmitTxError (SandboxOutput Metrics)

structure Fee where
  maxFeePerGas : ℕ
  maxPriorityFeePerGas : ℕ
  gasLimit : ℕ
  gasPerPubdataLimit : ℕ
  deriving DecidableEq

structure TxSender (Metrics : Type) where
  overflowChecks : Bool
  /-- `get_max_batch_gas_limit`. -/
  maxBatchGasLimit : ℕ
  scaledBatchFeeInput : BatchFeeInput
  hasVmPermit : Bool
  findUnexecutableReason : Metrics → Option String
  /-- The log line at the end is written, and its arguments are computed. -/
  debugEnabled : Bool
  /-- A number as `f64`, times the factor, as `u64`. -/
  scaled : ℕ → ℕ

/-- A sum or a product of 64 bits, where an overflow is a panic. -/
def u64 (n : ℕ) : Outcome SubmitTxError ℕ := if n < 2 ^ 64 then .ok n else .panic

/-- A sum in `U256`, which panics on an overflow in every build. -/
def u256 (n : ℕ) : Outcome SubmitTxError ℕ := if n < 2 ^ 256 then .ok n else .panic

def deriveOverhead (encodedLen : ℕ) : ℕ := (max 10000 (10 * UInt32.ofNat encodedLen)).toNat

namespace TxSender

variable {Metrics : Type} (self : TxSender Metrics) (tx : EstimatedTx)

def forcedGasLimit (txGasLimit : ℕ) : ℕ :=
  min (txGasLimit + deriveOverhead tx.encodingLen) self.maxBatchGasLimit

/-- What a transaction that is not of the L2 has to mint, with a gas limit. -/
def requiredFunds (baseFee : UInt64) (gasLimit : ℕ) : ℕ := gasLimit * baseFee.toNat + tx.value.toNat

/-- `to_mint`, which is set together with the gas limit. -/
def toMint (baseFee : UInt64) (gasLimit : ℕ) : Outcome SubmitTxError ℕ :=
  match tx.kind with
  | .l1 => u256 (requiredFunds tx baseFee gasLimit)
  | .l2 => .ok 0
  | .protocolUpgrade => u256 (requiredFunds tx baseFee gasLimit)

def gasPrice : Outcome Unit (UInt64 × UInt64) := do
  deriveBaseFeeAndGasPerPubdata self.overflowChecks
    (← adjustPubdataPriceForTx self.overflowChecks self.scaledBatchFeeInput
      tx.gasPerPubdataByteLimit none)

variable (sandbox : Sandbox Metrics) (baseFee : UInt64)

def estimateGasStep (call txGasLimit : ℕ) : Outcome SubmitTxError (SandboxOutput Metrics) := do
  let _ ← u64 (txGasLimit + deriveOverhead tx.encodingLen)
  let _ ← toMint tx baseFee (self.forcedGasLimit tx txGasLimit)
  match sandbox call (self.forcedGasLimit tx txGasLimit) with
  | .ok output => .ok output
  | .error e => .err e

/-- By the first call, unless the transaction is of the L1. -/
def additionalGasForPubdata (gasPerPubdataByte : UInt64) : Outcome SubmitTxError ℕ := do
  if tx.kind = .l1 then .ok 0
  else
    let output ← self.estimateGasStep tx sandbox baseFee 0 self.maxBatchGasLimit
    u64 (output.pubdataPublished.toNat * gasPerPubdataByte.toNat)

/-- The binary search, with the number of the next call. -/
def search (acceptableOverestimation additional lowerBound upperBound call : ℕ) :
    Outcome SubmitTxError (ℕ × ℕ) := do
  let _ ← u64 (lowerBound + acceptableOverestimation)
  if _h : lowerBound + acceptableOverestimation < upperBound then
    let _ ← u64 (lowerBound + upperBound)
    let tryGasLimit ← u64 (additional + (lowerBound + upperBound) / 2)
    let output ← self.estimateGasStep tx sandbox baseFee call tryGasLimit
    if output.result.isFailed then
      let _ ← u64 ((lowerBound + upperBound) / 2 + 1)
      search acceptableOverestimation additional ((lowerBound + upperBound) / 2 + 1) upperBound
        (call + 1)
    else
      search acceptableOverestimation additional lowerBound
        ((lowerBound + upperBound) / 2) (call + 1)
  else .ok (upperBound, call)
termination_by upperBound - lowerBound
decreasing_by all_goals omega

def finalFee (gasPerPubdataByte : UInt64) (suggestedGasLimit call : ℕ) :
    Outcome SubmitTxError Fee := do
  let output ← self.estimateGasStep tx sandbox baseFee call suggestedGasLimit
  if output.result.isFailed then .err (.failed output.result)
  else
    match self.findUnexecutableReason output.metrics with
    | some reason => .err (.unexecutable reason)
    | none =>
      -- also when the sum overflows
      if self.maxBatchGasLimit < suggestedGasLimit + deriveOverhead tx.encodingLen ∨
          2 ^ 64 ≤ suggestedGasLimit + deriveOverhead tx.encodingLen then
        .err (.executionReverted "exceeds block gas limit")
      else
        let gasForPubdata ← u64 (output.pubdataPublished.toNat * gasPerPubdataByte.toNat)
        -- the computational gas, for the log line
        if self.debugEnabled ∧ suggestedGasLimit < self.scaled gasForPubdata then .panic
        else .ok ⟨baseFee.toNat, 0, suggestedGasLimit + deriveOverhead tx.encodingLen,
            gasPerPubdataByte.toNat⟩

/-- `get_txs_fee_in_wei`, when the base fee is known. -/
def estimate (acceptableOverestimation gasPerPubdataByte : UInt64) :
    Outcome SubmitTxError Fee := do
  if tx.kind ≠ .l1 ∧ !tx.hasCode ∧ tx.balance < tx.value then .err .insufficientFundsForTransfer
  else if !self.hasVmPermit then .err .serverShuttingDown
  else
    let additional ← self.additionalGasForPubdata tx sandbox baseFee gasPerPubdataByte
    let found ← self.search tx sandbox baseFee acceptableOverestimation.toNat additional 0
      maxL2TxGasLimit 1
    let sum ← u64 (found.1 + additional)
    self.finalFee tx sandbox baseFee gasPerPubdataByte (self.scaled sum) found.2

def getTxsFeeInWei (acceptableOverestimation : UInt64) : Outcome SubmitTxError Fee :=
  match self.gasPrice tx with
  | .ok (baseFee, gasPerPubdataByte) =>
    self.estimate tx sandbox baseFee acceptableOverestimation gasPerPubdataByte
  | .err () => .err (.internal "fee input")
  | .panic => .panic

end TxSender

/-! ### The search -/

section Estimate

variable {Metrics : Type} {self : TxSender Metrics} {tx : EstimatedTx} {sandbox : Sandbox Metrics}
  {baseFee gasPerPubdataByte : UInt64}

def Sandbox.Succeeds (sandbox : Sandbox Metrics) (gasLimit : ℕ) : Prop :=
  ∃ call output, sandbox call gasLimit = .ok output ∧ output.result.isFailed = false

/-- More gas never makes an execution fail. -/
def Sandbox.Monotone (sandbox : Sandbox Metrics) : Prop :=
  ∀ {call gasLimit gasLimit' output}, sandbox.Succeeds gasLimit → gasLimit ≤ gasLimit' →
    sandbox call gasLimit' = .ok output → output.result.isFailed = false

/-- What the VM guarantees: an execution that succeeds has paid for its public data and the overhead
out of its gas limit. -/
def Sandbox.PaysForPubdata (sandbox : Sandbox Metrics) (gasPerPubdataByte overhead : ℕ) : Prop :=
  ∀ call gasLimit output, sandbox call gasLimit = .ok output → output.result.isFailed = false →
    output.pubdataPublished.toNat * gasPerPubdataByte + overhead ≤ gasLimit

variable (tx baseFee) in
/-- The required funds of a transaction that is not of the L2 fit into 256 bits. -/
def FundsFitAt (gasLimit : ℕ) : Prop :=
  tx.kind ≠ .l2 → TxSender.requiredFunds tx baseFee gasLimit < 2 ^ 256

theorem FundsFitAt.mono {gasLimit gasLimit' : ℕ} (h : FundsFitAt tx baseFee gasLimit)
    (hle : gasLimit' ≤ gasLimit) : FundsFitAt tx baseFee gasLimit' := fun hkind =>
  (Nat.add_le_add_right (Nat.mul_le_mul_right _ hle) _).trans_lt (h hkind)

theorem toMint_returns_iff {gasLimit : ℕ} :
    (TxSender.toMint tx baseFee gasLimit).Returns ↔ FundsFitAt tx baseFee gasLimit := by
  by_cases hfit : TxSender.requiredFunds tx baseFee gasLimit < 2 ^ 256
  · refine iff_of_true ?_ fun _ => hfit
    simp only [TxSender.toMint, u256, if_pos hfit]
    cases tx.kind <;> exact .ok _
  · simp only [TxSender.toMint, FundsFitAt, u256, if_neg hfit]
    cases tx.kind with
    | l2 => exact iff_of_true (.ok 0) fun h => absurd rfl h
    | l1 | protocolUpgrade => exact iff_of_false (fun h => h rfl) fun h => hfit (h (by decide))

theorem forcedGasLimit_mono {a b : ℕ} (h : a ≤ b) :
    self.forcedGasLimit tx a ≤ self.forcedGasLimit tx b :=
  min_le_min_right _ (Nat.add_le_add_right h _)

theorem u64_ensures {n : ℕ} (h : n < 2 ^ 64) : (u64 n).Ensures (· = n) := by
  rw [u64, if_pos h]
  exact .ok rfl

theorem deriveOverhead_lt (encodedLen : ℕ) : deriveOverhead encodedLen < 2 ^ 32 := UInt32.toNat_lt _

theorem estimateGasStep_ensures {txGasLimit : ℕ}
    (h : txGasLimit + deriveOverhead tx.encodingLen < 2 ^ 64)
    (hfunds : FundsFitAt tx baseFee (self.forcedGasLimit tx txGasLimit)) (call : ℕ) :
    (self.estimateGasStep tx sandbox baseFee call txGasLimit).Ensures fun output =>
      sandbox call (self.forcedGasLimit tx txGasLimit) = .ok output := by
  refine (u64_ensures h).bind fun _ _ => (toMint_returns_iff.2 hfunds).ensures.bind fun _ _ => ?_
  split
  · rename_i hexecuted
    exact .ok hexecuted
  · exact .err

theorem estimateGasStep_panics {txGasLimit : ℕ}
    (hfunds : ¬ FundsFitAt tx baseFee (self.forcedGasLimit tx txGasLimit)) (call : ℕ) :
    self.estimateGasStep tx sandbox baseFee call txGasLimit = .panic := by
  have hmint : TxSender.toMint tx baseFee (self.forcedGasLimit tx txGasLimit) = .panic :=
    not_not.1 fun h => hfunds (toMint_returns_iff.1 h)
  rw [TxSender.estimateGasStep, u64, hmint]
  split <;> rfl

/-- **The search**: nothing overflows, and what succeeds is at most the accepted overestimation
below the limit that is found. -/
theorem search_spec (self : TxSender Metrics) (hmono : sandbox.Monotone)
    {acceptable additional lower upper : ℕ} (hadditional : additional < 2 ^ 48)
    (hupper : upper ≤ maxL2TxGasLimit) (hle : lower ≤ upper)
    (hacceptable : lower + acceptable < 2 ^ 64)
    (hfunds : FundsFitAt tx baseFee (self.forcedGasLimit tx (additional + upper)))
    (hbelow : ∀ c < lower, ¬ sandbox.Succeeds (self.forcedGasLimit tx (additional + c)))
    (call : ℕ) :
    (self.search tx sandbox baseFee acceptable additional lower upper call).Ensures fun found =>
      found.1 ≤ upper ∧ ∀ c, sandbox.Succeeds (self.forcedGasLimit tx (additional + c)) →
        found.1 ≤ c + acceptable := by
  have hoverhead := deriveOverhead_lt tx.encodingLen
  rw [maxL2TxGasLimit] at hupper
  induction hn : upper - lower using Nat.strong_induction_on generalizing lower upper call with
  | _ n ih =>
    rw [TxSender.search]
    refine (u64_ensures hacceptable).bind fun _ _ => ?_
    split
    · refine (u64_ensures (by omega)).bind fun _ _ => (u64_ensures (by omega)).bind ?_
      rintro _ rfl
      have hmid : (lower + upper) / 2 ≤ upper := by omega
      have hfundsMid := hfunds.mono (forcedGasLimit_mono (Nat.add_le_add_left hmid additional))
      refine (estimateGasStep_ensures (by omega) hfundsMid call).bind fun output hexecuted => ?_
      split
      · -- if it fails with this limit, it fails with every lower one
        rename_i hfailed
        refine (u64_ensures (by omega)).bind fun _ _ => ?_
        refine ih _ (by omega) hupper (by omega) (by omega) hfunds (fun c hc hsucceeds => ?_) _ rfl
        have hgas : self.forcedGasLimit tx (additional + c) ≤
            self.forcedGasLimit tx (additional + (lower + upper) / 2) :=
          forcedGasLimit_mono (by omega)
        rw [hmono hsucceeds hgas hexecuted] at hfailed
        cases hfailed
      · exact (ih _ (by omega) (hmid.trans hupper) (by omega) hacceptable hfundsMid hbelow _
          rfl).mono fun found hfound => hfound.imp_left hmid.trans'
    · refine .ok ⟨le_rfl, fun c hc => ?_⟩
      have hc : lower ≤ c := not_lt.1 fun hlt => hbelow c hlt hc
      omega

/-! ### The estimate -/

theorem gasPrice_le
    (h : self.gasPrice tx = .ok (baseFee, gasPerPubdataByte)) :
      gasPerPubdataByte.toNat ≤ 50000 := by
  obtain ⟨_, -, h⟩ := Outcome.bind_eq_ok.1 h
  obtain ⟨feeInput, -, h⟩ := Outcome.bind_eq_ok.1 h
  obtain ⟨_, _, hlatest, -, hderived⟩ := deriveLatest_ok feeInput
  cases hlatest.symm.trans h
  rw [hderived.gasPerPubdata_le_iff, mul_comm]
  exact ((hderived.baseFee_le_iff _).1 le_rfl).2

/-- The gas for the public data is far from an overflow. -/
theorem pubdata_mul_lt (pubdata : UInt32) (hgas : gasPerPubdataByte.toNat ≤ 50000) :
    pubdata.toNat * gasPerPubdataByte.toNat < 2 ^ 48 := by
  have hproduct := Nat.mul_le_mul (Nat.le_sub_one_of_lt pubdata.toNat_lt) hgas
  omega

variable (self tx) in
def greatestGasLimit : ℕ :=
  if tx.kind = .l1 then self.forcedGasLimit tx maxL2TxGasLimit else self.maxBatchGasLimit

theorem forcedGasLimit_le {additional n : ℕ} (hl1 : tx.kind = .l1 → additional = 0)
    (hn : n ≤ maxL2TxGasLimit) :
    self.forcedGasLimit tx (additional + n) ≤ greatestGasLimit self tx := by
  rw [greatestGasLimit]
  split <;> rename_i hkind
  · exact forcedGasLimit_mono (by rw [hl1 hkind]; omega)
  · exact min_le_right _ _

theorem additionalGasForPubdata_lt (hgas : gasPerPubdataByte.toNat ≤ 50000)
    (hmax : self.maxBatchGasLimit + deriveOverhead tx.encodingLen < 2 ^ 64)
    (hfunds : FundsFitAt tx baseFee (greatestGasLimit self tx)) :
    (self.additionalGasForPubdata tx sandbox baseFee gasPerPubdataByte).Ensures fun additional =>
      additional < 2 ^ 48 ∧ (tx.kind = .l1 → additional = 0) := by
  rw [TxSender.additionalGasForPubdata]
  split <;> rename_i hkind
  · exact .ok ⟨by decide, fun _ => rfl⟩
  · rw [greatestGasLimit, if_neg hkind] at hfunds
    refine (estimateGasStep_ensures hmax (hfunds.mono (min_le_right _ _)) 0).bind fun output _ => ?_
    have hlt := pubdata_mul_lt output.pubdataPublished hgas
    refine (u64_ensures (by omega)).mono ?_
    rintro _ rfl
    exact ⟨hlt, fun h => absurd h hkind⟩

theorem finalFee_spec {suggested : ℕ} (call : ℕ) (hscaled : ∀ n < 2 ^ 53, self.scaled n = n)
    (hgas : gasPerPubdataByte.toNat ≤ 50000)
    (hpays : sandbox.PaysForPubdata gasPerPubdataByte.toNat (deriveOverhead tx.encodingLen))
    (hfunds : FundsFitAt tx baseFee (self.forcedGasLimit tx suggested))
    (h : suggested + deriveOverhead tx.encodingLen < 2 ^ 64) :
    (self.finalFee tx sandbox baseFee gasPerPubdataByte suggested call).Ensures fun fee =>
      fee.gasLimit = suggested + deriveOverhead tx.encodingLen ∧
      ∃ output, sandbox call fee.gasLimit = .ok output ∧ output.result.isFailed = false := by
  refine (estimateGasStep_ensures h hfunds call).bind fun output hexecuted => ?_
  split
  · exact .err
  rename_i hfailed
  split
  · exact .err
  split
  · exact .err
  rename_i hfits
  rw [TxSender.forcedGasLimit, min_eq_left (not_lt.1 fun hlt => hfits (.inl hlt))] at hexecuted
  have hsuccess : output.result.isFailed = false := Bool.eq_false_iff.2 hfailed
  have hlt := pubdata_mul_lt output.pubdataPublished hgas
  refine (u64_ensures (by omega)).bind ?_
  rintro _ rfl
  -- the public data was paid for out of the gas limit, so the difference is not negative
  have hpaid := hpays call _ output hexecuted hsuccess
  rw [hscaled _ (by omega), if_neg (by omega)]
  exact .ok ⟨rfl, output, hexecuted, hsuccess⟩

variable (self tx sandbox) in
/-- The estimate ends without an overflow, the transaction succeeded with it, and what the search
found exceeds every limit that suffices by at most what was accepted. -/
def SufficientAndTight (acceptableOverestimation : UInt64) : Prop :=
  ∀ baseFee gasPerPubdataByte, self.gasPrice tx = .ok (baseFee, gasPerPubdataByte) →
    (self.getTxsFeeInWei tx sandbox acceptableOverestimation).Ensures fun fee =>
      ∃ additional found output,
        self.additionalGasForPubdata tx sandbox baseFee gasPerPubdataByte = .ok additional ∧
        self.search tx sandbox baseFee acceptableOverestimation.toNat additional 0
          maxL2TxGasLimit 1 = .ok found ∧
        fee.gasLimit = found.1 + additional + deriveOverhead tx.encodingLen ∧
        sandbox found.2 fee.gasLimit = .ok output ∧ output.result.isFailed = false ∧
        ∀ c, sandbox.Succeeds (self.forcedGasLimit tx (additional + c)) →
          found.1 ≤ c + acceptableOverestimation.toNat

variable (self tx) in
/-- The required funds fit with the greatest gas limit, unless the estimate ends before the first
trial. -/
def FundsFit : Prop :=
  ∀ baseFee gasPerPubdataByte, self.gasPrice tx = .ok (baseFee, gasPerPubdataByte) →
    self.hasVmPermit = true → tx.kind = .l1 ∨ tx.hasCode = true ∨ ¬ tx.balance < tx.value →
      FundsFitAt tx baseFee (greatestGasLimit self tx)

theorem balance_suffices_iff : ¬ (tx.kind ≠ .l1 ∧ !tx.hasCode ∧ tx.balance < tx.value) ↔
    tx.kind = .l1 ∨ tx.hasCode = true ∨ ¬ tx.balance < tx.value := by
  rw [not_and_or, not_and_or, not_not, Bool.not_eq_true', Bool.not_eq_false]

theorem FundsFit.sufficientAndTight (h : FundsFit self tx) (acceptableOverestimation : UInt64)
    (hscaled : ∀ n < 2 ^ 53, self.scaled n = n) (hmono : sandbox.Monotone)
    (hpays : ∀ baseFee gasPerPubdataByte, self.gasPrice tx = .ok (baseFee, gasPerPubdataByte) →
      sandbox.PaysForPubdata gasPerPubdataByte.toNat (deriveOverhead tx.encodingLen))
    (hmax : self.maxBatchGasLimit + deriveOverhead tx.encodingLen < 2 ^ 64) :
    SufficientAndTight self tx sandbox acceptableOverestimation := by
  intro baseFee gasPerPubdataByte hprice
  have hgas := gasPrice_le hprice
  rw [TxSender.getTxsFeeInWei, hprice]
  simp only [TxSender.estimate]
  split
  · exact .err
  rename_i hbalance
  split
  · exact .err
  rename_i hpermit
  have hfunds := h _ _ hprice (by simpa using hpermit) (balance_suffices_iff.1 hbalance)
  -- allowance, search and last step in turn, each with its bounds
  refine (additionalGasForPubdata_lt hgas hmax hfunds).with_eq.bind ?_
  rintro additional ⟨hadditional, hlt, hl1⟩
  have hsearch := search_spec self hmono hlt le_rfl (Nat.zero_le _)
    ((Nat.zero_add _).trans_lt acceptableOverestimation.toNat_lt)
    (hfunds.mono (forcedGasLimit_le hl1 le_rfl)) (fun c hc => by omega) 1
  refine hsearch.with_eq.bind ?_
  rintro found ⟨hfound, hle, htight⟩
  have hoverhead := deriveOverhead_lt tx.encodingLen
  have hfinal := hfunds.mono (forcedGasLimit_le hl1 hle)
  rw [Nat.add_comm] at hfinal
  rw [maxL2TxGasLimit] at hle
  refine (u64_ensures (by omega)).bind ?_
  rintro _ rfl
  rw [hscaled _ (by omega)]
  refine (finalFee_spec found.2 hscaled hgas (hpays _ _ hprice) hfinal (by omega)).mono ?_
  rintro fee ⟨hlimit, output, hexecuted, hsuccess⟩
  exact ⟨additional, found, output, hadditional, hfound, hlimit, hexecuted, hsuccess, htight⟩

/-- Where the funds do not fit, an estimate panics that accepts any overestimation: its only trials
are made with the greatest gas limit. -/
theorem getTxsFeeInWei_panic (hscaled : ∀ n < 2 ^ 53, self.scaled n = n)
    (hprice : self.gasPrice tx = .ok (baseFee, gasPerPubdataByte))
    (hpermit : self.hasVmPermit = true)
    (hbalance : tx.kind = .l1 ∨ tx.hasCode = true ∨ ¬ tx.balance < tx.value)
    (hfunds : ¬ FundsFitAt tx baseFee (greatestGasLimit self tx)) :
    self.getTxsFeeInWei tx sandbox (.ofNat (2 ^ 64 - 1)) = .panic := by
  rw [TxSender.getTxsFeeInWei, hprice]
  simp only [TxSender.estimate, if_neg (balance_suffices_iff.2 hbalance), hpermit, Bool.not_true,
    Bool.false_eq_true, if_false, TxSender.additionalGasForPubdata]
  rw [greatestGasLimit] at hfunds
  split <;> rename_i hkind
  -- no trial is made in the search, so the last step is the first one
  · have hsearch : self.search tx sandbox baseFee (UInt64.ofNat (2 ^ 64 - 1)).toNat 0 0
        maxL2TxGasLimit 1 = .ok (maxL2TxGasLimit, 1) := by
      rw [TxSender.search]
      rfl
    rw [if_pos hkind] at hfunds
    simp only [Outcome.ok_bind, hsearch, u64, Nat.add_zero]
    rw [if_pos (by decide), Outcome.ok_bind, hscaled _ (by decide), TxSender.finalFee,
      estimateGasStep_panics hfunds]
    rfl
  · rw [if_neg hkind] at hfunds
    rw [estimateGasStep_panics]
    · rfl
    · rwa [TxSender.forcedGasLimit, min_eq_right (Nat.le_add_right _ _)]

/-- **The estimate** is sufficient and tight in every sandbox, whatever overestimation is accepted,
exactly when the required funds fit. -/
theorem getTxsFeeInWei_sufficient_iff (self : TxSender Metrics) (tx : EstimatedTx)
    (hscaled : ∀ n < 2 ^ 53, self.scaled n = n)
    (hmax : self.maxBatchGasLimit + deriveOverhead tx.encodingLen < 2 ^ 64) :
    (∀ (acceptableOverestimation : UInt64) (sandbox : Sandbox Metrics), sandbox.Monotone →
      (∀ baseFee gasPerPubdataByte, self.gasPrice tx = .ok (baseFee, gasPerPubdataByte) →
        sandbox.PaysForPubdata gasPerPubdataByte.toNat (deriveOverhead tx.encodingLen)) →
      SufficientAndTight self tx sandbox acceptableOverestimation) ↔ FundsFit self tx := by
  constructor
  · intro h baseFee gasPerPubdataByte hprice hpermit hbalance
    by_contra hfunds
    -- a sandbox that never answers is never asked
    refine (h (.ofNat (2 ^ 64 - 1)) (fun _ _ => .error .serverShuttingDown)
      (by rintro _ _ _ _ - - ⟨⟩) (by rintro _ _ - _ _ _ ⟨⟩) _ _ hprice).1 ?_
    exact getTxsFeeInWei_panic hscaled hprice hpermit hbalance hfunds
  · intro hfit acceptableOverestimation sandbox hmono hpays
    exact hfit.sufficientAndTight acceptableOverestimation hscaled hmono hpays hmax

end Estimate

def sampleSender : TxSender Unit where
  overflowChecks := true
  maxBatchGasLimit := 2 ^ 50
  scaledBatchFeeInput := .pubdataIndependent ⟨100, 5000, 7⟩
  hasVmPermit := true
  findUnexecutableReason _ := none
  debugEnabled := true
  scaled n := n

def sampleEstimatedTx (kind : TxKind) (value : BitVec 256) : EstimatedTx where
  kind
  value
  hasCode := false
  balance := 5
  gasPerPubdataByteLimit := 50000
  encodingLen := 20

/-- The transaction publishes 12 bytes and needs a gas limit of thirty million. -/
def sampleSandbox : Sandbox Unit :=
  fun _ gasLimit => .ok ⟨if gasLimit < 30000000 then .revert else .success, 12, ()⟩

theorem getTxsFeeInWei_sample :
    sampleSender.getTxsFeeInWei (sampleEstimatedTx .l1 1) sampleSandbox 30000000 =
        .ok ⟨100, 0, 40010000, 50⟩ ∧
      ∃ call output, sampleSandbox call 40010000 = .ok output ∧
        output.result.isFailed = false := by
  have hprice : sampleSender.gasPrice (sampleEstimatedTx .l1 1) = .ok (100, 50) := by decide +kernel
  have hfee : sampleSender.getTxsFeeInWei (sampleEstimatedTx .l1 1) sampleSandbox 30000000 =
      .ok ⟨100, 0, 40010000, 50⟩ := by decide +kernel
  have hlimit : ∀ call gasLimit output, sampleSandbox call gasLimit = .ok output →
      output.result.isFailed = false → output.pubdataPublished = 12 ∧ 30000000 ≤ gasLimit := by
    rintro call gasLimit _ ⟨⟩ hsuccess
    refine ⟨rfl, not_lt.1 fun hlow => ?_⟩
    rw [if_pos hlow] at hsuccess
    cases hsuccess
  have hmono : sampleSandbox.Monotone := by
    rintro call gasLimit gasLimit' output ⟨_, _, hbefore, hsuccess⟩ hle ⟨⟩
    rw [if_neg (not_lt.2 ((hlimit _ _ _ hbefore hsuccess).2.trans hle))]
    rfl
  have hpays : sampleSandbox.PaysForPubdata 50 10000 := by
    intro call gasLimit output hexecuted hsuccess
    obtain ⟨hpubdata, hle⟩ := hlimit _ _ _ hexecuted hsuccess
    rw [hpubdata, show (12 : UInt32).toNat = 12 from rfl]
    omega
  have hfits : FundsFit sampleSender (sampleEstimatedTx .l1 1) := by
    rintro _ _ hok - - -
    cases hprice.symm.trans hok
    decide +kernel
  obtain ⟨_, found, output, -, -, -, hexecuted, hsuccess, -⟩ :=
    (((getTxsFeeInWei_sufficient_iff sampleSender (sampleEstimatedTx .l1 1) (fun _ _ => rfl)
      (by decide)).2 hfits 30000000 sampleSandbox hmono
        (fun _ _ hok => by cases hprice.symm.trans hok; exact hpays)) _ _ hprice).2 _ hfee
  exact ⟨hfee, found.2, output, hexecuted, hsuccess⟩

/-- **A value near the maximum.**  The required funds of a transaction of the L1 overflow in the
first trial. -/
theorem getTxsFeeInWei_overflows :
    sampleSender.gasPrice (sampleEstimatedTx .l1 (.allOnes 256)) = .ok (100, 50) ∧
      sampleSender.getTxsFeeInWei (sampleEstimatedTx .l1 (.allOnes 256)) sampleSandbox 30000000 =
        .panic := by
  decide +kernel

end GasEstimate
