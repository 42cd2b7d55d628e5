/-
The refund of a transaction.

All gas is paid in advance, at the base fee.  When a transaction is executed, the operator proposes
how much of it is given back, such that what is kept is at most the fair fee for the computation and
for the public data.

* `txBodyRefund_fair_iff` — the refund is fair unless the price of a byte overflows.
-/
import ViaCore.PubdataPrice

namespace FeeModel

structure L1BatchEnv where
  feeInput : BatchFeeInput
  enforcedBaseFee : Option UInt64

def BatchFeeInput.fairPubdataPrice (overflowChecks : Bool) : BatchFeeInput → Outcome Unit UInt64
  | .l1Pegged input => mulU64 overflowChecks input.l1GasPrice l1GasPerPubdataByte
  | .pubdataIndependent input => .ok input.fairPubdataPrice

def getBatchBaseFee (overflowChecks : Bool) (l1BatchEnv : L1BatchEnv) : Outcome Unit UInt64 :=
  match l1BatchEnv.enforcedBaseFee with
  | some baseFee => .ok baseFee
  | none => do
    let (baseFee, _) ← deriveBaseFeeAndGasPerPubdata overflowChecks l1BatchEnv.feeInput
    .ok baseFee

def subU64 (overflowChecks : Bool) (a b : UInt64) : Outcome Unit UInt64 :=
  if overflowChecks ∧ a < b then .panic else .ok (a - b)

def addU256 (a b : ℕ) : Outcome Unit ℕ := if a + b < 2 ^ 256 then .ok (a + b) else .panic

def ceilDivU256 (a b : ℕ) : Outcome Unit ℕ := do
  let dividend ← subU256 (← addU256 a b) 1
  if b = 0 then .panic else .ok (dividend / b)

structure GasUsage where
  bootloaderRefund : UInt64
  gasSpentOnPubdata : UInt64
  txGasLimit : UInt64
  currentErgsPerPubdataByte : UInt32
  pubdataPublished : UInt32

def txBodyRefund (overflowChecks : Bool) (l1Batch : L1BatchEnv) (usage : GasUsage) :
    Outcome Unit UInt64 := do
  let totalGasSpent ← subU64 overflowChecks usage.txGasLimit usage.bootloaderRefund
  -- each difference is zero, with an error in the log, if it would be negative
  let gasSpentOnComputation := totalGasSpent.toNat - usage.gasSpentOnPubdata.toNat
  let effectiveGasPrice ← getBatchBaseFee overflowChecks l1Batch
  let bootloaderEthPricePerPubdataByte ←
    mulU256 effectiveGasPrice.toNat usage.currentErgsPerPubdataByte.toNat
  let fairEthPricePerPubdataByte ← l1Batch.feeInput.fairPubdataPrice overflowChecks
  let ethPricePerPubdataByteForCalculation :=
    min bootloaderEthPricePerPubdataByte fairEthPricePerPubdataByte.toNat
  let fairFeeEth ←
    addU256 (← mulU256 gasSpentOnComputation l1Batch.feeInput.fairL2GasPrice.toNat)
      (← mulU256 usage.pubdataPublished.toNat ethPricePerPubdataByteForCalculation)
  let prePaidEth ← mulU256 usage.txGasLimit.toNat effectiveGasPrice.toNat
  let refundEth := prePaidEth - fairFeeEth
  asU64 (← ceilDivU256 refundEth effectiveGasPrice.toNat)

/-! ### Fair refunds -/

/-- For the computation and the public data. -/
def fairFee (input : BatchFeeInput) (baseFee : UInt64) (usage : GasUsage) : ℕ :=
  (usage.txGasLimit.toNat - usage.bootloaderRefund.toNat - usage.gasSpentOnPubdata.toNat) *
      input.fairL2GasPrice.toNat +
    usage.pubdataPublished.toNat *
      min (baseFee.toNat * usage.currentErgsPerPubdataByte.toNat) input.pubdataPrice

/-- The refund is between that of the bootloader and the limit, and the least such that the gas that
is kept costs at most the fair fee. -/
def FairRefund (overflowChecks : Bool) (input : BatchFeeInput) (usage : GasUsage) : Prop :=
  ∃ baseFee refund, getBatchBaseFee overflowChecks ⟨input, none⟩ = .ok baseFee ∧
    txBodyRefund overflowChecks ⟨input, none⟩ usage = .ok refund ∧
    usage.bootloaderRefund ≤ refund ∧ refund ≤ usage.txGasLimit ∧
    IsLeast {gas : ℕ | (usage.txGasLimit.toNat - gas) * baseFee.toNat ≤ fairFee input baseFee usage}
      refund.toNat

/-- No more is refunded or spent than there was, and public data is paid for. -/
structure GasUsage.Plausible (usage : GasUsage) : Prop where
  refund : usage.bootloaderRefund ≤ usage.txGasLimit
  spent : usage.gasSpentOnPubdata ≤ usage.txGasLimit - usage.bootloaderRefund
  published : usage.pubdataPublished.toNat * usage.currentErgsPerPubdataByte.toNat ≤
    usage.gasSpentOnPubdata.toNat

variable {overflowChecks : Bool} {input : BatchFeeInput} {usage : GasUsage} {baseFee : UInt64}

theorem fairPubdataPrice_ok (hprice : input.pubdataPrice < 2 ^ 64) :
    ∃ price, input.fairPubdataPrice overflowChecks = .ok price ∧
      price.toNat = input.pubdataPrice := by
  cases input with
  | pubdataIndependent i => exact ⟨_, rfl, rfl⟩
  | l1Pegged i =>
    refine ⟨_, if_neg fun hover => Nat.not_le.2 hprice hover.2, ?_⟩
    exact (UInt64.toNat_mul _ _).trans (Nat.mod_eq_of_lt hprice)

theorem ceilDivU256_eq {a b : ℕ} (hb : 0 < b) (hlt : a + b < 2 ^ 256) :
    ceilDivU256 a b = .ok ((a + b - 1) / b) := by
  have hadd : addU256 a b = .ok (a + b) := if_pos hlt
  have hsub : subU256 (a + b) 1 = .ok (a + b - 1) := if_pos (by omega)
  simp only [ceilDivU256, hadd, Outcome.ok_bind, hsub, if_neg hb.ne']

/-- Rounding up, as the least gas whose price is enough. -/
theorem ceil_le_iff {fee paid base gas : ℕ} (hbase : 0 < base) :
    (paid * base - fee + base - 1) / base ≤ gas ↔ (paid - gas) * base ≤ fee := by
  rw [← Nat.lt_add_one_iff, Nat.div_lt_iff_lt_mul hbase, Nat.sub_mul, Nat.add_mul]
  omega

/-- **The fair fee is not more** than what the bootloader keeps. -/
theorem fairFee_le (h : usage.Plausible) (hbase : input.fairL2GasPrice.toNat ≤ baseFee.toNat) :
    fairFee input baseFee usage ≤
      (usage.txGasLimit.toNat - usage.bootloaderRefund.toNat) * baseFee.toNat := by
  have hpubdata : usage.pubdataPublished.toNat *
      min (baseFee.toNat * usage.currentErgsPerPubdataByte.toNat) input.pubdataPrice ≤
      usage.gasSpentOnPubdata.toNat * baseFee.toNat := by
    calc _ ≤ usage.pubdataPublished.toNat *
          (baseFee.toNat * usage.currentErgsPerPubdataByte.toNat) :=
          Nat.mul_le_mul_left _ (min_le_left _ _)
      _ = usage.pubdataPublished.toNat * usage.currentErgsPerPubdataByte.toNat * baseFee.toNat := by
          ring
      _ ≤ _ := Nat.mul_le_mul_right _ h.published
  have hspent := UInt64.le_iff_toNat_le.1 h.spent
  rw [UInt64.toNat_sub_of_le _ _ h.refund] at hspent
  refine (Nat.add_le_add (Nat.mul_le_mul_left _ hbase) hpubdata).trans ?_
  rw [← Nat.add_mul]
  exact Nat.mul_le_mul_right _ (by omega)

theorem mulU256_eq {a b : ℕ} (ha : a < 2 ^ 64) (hb : b < 2 ^ 96) :
    mulU256 a b = .ok (a * b) ∧ a * b < 2 ^ 160 := by
  have hlt : a * b < 2 ^ 160 := (Nat.mul_lt_mul'' ha hb).trans_eq (by norm_num)
  exact ⟨if_pos (hlt.trans (by decide)), hlt⟩

theorem txBodyRefund_eq (hprice : input.pubdataPrice < 2 ^ 64)
    (hbase : getBatchBaseFee overflowChecks ⟨input, none⟩ = .ok baseFee) (hpos : 0 < baseFee.toNat)
    (hrefund : usage.bootloaderRefund ≤ usage.txGasLimit) :
    txBodyRefund overflowChecks ⟨input, none⟩ usage =
      asU64 ((usage.txGasLimit.toNat * baseFee.toNat - fairFee input baseFee usage + baseFee.toNat -
        1) / baseFee.toNat) := by
  obtain ⟨price, hfair, hprice'⟩ := @fairPubdataPrice_ok overflowChecks input hprice
  have hspent : subU64 overflowChecks usage.txGasLimit usage.bootloaderRefund =
      .ok (usage.txGasLimit - usage.bootloaderRefund) :=
    if_neg fun h => UInt64.not_lt.2 hrefund h.2
  have htotal := UInt64.toNat_sub_of_le _ _ hrefund
  have hlimit := usage.txGasLimit.toNat_lt
  have hbase' := baseFee.toNat_lt
  have hl2 := input.fairL2GasPrice.toNat_lt
  have hergs := usage.currentErgsPerPubdataByte.toNat_lt
  have hbytes := usage.pubdataPublished.toNat_lt
  have hbyte : min (baseFee.toNat * usage.currentErgsPerPubdataByte.toNat)
    input.pubdataPrice < 2 ^ 96 :=
    (min_le_right _ _).trans_lt (hprice.trans (by decide))
  -- no product comes near 256 bits
  obtain ⟨hbytePrice, -⟩ := mulU256_eq hbase' (hergs.trans (by decide))
  obtain ⟨hcomputation, hcomputation'⟩ := mulU256_eq (a := usage.txGasLimit.toNat -
    usage.bootloaderRefund.toNat - usage.gasSpentOnPubdata.toNat) (by omega) (hl2.trans (by decide))
  obtain ⟨hpubdata, hpubdata'⟩ := mulU256_eq (hbytes.trans (by decide)) hbyte
  obtain ⟨hpaid, hpaid'⟩ := mulU256_eq hlimit (hbase'.trans (by decide))
  have hfee : addU256 _ _ = .ok (fairFee input baseFee usage) :=
    if_pos ((Nat.add_lt_add hcomputation' hpubdata').trans (by decide))
  have hdiv := ceilDivU256_eq (a := usage.txGasLimit.toNat * baseFee.toNat -
    fairFee input baseFee usage) hpos (by omega)
  simp only [txBodyRefund, hspent, hbase, hfair, hprice', htotal, hbytePrice, hcomputation,
    hpubdata, hpaid, hfee, hdiv, Outcome.ok_bind]

/-- **The refund is fair unless the price of a byte overflows.**  In builds with overflow checks it
is fair exactly if the price of a byte has 64 bits; then it is fair in the others as well. -/
theorem txBodyRefund_fair_iff (hl2 : 1 ≤ input.fairL2GasPrice) (h : usage.Plausible) :
    (FairRefund true input usage ↔ input.pubdataPrice < 2 ^ 64) ∧
      (input.pubdataPrice < 2 ^ 64 → FairRefund false input usage) := by
  have hfair : ∀ overflowChecks, input.pubdataPrice < 2 ^ 64 →
      FairRefund overflowChecks input usage := by
    intro overflowChecks hprice
    obtain ⟨baseFee, gasPerPubdata, hderive, hderived⟩ := @derive_ok overflowChecks input hprice
    have hbase : getBatchBaseFee overflowChecks ⟨input, none⟩ = .ok baseFee := by
      simp only [getBatchBaseFee, hderive, Outcome.ok_bind]
    have hl2' := ((hderived.baseFee_le_iff _).1 le_rfl).1
    have hpos : 0 < baseFee.toNat := (UInt64.le_iff_toNat_le.1 hl2).trans hl2'
    have hle := UInt64.le_iff_toNat_le.1 h.refund
    -- the division rounds up, so the quotient is the least refund
    have hleast := fun gas =>
      @ceil_le_iff (fairFee input baseFee usage) usage.txGasLimit.toNat _ gas hpos
    have hlimit := (hleast usage.txGasLimit.toNat).2 (by simp)
    have hlt := hlimit.trans_lt usage.txGasLimit.toNat_lt
    refine ⟨baseFee, _, hbase, (txBodyRefund_eq hprice hbase hpos h.refund).trans (if_pos hlt), ?_⟩
    rw [UInt64.le_iff_toNat_le, UInt64.le_iff_toNat_le, UInt64.toNat_ofNat_of_lt' hlt]
    have hkept := (hleast _).1 le_rfl
    refine ⟨?_, hlimit, hkept, fun gas hgas => (hleast gas).2 hgas⟩
    have hgas := Nat.le_of_mul_le_mul_right (hkept.trans (fairFee_le h hl2')) hpos
    omega
  refine ⟨⟨?_, hfair true⟩, hfair false⟩
  -- a price that does not fit panics already in the base fee
  rintro ⟨baseFee, refund, hbase, -⟩
  by_contra hprice
  cases input with
  | pubdataIndependent i => exact hprice i.fairPubdataPrice.toNat_lt
  | l1Pegged i =>
    have hpanic : mulU64 true i.l1GasPrice l1GasPerPubdataByte = .panic :=
      if_pos ⟨rfl, not_lt.1 hprice⟩
    simp only [getBatchBaseFee, deriveBaseFeeAndGasPerPubdata, BatchFeeInput.intoPubdataIndependent,
      hpanic] at hbase
    cases hbase

def sampleUsage : GasUsage := ⟨5000, 10000, 20000, 1000, 10⟩

theorem txBodyRefund_fair_sample : FairRefund true (.pubdataIndependent ⟨1, 700, 1⟩) sampleUsage :=
  (txBodyRefund_fair_iff (by decide) ⟨by decide, by decide, by decide⟩).1.2 (by decide)

/-- The price of a byte is `2 ^ 64 * 16 + 1`: a panic, or a price of one, at which too much is given
back. -/
theorem txBodyRefund_overflow :
    txBodyRefund true ⟨.l1Pegged ⟨1, 0xF0F0F0F0F0F0F0F1⟩, none⟩ sampleUsage = .panic ∧
      ¬ FairRefund false (.l1Pegged ⟨1, 0xF0F0F0F0F0F0F0F1⟩) sampleUsage := by
  refine ⟨by decide +kernel, ?_⟩
  rintro ⟨baseFee, refund, hbase, hrefund, -, -, -, hleast⟩
  obtain rfl : 1 = baseFee := Outcome.ok.inj (.trans (by decide +kernel) hbase)
  obtain rfl : 14990 = refund := Outcome.ok.inj (.trans (by decide +kernel) hrefund)
  exact absurd (hleast (a := 5000) (by decide +kernel)) (by decide)

end FeeModel
