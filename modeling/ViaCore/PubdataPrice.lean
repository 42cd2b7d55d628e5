/-
The fee input of a batch, and its adjustment to a transaction.

The base fee and the gas per byte of public data are derived from the fee input with two divisions
that round up.  For a transaction with a lower limit the input is lowered, so that both come out at
most at the limit.

* `adjustPubdataPriceForTx_iff` — when the adjustment reaches its target.
-/
import ViaCore.Outcome

namespace FeeModel

/-- `MAX_GAS_PER_PUBDATA_BYTE` of the current VM. -/
def maxGasPerPubdataByte : UInt64 := 50000

def l1GasPerPubdataByte : UInt64 := 17

structure L1PeggedBatchFeeModelInput where
  fairL2GasPrice : UInt64
  l1GasPrice : UInt64
  deriving DecidableEq

structure PubdataIndependentBatchFeeModelInput where
  fairL2GasPrice : UInt64
  fairPubdataPrice : UInt64
  l1GasPrice : UInt64
  deriving DecidableEq

inductive BatchFeeInput where
  | l1Pegged (input : L1PeggedBatchFeeModelInput)
  | pubdataIndependent (input : PubdataIndependentBatchFeeModelInput)
  deriving DecidableEq

def BatchFeeInput.fairL2GasPrice : BatchFeeInput → UInt64
  | .l1Pegged input => input.fairL2GasPrice
  | .pubdataIndependent input => input.fairL2GasPrice

/-- A product of two numbers of 64 bits, which panics in builds that check for overflow and wraps
around in others. -/
def mulU64 (overflowChecks : Bool) (a b : UInt64) : Outcome Unit UInt64 :=
  if overflowChecks ∧ 2 ^ 64 ≤ a.toNat * b.toNat then .panic else .ok (a * b)

def BatchFeeInput.intoPubdataIndependent (overflowChecks : Bool) :
    BatchFeeInput → Outcome Unit PubdataIndependentBatchFeeModelInput
  | .pubdataIndependent input => .ok input
  | .l1Pegged input => do
    let fairPubdataPrice ← mulU64 overflowChecks input.l1GasPrice l1GasPerPubdataByte
    .ok ⟨input.fairL2GasPrice, fairPubdataPrice, input.l1GasPrice⟩

def ceilDiv (a b : UInt64) : Outcome Unit UInt64 :=
  if a = 0 then .ok a
  else if b = 0 then .panic
  else .ok ((a - 1) / b + 1)

def deriveLatest (feeInput : PubdataIndependentBatchFeeModelInput) :
    Outcome Unit (UInt64 × UInt64) := do
  let baseFee := max feeInput.fairL2GasPrice
    (← ceilDiv feeInput.fairPubdataPrice maxGasPerPubdataByte)
  let gasPerPubdata ← ceilDiv feeInput.fairPubdataPrice baseFee
  .ok (baseFee, gasPerPubdata)

def deriveBaseFeeAndGasPerPubdata (overflowChecks : Bool) (batchFeeInput : BatchFeeInput) :
    Outcome Unit (UInt64 × UInt64) := do
  deriveLatest (← batchFeeInput.intoPubdataIndependent overflowChecks)

/-- `a - b`, which panics in every build. -/
def subU256 (a b : ℕ) : Outcome Unit ℕ := if b ≤ a then .ok (a - b) else .panic

def mulU256 (a b : ℕ) : Outcome Unit ℕ := if a * b < 2 ^ 256 then .ok (a * b) else .panic

def asU64 (a : ℕ) : Outcome Unit UInt64 := if a < 2 ^ 64 then .ok (.ofNat a) else .panic

def BatchFeeInput.lower (maxBaseFee desiredGasPerPubdata : ℕ) :
    BatchFeeInput → Outcome Unit BatchFeeInput
  | .l1Pegged feeInput => do
    let currentL2FairGasPrice := feeInput.fairL2GasPrice.toNat
    let fairL2GasPrice :=
      if maxBaseFee < currentL2FairGasPrice then maxBaseFee else currentL2FairGasPrice
    let product ← mulU256 fairL2GasPrice (← subU256 desiredGasPerPubdata 1)
    let newL1GasPrice ← asU64 (product / 17)
    .ok (.l1Pegged ⟨← asU64 fairL2GasPrice, newL1GasPrice⟩)
  | .pubdataIndependent feeInput => do
    let currentL2FairGasPrice := feeInput.fairL2GasPrice.toNat
    let fairL2GasPrice :=
      if maxBaseFee < currentL2FairGasPrice then maxBaseFee else currentL2FairGasPrice
    let newFairPubdataPrice ← mulU256 fairL2GasPrice (← subU256 desiredGasPerPubdata 1)
    let newFairPubdataPrice ← asU64 newFairPubdataPrice
    .ok (.pubdataIndependent ⟨← asU64 fairL2GasPrice, newFairPubdataPrice, feeInput.l1GasPrice⟩)

def adjustPubdataPriceForTx (overflowChecks : Bool) (batchFeeInput : BatchFeeInput)
    (txGasPerPubdataLimit : BitVec 256) (maxBaseFee : Option (BitVec 256)) :
    Outcome Unit BatchFeeInput := do
  let maxBaseFee := (maxBaseFee.getD (BitVec.allOnes 256)).toNat
  let desiredGasPerPubdata := min txGasPerPubdataLimit.toNat maxGasPerPubdataByte.toNat
  let (currentBaseFee, currentGasPerPubdata) ←
    deriveBaseFeeAndGasPerPubdata overflowChecks batchFeeInput
  if currentGasPerPubdata.toNat ≤ desiredGasPerPubdata ∧ currentBaseFee.toNat ≤ maxBaseFee then
    .ok batchFeeInput
  else batchFeeInput.lower maxBaseFee desiredGasPerPubdata

/-! ### Deriving -/

variable {overflowChecks : Bool} {input : BatchFeeInput} {a b c baseFee gasPerPubdata : UInt64}

theorem ceilDiv_ok (h : a = 0 ∨ b ≠ 0) : ∃ c, ceilDiv a b = .ok c := by
  unfold ceilDiv
  split
  · exact ⟨a, rfl⟩
  · rename_i ha
    rw [if_neg (h.resolve_left ha)]
    exact ⟨_, rfl⟩

theorem ceilDiv_le_iff (h : ceilDiv a b = .ok c) (k : ℕ) : c.toNat ≤ k ↔ a.toNat ≤ k * b.toNat := by
  unfold ceilDiv at h
  split at h
  · rename_i ha
    rw [← Outcome.ok.inj h, ha]
    simp
  · rename_i ha
    split at h
    · cases h
    · rename_i hb
      have hapos : 0 < a.toNat := Nat.pos_of_ne_zero fun h0 => ha (UInt64.toNat.inj h0)
      have hbpos : 0 < b.toNat := Nat.pos_of_ne_zero fun h0 => hb (UInt64.toNat.inj h0)
      have hle : (a.toNat - 1) / b.toNat ≤ a.toNat - 1 := Nat.div_le_self _ _
      have hlt := a.toNat_lt
      have hsub : (a - 1).toNat = a.toNat - 1 :=
        UInt64.toNat_sub_of_le _ _ (UInt64.le_iff_toNat_le.2 hapos)
      have hc : c.toNat = (a.toNat - 1) / b.toNat + 1 := by
        rw [← Outcome.ok.inj h, UInt64.toNat_add, UInt64.toNat_div, hsub]
        exact Nat.mod_eq_of_lt (by show _ + 1 < _; omega)
      rw [hc, Nat.add_one_le_iff, Nat.div_lt_iff_lt_mul hbpos]
      omega

structure Derived (fairL2GasPrice fairPubdataPrice baseFee gasPerPubdata : ℕ) : Prop where
  baseFee_le_iff : ∀ k, baseFee ≤ k ↔ fairL2GasPrice ≤ k ∧ fairPubdataPrice ≤ k * 50000
  gasPerPubdata_le_iff : ∀ k, gasPerPubdata ≤ k ↔ fairPubdataPrice ≤ k * baseFee

theorem deriveLatest_ok (feeInput : PubdataIndependentBatchFeeModelInput) :
    ∃ baseFee gasPerPubdata, deriveLatest feeInput = .ok (baseFee, gasPerPubdata) ∧
      ceilDiv feeInput.fairPubdataPrice baseFee = .ok gasPerPubdata ∧
      Derived feeInput.fairL2GasPrice.toNat feeInput.fairPubdataPrice.toNat baseFee.toNat
        gasPerPubdata.toNat := by
  obtain ⟨least, hleast⟩ := @ceilDiv_ok feeInput.fairPubdataPrice maxGasPerPubdataByte
    (.inr (by decide))
  have hbase : ∀ k : ℕ, (max feeInput.fairL2GasPrice least).toNat ≤ k ↔
      feeInput.fairL2GasPrice.toNat ≤ k ∧ feeInput.fairPubdataPrice.toNat ≤ k * 50000 := by
    intro k
    rw [← show maxGasPerPubdataByte.toNat = 50000 from rfl, ← ceilDiv_le_iff hleast]
    show (if feeInput.fairL2GasPrice ≤ least then least else feeInput.fairL2GasPrice).toNat ≤ k ↔ _
    simp only [UInt64.le_iff_toNat_le]
    split <;> omega
  have hzero : feeInput.fairPubdataPrice = 0 ∨ max feeInput.fairL2GasPrice least ≠ 0 := by
    by_contra hboth
    obtain ⟨hprice, hmax⟩ := not_or.1 hboth
    have hle := ((hbase 0).1 (by rw [not_not.1 hmax]; rfl)).2
    exact hprice (UInt64.toNat.inj (Nat.le_zero.1 (by simpa using hle)))
  obtain ⟨gas, hgas⟩ := ceilDiv_ok hzero
  refine ⟨_, gas, ?_, hgas, hbase, ceilDiv_le_iff hgas⟩
  simp only [deriveLatest, hleast, Outcome.ok_bind, hgas]

def BatchFeeInput.pubdataPrice : BatchFeeInput → ℕ
  | .l1Pegged input => input.l1GasPrice.toNat * 17
  | .pubdataIndependent input => input.fairPubdataPrice.toNat

theorem derive_ok (hprice : input.pubdataPrice < 2 ^ 64) : ∃ baseFee gasPerPubdata,
    deriveBaseFeeAndGasPerPubdata overflowChecks input = .ok (baseFee, gasPerPubdata) ∧
      Derived input.fairL2GasPrice.toNat input.pubdataPrice baseFee.toNat gasPerPubdata.toNat := by
  cases input with
  | pubdataIndependent i =>
    obtain ⟨baseFee, gasPerPubdata, hlatest, -, hderived⟩ := deriveLatest_ok i
    exact ⟨baseFee, gasPerPubdata, hlatest, hderived⟩
  | l1Pegged i =>
    have hmul : mulU64 overflowChecks i.l1GasPrice l1GasPerPubdataByte =
        .ok (i.l1GasPrice * l1GasPerPubdataByte) :=
      if_neg fun hover => Nat.not_le.2 hprice hover.2
    have hprice' : (i.l1GasPrice * l1GasPerPubdataByte).toNat = i.l1GasPrice.toNat * 17 :=
      (UInt64.toNat_mul _ _).trans (Nat.mod_eq_of_lt hprice)
    obtain ⟨baseFee, gasPerPubdata, hlatest, -, hderived⟩ := deriveLatest_ok
      ⟨i.fairL2GasPrice, i.l1GasPrice * l1GasPerPubdataByte, i.l1GasPrice⟩
    rw [hprice'] at hderived
    refine ⟨baseFee, gasPerPubdata, ?_, hderived⟩
    simp only [deriveBaseFeeAndGasPerPubdata, BatchFeeInput.intoPubdataIndependent, hmul,
      Outcome.ok_bind, hlatest]

/-! ### Adjusting -/

def Fits (overflowChecks : Bool) (input : BatchFeeInput) (limit : BitVec 256)
    (maxBaseFee : Option (BitVec 256)) : Prop :=
  ∃ baseFee gasPerPubdata,
    deriveBaseFeeAndGasPerPubdata overflowChecks input = .ok (baseFee, gasPerPubdata) ∧
      gasPerPubdata.toNat ≤ min limit.toNat maxGasPerPubdataByte.toNat ∧
      ∀ fee ∈ maxBaseFee, baseFee.toNat ≤ fee.toNat

variable {limit : BitVec 256} {maxBaseFee : Option (BitVec 256)}

theorem le_getD_iff (a : UInt64) : a.toNat ≤ (maxBaseFee.getD (BitVec.allOnes 256)).toNat ↔
    ∀ fee ∈ maxBaseFee, a.toNat ≤ fee.toNat := by
  cases maxBaseFee with
  | none =>
    have hlt := a.toNat_lt
    simp only [Option.getD_none, BitVec.toNat_allOnes, Option.not_mem_none, false_implies,
      implies_true, iff_true]
    omega
  | some fee => simp

theorem lower_ok {bound desired : ℕ} (hpos : 1 ≤ desired) (hle : desired ≤ 50000)
    (hsmall : input.fairL2GasPrice.toNat * 50000 < 2 ^ 64) :
    ∃ adjusted, input.lower bound desired = .ok adjusted ∧
      adjusted.fairL2GasPrice.toNat = min bound input.fairL2GasPrice.toNat ∧
      adjusted.pubdataPrice ≤ min bound input.fairL2GasPrice.toNat * (desired - 1) := by
  have hsub : subU256 desired 1 = .ok (desired - 1) := if_pos hpos
  have hif : ∀ fair : ℕ, (if bound < fair then bound else fair) = min bound fair := by
    intro fair
    split <;> omega
  have hfair : min bound input.fairL2GasPrice.toNat < 2 ^ 64 :=
    (min_le_right _ _).trans_lt (by omega)
  -- what is lowered fits again
  have hproduct : min bound input.fairL2GasPrice.toNat * (desired - 1) < 2 ^ 64 :=
    (Nat.mul_le_mul (min_le_right _ _) (by omega)).trans_lt hsmall
  have hmul : mulU256 (min bound input.fairL2GasPrice.toNat) (desired - 1) =
      .ok (min bound input.fairL2GasPrice.toNat * (desired - 1)) :=
    if_pos (hproduct.trans (by decide))
  have hu64 : ∀ n < 2 ^ 64, asU64 n = .ok (.ofNat n) := fun n hn => if_pos hn
  have hnat : ∀ n < 2 ^ 64, (UInt64.ofNat n).toNat = n := fun n hn => UInt64.toNat_ofNat_of_lt' hn
  cases input with
  | l1Pegged feeInput =>
    simp only [BatchFeeInput.fairL2GasPrice] at hfair hproduct hmul ⊢
    have hdiv := Nat.div_mul_le_self (min bound feeInput.fairL2GasPrice.toNat * (desired - 1)) 17
    have hlt := (Nat.div_le_self _ 17).trans_lt hproduct
    simp only [BatchFeeInput.lower, hif, hsub, hmul, hu64 _ hfair, hu64 _ hlt, Outcome.ok_bind]
    refine ⟨_, rfl, hnat _ hfair, ?_⟩
    rwa [BatchFeeInput.pubdataPrice, hnat _ hlt]
  | pubdataIndependent feeInput =>
    simp only [BatchFeeInput.fairL2GasPrice] at hfair hproduct hmul ⊢
    simp only [BatchFeeInput.lower, hif, hsub, hmul, hu64 _ hfair, hu64 _ hproduct, Outcome.ok_bind]
    exact ⟨_, rfl, hnat _ hfair, (hnat _ hproduct).le⟩

theorem fits_of_le {fair : ℕ} (hfair : input.fairL2GasPrice.toNat = fair)
    (hprice : input.pubdataPrice ≤ fair * (min limit.toNat maxGasPerPubdataByte.toNat - 1))
    (hsmall : fair * 50000 < 2 ^ 64) (hmax : ∀ fee ∈ maxBaseFee, fair ≤ fee.toNat) :
    Fits overflowChecks input limit maxBaseFee := by
  have hmin : min limit.toNat maxGasPerPubdataByte.toNat ≤ 50000 := min_le_right _ _
  have hle : input.pubdataPrice ≤ fair * 50000 :=
    hprice.trans (Nat.mul_le_mul_left _ ((Nat.sub_le _ _).trans hmin))
  obtain ⟨baseFee, gasPerPubdata, hderive, hderived⟩ :=
    @derive_ok overflowChecks input (hle.trans_lt hsmall)
  rw [hfair] at hderived
  have hbase : baseFee.toNat ≤ fair := (hderived.baseFee_le_iff _).2 ⟨le_rfl, hle⟩
  have hbase' : fair ≤ baseFee.toNat := ((hderived.baseFee_le_iff _).1 le_rfl).1
  refine ⟨baseFee, gasPerPubdata, hderive, ?_, fun fee hfee => hbase.trans (hmax fee hfee)⟩
  rw [hderived.gasPerPubdata_le_iff, Nat.mul_comm]
  exact hprice.trans (Nat.mul_le_mul hbase' (Nat.sub_le _ _))

theorem adjust_eq (hprice : input.pubdataPrice < 2 ^ 64) :
    (Fits overflowChecks input limit maxBaseFee ∧
      adjustPubdataPriceForTx overflowChecks input limit maxBaseFee = .ok input) ∨
    ¬ Fits overflowChecks input limit maxBaseFee ∧
      adjustPubdataPriceForTx overflowChecks input limit maxBaseFee =
        input.lower (maxBaseFee.getD (BitVec.allOnes 256)).toNat
          (min limit.toNat maxGasPerPubdataByte.toNat) := by
  obtain ⟨baseFee, gasPerPubdata, hderive, -⟩ := @derive_ok overflowChecks input hprice
  simp only [adjustPubdataPriceForTx, Fits, hderive, Outcome.ok_bind, le_getD_iff]
  split
  · rename_i hfits
    exact .inl ⟨⟨_, _, rfl, hfits⟩, rfl⟩
  · rename_i hfits
    refine .inr ⟨?_, rfl⟩
    rintro ⟨_, _, heq, h⟩
    cases heq
    exact hfits h

def baseFees (feeInput : PubdataIndependentBatchFeeModelInput) : Set UInt64 :=
  {fee | feeInput.fairL2GasPrice ≤ fee ∧
    ∃ gas, ceilDiv feeInput.fairPubdataPrice fee = .ok gas ∧ gas ≤ maxGasPerPubdataByte}

theorem Derived.isLeast {feeInput : PubdataIndependentBatchFeeModelInput}
    (h : Derived feeInput.fairL2GasPrice.toNat feeInput.fairPubdataPrice.toNat baseFee.toNat
      gasPerPubdata.toNat) (hgas : ceilDiv feeInput.fairPubdataPrice baseFee = .ok gasPerPubdata) :
    gasPerPubdata ≤ maxGasPerPubdataByte ∧ IsLeast (baseFees feeInput) baseFee := by
  obtain ⟨hfair, hprice⟩ := (h.baseFee_le_iff _).1 le_rfl
  have hmax : gasPerPubdata ≤ maxGasPerPubdataByte := by
    rw [UInt64.le_iff_toNat_le, h.gasPerPubdata_le_iff, Nat.mul_comm]
    exact hprice
  refine ⟨hmax, ⟨UInt64.le_iff_toNat_le.2 hfair, gasPerPubdata, hgas, hmax⟩, ?_⟩
  rintro fee ⟨hfee, gas, hdiv, hle⟩
  rw [UInt64.le_iff_toNat_le, h.baseFee_le_iff]
  refine ⟨UInt64.le_iff_toNat_le.1 hfee, ?_⟩
  rw [Nat.mul_comm]
  exact (ceilDiv_le_iff hdiv _).1 (UInt64.le_iff_toNat_le.1 hle)

/-- **The target is reached unless the limit is zero.**  The adjustment returns an input with which
both limits are met, and the same input if they were, exactly if the limit is not zero or they were
met. -/
theorem adjustPubdataPriceForTx_iff (hsmall : input.fairL2GasPrice.toNat * 50000 < 2 ^ 64)
    (hpegged : ∀ i, input = .l1Pegged i → i.l1GasPrice.toNat * 17 < 2 ^ 64) :
    ((∃ adjusted, adjustPubdataPriceForTx overflowChecks input limit maxBaseFee = .ok adjusted ∧
        Fits overflowChecks adjusted limit maxBaseFee ∧
        (Fits overflowChecks input limit maxBaseFee → adjusted = input)) ↔
      limit ≠ 0 ∨ Fits overflowChecks input limit maxBaseFee) ∧
    ∀ (any : BatchFeeInput) (feeInput : PubdataIndependentBatchFeeModelInput),
      any.intoPubdataIndependent overflowChecks = .ok feeInput → ∃ baseFee gasPerPubdata,
        deriveBaseFeeAndGasPerPubdata overflowChecks any = .ok (baseFee, gasPerPubdata) ∧
        gasPerPubdata ≤ maxGasPerPubdataByte ∧ IsLeast (baseFees feeInput) baseFee := by
  have hprice : input.pubdataPrice < 2 ^ 64 := by
    cases input with
    | l1Pegged i => exact hpegged i rfl
    | pubdataIndependent i => exact i.fairPubdataPrice.toNat_lt
  refine ⟨?_, fun any feeInput hinto => ?_⟩
  · rcases adjust_eq hprice with ⟨hfits, hadjust⟩ | ⟨hfits, hadjust⟩
    · exact iff_of_true ⟨input, hadjust, hfits, fun _ => rfl⟩ (.inr hfits)
    · rw [hadjust]
      by_cases hlimit : limit = 0
      · -- one is subtracted from the limit, whatever the input
        subst hlimit
        refine iff_of_false ?_ (not_or.2 ⟨not_not.2 rfl, hfits⟩)
        rintro ⟨adjusted, hlower, -⟩
        cases input <;> cases hlower
      · have hpos : 1 ≤ min limit.toNat maxGasPerPubdataByte.toNat :=
          le_min (Nat.pos_of_ne_zero fun h0 => hlimit (BitVec.eq_of_toNat_eq h0)) (by decide)
        obtain ⟨adjusted, hlower, hfair, hlow⟩ := lower_ok hpos (min_le_right _ _) hsmall
        refine iff_of_true ⟨adjusted, hlower, ?_, fun h => absurd h hfits⟩ (.inl hlimit)
        refine fits_of_le hfair hlow ?_ fun fee hfee => ?_
        · exact (Nat.mul_le_mul_right _ (min_le_right _ _)).trans_lt hsmall
        · rw [Option.mem_def.1 hfee]
          exact min_le_left _ _
  · obtain ⟨baseFee, gasPerPubdata, hlatest, hgas, hderived⟩ := deriveLatest_ok feeInput
    refine ⟨baseFee, gasPerPubdata, ?_, hderived.isLeast hgas⟩
    rw [deriveBaseFeeAndGasPerPubdata, hinto, Outcome.ok_bind, hlatest]

theorem adjustPubdataPriceForTx_pegged :
    ∃ adjusted, adjustPubdataPriceForTx true (.l1Pegged ⟨100, 1000⟩) 50 (some 40) = .ok adjusted ∧
      Fits true adjusted 50 (some 40) := by
  obtain ⟨adjusted, hadjust, hfits, -⟩ := (@adjustPubdataPriceForTx_iff true
    (.l1Pegged ⟨100, 1000⟩) 50 (some 40) (by decide) (by rintro i ⟨⟩; decide)).1.2
      (.inl (by decide))
  exact ⟨adjusted, hadjust, hfits⟩

/-- A limit of zero is a panic in every build. -/
theorem adjustPubdataPriceForTx_zero :
    adjustPubdataPriceForTx false (.pubdataIndependent ⟨1, 1, 1⟩) 0 none = .panic ∧
      adjustPubdataPriceForTx true (.pubdataIndependent ⟨1, 1, 1⟩) 0 none = .panic := by
  decide

end FeeModel
