/-
Fee estimates against the size of the signed transactions.

The inscriber pays for an estimate: constants for every input and output, and a quarter of the
script that is revealed.  The node asks for the virtual size, a quarter of the weight, rounded up.
The estimate covers the commit transaction.  The reveal transaction has a control block in its
witness that is not counted, and a recipient is counted as a short output, so that its estimate can
be too low.

* `fee_covers_iff` — both fees, and when the one of the reveal transaction suffices.
-/
import ViaCore.DoubleSpend

/-- The length of a number in front of a list or a string. -/
def compactSizeLen (n : ℕ) : ℕ :=
  if n < 253 then 1 else if n < 2 ^ 16 then 3 else if n < 2 ^ 32 then 5 else 9

theorem compactSizeLen_of_lt {n : ℕ} (h : n < 253) : compactSizeLen n = 1 := if_pos h

theorem compactSizeLen_le (n : ℕ) : 60 * compactSizeLen n ≤ 60 + n := by
  unfold compactSizeLen
  split_ifs <;> omega

def stringSize (bytes : Bytes) : ℕ := compactSizeLen bytes.length + bytes.length

def TxOut.size (output : TxOut) : ℕ := 8 + stringSize output.scriptPubkey

def TxIn.baseSize (input : TxIn) : ℕ := 36 + stringSize input.scriptSig + 4

def TxIn.witnessSize (input : TxIn) : ℕ :=
  compactSizeLen input.witness.length + (input.witness.map stringSize).sum

namespace Transaction

def baseSize (tx : Transaction) : ℕ :=
  4 + compactSizeLen tx.input.length + (tx.input.map TxIn.baseSize).sum +
    compactSizeLen tx.output.length + (tx.output.map TxOut.size).sum + 4

def totalSize (tx : Transaction) : ℕ := tx.baseSize + 2 + (tx.input.map TxIn.witnessSize).sum

def weight (tx : Transaction) : ℕ := 3 * tx.baseSize + tx.totalSize

/-- A quarter of the weight, rounded up. -/
def vsize (tx : Transaction) : ℕ := (tx.weight + 3) / 4

theorem vsize_le_iff {tx : Transaction} {n : ℕ} : tx.vsize ≤ n ↔ tx.weight ≤ 4 * n := by
  unfold vsize
  omega

end Transaction

/-- The sizes of keys, signatures and scripts.  A signature comes with one byte for its type. -/
structure BitcoinSigner.Sizes (signer : BitcoinSigner) : Prop where
  p2wpkh : signer.p2wpkhScriptPubkey.length = 22
  publicKey : signer.publicKey.length = 33
  ecdsa : ∀ tx index amount, (signer.signP2wpkh tx index amount).length ≤ 72 + 1
  schnorr : ∀ tx index prevOuts script, (signer.signTapscript tx index prevOuts script).length ≤ 65
  taproot : ∀ script, (signer.taprootScriptPubkey script).length = 34

section Fees

variable {Address : Type} {B : RustBitcoin Address} {self : Inscriber Address}

def SignedP2wpkh (input : TxIn) : Prop :=
  input.scriptSig = [] ∧ ∃ signature publicKey, input.witness = [signature, publicKey] ∧
    signature.length ≤ 72 + 1 ∧ publicKey.length = 33

theorem SignedP2wpkh.baseSize {input : TxIn} (h : SignedP2wpkh input) : input.baseSize = 41 := by
  rw [TxIn.baseSize, h.1]
  rfl

theorem SignedP2wpkh.witnessSize_le {input : TxIn} (h : SignedP2wpkh input) :
    input.witnessSize ≤ 109 := by
  obtain ⟨-, signature, publicKey, hwitness, hsignature, hpublicKey⟩ := h
  have hone : compactSizeLen signature.length = 1 := compactSizeLen_of_lt (by omega)
  rw [TxIn.witnessSize, hwitness]
  simp only [List.map_cons, List.map_nil, List.sum_cons, List.sum_nil, stringSize, hone, hpublicKey,
    List.length_cons, List.length_nil]
  rw [compactSizeLen_of_lt (by decide), compactSizeLen_of_lt (by decide)]
  omega

theorem sum_map_const {α : Type} {f : α → ℕ} {c : ℕ} {xs : List α} (h : ∀ x ∈ xs, f x = c) :
    (xs.map f).sum = c * xs.length := by
  rw [List.map_congr_left h, List.map_const', List.sum_replicate, smul_eq_mul, Nat.mul_comm]

theorem sum_map_le {α : Type} {f : α → ℕ} {c : ℕ} {xs : List α} (h : ∀ x ∈ xs, f x ≤ c) :
    (xs.map f).sum ≤ c * xs.length := by
  have hle := List.sum_le_card_nsmul (xs.map f) c (List.forall_mem_map.2 h)
  rwa [List.length_map, smul_eq_mul, Nat.mul_comm] at hle

variable {tx : Transaction}

theorem weight_le_of_signedP2wpkh (h : ∀ input ∈ tx.input, SignedP2wpkh input) :
    tx.weight ≤ 4 * (8 + compactSizeLen tx.input.length + compactSizeLen tx.output.length +
      (tx.output.map TxOut.size).sum) + 2 + 273 * tx.input.length := by
  have hbase := sum_map_const fun input hinput => (h input hinput).baseSize
  have hwitness := sum_map_le fun input hinput => (h input hinput).witnessSize_le
  rw [Transaction.weight, Transaction.totalSize, Transaction.baseSize, hbase]
  omega

def Transaction.paidFee (tx : Transaction) (unlockedValue : ℕ) : ℕ :=
  unlockedValue - (tx.output.map TxOut.value).sum

def Transaction.witnessLen (tx : Transaction) (input element : ℕ) : ℕ :=
  (((tx.input[input]?).bind fun txIn => txIn.witness[element]?).map List.length).getD 0

namespace Inscriber

def commitTx (self : Inscriber Address) (B : RustBitcoin Address) (utxos : List (OutPoint × TxOut))
    (commitOutput : CommitTxOutputRes) : FinalTx :=
  self.signCommitTx B (self.prepareCommitTxInput utxos) commitOutput

def revealTxInput (self : Inscriber Address) (B : RustBitcoin Address)
    (utxos : List (OutPoint × TxOut)) (commitOutput : CommitTxOutputRes) (data : InscriptionData) :
    RevealTxInputRes :=
  self.prepareRevealTxInput commitOutput (self.commitTx B utxos commitOutput) data

def revealTx (self : Inscriber Address) (B : RustBitcoin Address) (utxos : List (OutPoint × TxOut))
    (commitOutput : CommitTxOutputRes) (data : InscriptionData) (revealOutput : RevealTxOutputRes) :
    FinalTx :=
  self.signRevealTx B (self.revealTxInput B utxos commitOutput data) revealOutput data

/-- Both transactions are prepared for a script, with these outputs and at these rates of the node.
Inputs are counted in 32 bits. -/
structure Builds (self : Inscriber Address) (B : RustBitcoin Address) (data : InscriptionData)
    (utxos : List (OutPoint × TxOut)) (config : InscriptionConfig)
    (recipient : Option (Recipient Address)) (nodeFeeRate revealFeeRate : ℕ)
    (commitOutput : CommitTxOutputRes) (revealOutput : RevealTxOutputRes) : Prop where
  scriptSize : data.scriptSize = data.inscriptionScript.length
  scriptPubkey : data.scriptPubkey = self.signer.taprootScriptPubkey data.inscriptionScript
  inputs : (self.spendableUtxos utxos).length < 2 ^ 32
  commit : self.prepareCommitTxOutput (self.prepareCommitTxInput utxos) data.scriptPubkey config
    nodeFeeRate = .ok commitOutput
  reveal : self.prepareRevealTxOutput B
    (self.revealTxInput B utxos commitOutput data) data recipient
    revealFeeRate = .ok revealOutput

end Inscriber

theorem checkedSub_eq_ok {spendable required rest : ℕ}
    (h : Inscriber.checkedSub spendable required = .ok rest) : required + rest = spendable := by
  rw [Inscriber.checkedSub] at h
  split_ifs at h with hle
  rw [← Outcome.ok.inj h, Nat.add_sub_cancel' hle]

def commitSizeEstimate (inputs : ℕ) : ℕ := 88 + 69 * inputs

def revealSizeEstimate (scriptSize : ℕ) (recipient : Option (Recipient Address)) : ℕ :=
  176 + scriptSize / 4 + if recipient.isSome then 34 else 0

variable {output commitOutput : CommitTxOutputRes} {config : InscriptionConfig}
  {nodeFeeRate feeRate : ℕ} {pubkey : Bytes} {recipient : Option (Recipient Address)}
  {data : InscriptionData} {utxos : List (OutPoint × TxOut)}

theorem prepareCommitTxOutput_eq {input : CommitTxInputRes}
    (h : self.prepareCommitTxOutput input pubkey config nodeFeeRate = .ok output) :
    output.commitTxFeeRate = nodeFeeRate + nodeFeeRate *
        (feeRateIncreasePerPendingTx * config.feeMultiplier * self.fifoQueue.length) / 100 ∧
      output.commitTxChangeOutput.scriptPubkey = self.signer.p2wpkhScriptPubkey ∧
      output.commitTxTapscriptOutput = ⟨0, pubkey⟩ ∧
      commitSizeEstimate input.inputsCount * output.commitTxFeeRate +
        output.commitTxChangeOutput.value = input.unlockedValue := by
  obtain ⟨fee, hfee, h⟩ := Outcome.bind_eq_ok.1 h
  obtain ⟨change, hchange, h⟩ := Outcome.bind_eq_ok.1 h
  cases h
  have hsize : estimateTransactionSize input.inputsCount 0 1 1 [] =
      .ok (commitSizeEstimate input.inputsCount) := by
    rw [estimateTransactionSize, if_neg (by simp), commitSizeEstimate]
    refine congrArg Outcome.ok ?_
    simp only [generalBaseSize, p2wpkhInputBaseSize, p2wpkhOutputBaseSize, p2trOutputBaseSize,
      List.map_nil, List.sum_nil]
    omega
  rw [estimateFee, hsize] at hfee
  cases hfee
  exact ⟨rfl, rfl, rfl, checkedSub_eq_ok hchange⟩

theorem prepareRevealTxOutput_eq {input : RevealTxInputRes} {output : RevealTxOutputRes}
    (h : self.prepareRevealTxOutput B input data recipient feeRate = .ok output) :
    output.revealTxChangeOutput.scriptPubkey = self.signer.p2wpkhScriptPubkey ∧
      output.recipientTxOutput = (recipient.map fun r => ⟨r.amount, B.scriptPubkey r.address⟩) ∧
      revealSizeEstimate data.scriptSize recipient * feeRate +
        (recipient.map Recipient.amount).getD 0 + output.revealTxChangeOutput.value =
          input.unlockValue := by
  obtain ⟨fee, hfee, h⟩ := Outcome.bind_eq_ok.1 h
  obtain ⟨change, hchange, h⟩ := Outcome.bind_eq_ok.1 h
  cases h
  have hsize : estimateTransactionSize 1 1 (1 + if recipient.isSome then 1 else 0) 0
      [data.scriptSize] = .ok (revealSizeEstimate data.scriptSize recipient) := by
    rw [estimateTransactionSize, if_neg (by simp), revealSizeEstimate]
    refine congrArg Outcome.ok ?_
    simp only [generalBaseSize, p2wpkhInputBaseSize, p2trInputBaseSize, virtualSizeDivider,
      p2wpkhOutputBaseSize, p2trOutputBaseSize, List.map_cons, List.map_nil, List.sum_cons,
      List.sum_nil]
    split_ifs <;> omega
  rw [estimateFee, hsize] at hfee
  cases hfee
  exact ⟨rfl, rfl, checkedSub_eq_ok hchange⟩

theorem commitTx_signed (hsizes : self.signer.Sizes) (utxos : List (OutPoint × TxOut))
    (output : CommitTxOutputRes) :
    ∀ input ∈ (self.commitTx B utxos output).tx.input, SignedP2wpkh input := by
  intro input hinput
  obtain ⟨index, hindex, rfl⟩ := List.mem_mapIdx.1 hinput
  have hmem := List.getElem_mem hindex
  obtain ⟨utxo, -, hutxo⟩ := List.mem_map.1 hmem
  refine ⟨?_, _, _, rfl, hsizes.ecdsa _ _ _, hsizes.publicKey⟩
  exact (congrArg TxIn.scriptSig hutxo).symm

/-- **The estimate covers the commit transaction**, for any number of inputs. -/
theorem commitTx_vsize_le (hsizes : self.signer.Sizes) (utxos : List (OutPoint × TxOut))
    (hchange : output.commitTxChangeOutput.scriptPubkey.length = 22)
    (htapscript : output.commitTxTapscriptOutput.scriptPubkey.length = 34) :
    (self.commitTx B utxos output).tx.vsize ≤
      commitSizeEstimate (self.prepareCommitTxInput utxos).inputsCount := by
  have hweight := weight_le_of_signedP2wpkh (@commitTx_signed _ B self hsizes utxos output)
  have hinputs : (self.commitTx B utxos output).tx.input.length =
      (self.prepareCommitTxInput utxos).inputsCount :=
    List.length_mapIdx.trans (List.length_map _)
  have houtputs : ((self.commitTx B utxos output).tx.output.map TxOut.size).sum = 74 := by
    show (8 + stringSize output.commitTxChangeOutput.scriptPubkey) +
      ((8 + stringSize output.commitTxTapscriptOutput.scriptPubkey) + 0) = 74
    rw [stringSize, stringSize, hchange, htapscript]
    rfl
  have htwo : compactSizeLen (self.commitTx B utxos output).tx.output.length = 1 := rfl
  have hlen := compactSizeLen_le (self.prepareCommitTxInput utxos).inputsCount
  rw [houtputs, htwo, hinputs] at hweight
  rw [Transaction.vsize_le_iff, commitSizeEstimate]
  omega

theorem commitTx_paidFee
    (h : self.prepareCommitTxOutput (self.prepareCommitTxInput utxos) pubkey config nodeFeeRate =
      .ok output) :
    (self.commitTx B utxos output).tx.paidFee (self.prepareCommitTxInput utxos).unlockedValue =
      commitSizeEstimate (self.prepareCommitTxInput
        utxos).inputsCount * output.commitTxFeeRate := by
  obtain ⟨-, -, htapscript, hvalue⟩ := prepareCommitTxOutput_eq h
  have houtputs : ((self.commitTx B utxos output).tx.output.map TxOut.value).sum =
      output.commitTxChangeOutput.value := by
    show output.commitTxChangeOutput.value + (output.commitTxTapscriptOutput.value + 0) = _
    rw [htapscript]
    rfl
  rw [Transaction.paidFee, houtputs, ← hvalue, Nat.add_sub_cancel_right]

/-! ### The reveal transaction -/

/-- The room that the estimate leaves for signatures, control block, lengths, the rounding of the
script, and a recipient beyond its constant. -/
def RevealRoom (ecdsaLen schnorrLen scriptLen controlBlockLen : ℕ) (recipientLen : Option ℕ) :
    Prop :=
  ecdsaLen + schnorrLen + compactSizeLen scriptLen + scriptLen % 4 +
      compactSizeLen controlBlockLen + controlBlockLen +
      (recipientLen.map fun len => 4 * (8 + compactSizeLen len + len)).getD 0 ≤
    172 + (recipientLen.map fun _ => 136).getD 0
deriving Decidable

def Inscriber.RevealFits (self : Inscriber Address) (B : RustBitcoin Address)
    (data : InscriptionData) (recipient : Option (Recipient Address)) (tx : Transaction) : Prop :=
  RevealRoom (tx.witnessLen 0 0) (tx.witnessLen 1 0) data.inscriptionScript.length
    (self.signer.controlBlock data.inscriptionScript).length
    (recipient.map fun r => (B.scriptPubkey r.address).length)

theorem weight_reveal {first second : OutPoint}
    {ecdsa publicKey schnorr script controlBlock : Bytes}
    (hinput : tx.input =
      [{ unsignedInput first with witness := [ecdsa, publicKey] },
        { unsignedInput second with witness := [schnorr, script, controlBlock] }])
    (hpublicKey : publicKey.length = 33) (hecdsa : ecdsa.length ≤ 72 + 1)
    (hschnorr : schnorr.length ≤ 65) (houtput : tx.output.length < 253) :
    tx.weight = 408 + ecdsa.length + schnorr.length + stringSize script + stringSize controlBlock +
      4 * (tx.output.map TxOut.size).sum := by
  have hone : compactSizeLen ecdsa.length = 1 := compactSizeLen_of_lt (by omega)
  have hone' : compactSizeLen schnorr.length = 1 := compactSizeLen_of_lt (by omega)
  have hempty : stringSize [] = 1 := rfl
  have hkey : stringSize publicKey = 34 := by
    rw [stringSize, hpublicKey]
    rfl
  rw [Transaction.weight, Transaction.totalSize, Transaction.baseSize, hinput,
    compactSizeLen_of_lt houtput]
  simp only [List.map_cons, List.map_nil, List.sum_cons, List.sum_nil, List.length_cons,
    List.length_nil, TxIn.baseSize, TxIn.witnessSize, unsignedInput, hempty, hkey]
  rw [compactSizeLen_of_lt (by decide), compactSizeLen_of_lt (by decide), stringSize, stringSize,
    hone, hone']
  omega

theorem revealTx_vsize_le_iff (hsizes : self.signer.Sizes)
    (hscript : data.scriptSize = data.inscriptionScript.length) {output : RevealTxOutputRes}
    (h : self.prepareRevealTxOutput B (self.revealTxInput B utxos commitOutput data) data recipient
      feeRate = .ok output) :
    (self.revealTx B utxos commitOutput data output).tx.vsize ≤
        revealSizeEstimate data.scriptSize recipient ↔
      self.RevealFits B data recipient (self.revealTx B utxos commitOutput data output).tx := by
  obtain ⟨hchange, hrecipient, -⟩ := prepareRevealTxOutput_eq h
  have hchangeSize : output.revealTxChangeOutput.size = 31 := by
    rw [TxOut.size, stringSize, hchange, hsizes.p2wpkh]
    rfl
  have houtput : (self.revealTx B utxos commitOutput data output).tx.output =
      output.revealTxChangeOutput :: output.recipientTxOutput.toList := rfl
  have hlen : (self.revealTx B utxos commitOutput data output).tx.output.length < 253 := by
    rw [houtput, hrecipient]
    cases recipient <;> simp
  have hweight : (self.revealTx B utxos commitOutput data output).tx.weight =
      408 + (self.revealTx B utxos commitOutput data output).tx.witnessLen 0 0 +
        (self.revealTx B utxos commitOutput data output).tx.witnessLen 1 0 +
        stringSize data.inscriptionScript +
        stringSize (self.signer.controlBlock data.inscriptionScript) +
        4 * ((self.revealTx B utxos commitOutput data output).tx.output.map TxOut.size).sum :=
    weight_reveal rfl hsizes.publicKey (hsizes.ecdsa _ _ _) (hsizes.schnorr _ _ _ _) hlen
  rw [Transaction.vsize_le_iff, hweight, houtput, List.map_cons, List.sum_cons, hchangeSize,
    hrecipient, revealSizeEstimate, hscript, stringSize, stringSize, Inscriber.RevealFits,
    RevealRoom]
  -- The script takes a quarter of its length in the estimate and in the virtual size.
  cases recipient with
  | none =>
    simp only [Option.map_none, Option.toList_none, List.map_nil, List.sum_nil, Option.isSome_none,
      Option.getD_none]
    rw [if_neg Bool.false_ne_true]
    omega
  | some r =>
    simp only [Option.map_some, Option.toList_some, List.map_cons, List.map_nil, List.sum_cons,
      List.sum_nil, Option.isSome_some, Option.getD_some, TxOut.size, stringSize]
    rw [if_pos trivial]
    omega

theorem revealTx_paidFee {output : RevealTxOutputRes}
    (h : self.prepareRevealTxOutput B (self.revealTxInput B utxos commitOutput data) data recipient
      feeRate = .ok output) :
    (self.revealTx B utxos commitOutput data output).tx.paidFee
        (self.revealTxInput B utxos commitOutput data).unlockValue =
      revealSizeEstimate data.scriptSize recipient * feeRate := by
  obtain ⟨-, hrecipient, hvalue⟩ := prepareRevealTxOutput_eq h
  have houtputs : ((self.revealTx B utxos commitOutput data output).tx.output.map TxOut.value).sum =
      (recipient.map Recipient.amount).getD 0 + output.revealTxChangeOutput.value := by
    show ((output.revealTxChangeOutput :: output.recipientTxOutput.toList).map TxOut.value).sum = _
    rw [hrecipient, List.map_cons, List.sum_cons, Nat.add_comm]
    cases recipient <;> rfl
  rw [Transaction.paidFee, houtputs, ← hvalue, Nat.add_assoc, Nat.add_sub_cancel_right]

/-! ### Products on the way -/

def increaseFactor (config : InscriptionConfig) (pending : ℕ) : ℕ :=
  feeRateIncreasePerPendingTx * config.feeMultiplier * pending

def commitProducts (config : InscriptionConfig) (pending nodeFeeRate inputsCount feeRate : ℕ) :
    List ℕ :=
  [feeRateIncreasePerPendingTx * config.feeMultiplier, increaseFactor config pending,
    nodeFeeRate * increaseFactor config pending, p2wpkhInputBaseSize * inputsCount,
    p2wpkhOutputBaseSize * 1, p2trOutputBaseSize * 1, commitSizeEstimate inputsCount * feeRate]

def revealProducts (scriptSize : ℕ) (recipient : Option (Recipient Address)) (feeRate : ℕ) :
    List ℕ :=
  [p2wpkhInputBaseSize * 1, p2wpkhOutputBaseSize * (1 + if recipient.isSome then 1 else 0),
    p2trOutputBaseSize * 0, revealSizeEstimate scriptSize recipient * feeRate]

def FactorFits (config : InscriptionConfig) (pending : ℕ) : Prop :=
  feeRateIncreasePerPendingTx * config.feeMultiplier < 2 ^ 64 ∧
    increaseFactor config pending < 2 ^ 64
deriving Decidable

theorem rate_product_lt {r factor rate inputs : ℕ} (hrate : rate = r + r * factor / 100)
    (hinputs : 0 < inputs) (hfee : commitSizeEstimate inputs * rate < 2 ^ 64) :
    r * factor < 2 ^ 64 := by
  have hsize : 100 * rate ≤ commitSizeEstimate inputs * rate := by
    refine Nat.mul_le_mul_right _ ?_
    rw [commitSizeEstimate]
    omega
  rcases Nat.eq_zero_or_pos r with rfl | hr
  · omega
  · have hdiv := Nat.div_add_mod (r * factor) 100
    omega

/-- **Products of the commit transaction.**  Without an input nothing can be paid, so that the rate
of the node is zero. -/
theorem commitProducts_lt_iff (hinputs : (self.spendableUtxos utxos).length < 2 ^ 32)
    (h : self.prepareCommitTxOutput (self.prepareCommitTxInput utxos) pubkey config nodeFeeRate =
      .ok output)
    (hfee : commitSizeEstimate
      (self.spendableUtxos utxos).length * output.commitTxFeeRate < 2 ^ 64) :
    (∀ product ∈ commitProducts config self.fifoQueue.length nodeFeeRate
        (self.spendableUtxos utxos).length output.commitTxFeeRate, product < 2 ^ 64) ↔
      FactorFits config self.fifoQueue.length := by
  obtain ⟨hrate, -, -, hvalue⟩ := prepareCommitTxOutput_eq h
  have hproduct : nodeFeeRate * increaseFactor config self.fifoQueue.length < 2 ^ 64 := by
    -- without inputs there is nothing to pay with, and the rate is zero
    rcases Nat.eq_zero_or_pos (self.spendableUtxos utxos).length with hnone | hsome
    · have hunlocked : (self.prepareCommitTxInput utxos).unlockedValue = 0 := by
        show ((self.spendableUtxos utxos).map fun utxo => utxo.2.value).sum = 0
        rw [List.length_eq_zero_iff.1 hnone]
        rfl
      have hzero : output.commitTxFeeRate = 0 := by
        have hfee0 := (Nat.add_eq_zero_iff.1 (hvalue.trans hunlocked)).1
        refine (Nat.mul_eq_zero.1 hfee0).resolve_left ?_
        rw [commitSizeEstimate]
        omega
      have hnode : nodeFeeRate = 0 := by omega
      rw [hnode, Nat.zero_mul]
      decide
    · exact rate_product_lt hrate hsome hfee
  simp only [commitProducts, List.forall_mem_cons, List.not_mem_nil, false_imp_iff, implies_true,
    and_true, FactorFits]
  constructor
  · intro hall
    exact ⟨hall.1, hall.2.1⟩
  · intro hfits
    refine ⟨hfits.1, hfits.2, hproduct, ?_, by decide, by decide, hfee⟩
    rw [p2wpkhInputBaseSize]
    omega

/-! ### Both fees -/

/-- **The fees and the sizes.**  While the products fit into 64 bits, the commit transaction pays
for its virtual size, and the reveal transaction does exactly when there is room for what the
estimate leaves out. -/
theorem fee_covers_iff (hsizes : self.signer.Sizes) {data : InscriptionData}
    {utxos : List (OutPoint × TxOut)} {config : InscriptionConfig}
    {recipient : Option (Recipient Address)} {nodeFeeRate revealFeeRate : ℕ}
    {commitOutput : CommitTxOutputRes} {revealOutput : RevealTxOutputRes}
    (hbuilds : self.Builds B data utxos config recipient nodeFeeRate revealFeeRate commitOutput
      revealOutput) :
    ((∀ product ∈ commitProducts config self.fifoQueue.length nodeFeeRate
          (self.spendableUtxos utxos).length commitOutput.commitTxFeeRate, product < 2 ^ 64) →
        commitOutput.commitTxFeeRate * (self.commitTx B utxos commitOutput).tx.vsize ≤
          (self.commitTx B utxos commitOutput).tx.paidFee
            (self.prepareCommitTxInput utxos).unlockedValue) ∧
      ((∀ product ∈ revealProducts data.scriptSize recipient revealFeeRate, product < 2 ^ 64) →
        (revealFeeRate * (self.revealTx B utxos commitOutput data revealOutput).tx.vsize ≤
            (self.revealTx B utxos commitOutput data revealOutput).tx.paidFee
              (self.revealTxInput B utxos commitOutput data).unlockValue ↔
          revealFeeRate = 0 ∨ self.RevealFits B data recipient
            (self.revealTx B utxos commitOutput data revealOutput).tx)) ∧
      (commitSizeEstimate (self.spendableUtxos utxos).length * commitOutput.commitTxFeeRate <
        2 ^ 64 →
        revealSizeEstimate data.scriptSize recipient * revealFeeRate < 2 ^ 64 →
        ((∀ product ∈ commitProducts config self.fifoQueue.length nodeFeeRate
              (self.spendableUtxos utxos).length commitOutput.commitTxFeeRate ++
            revealProducts data.scriptSize recipient revealFeeRate, product < 2 ^ 64) ↔
          FactorFits config self.fifoQueue.length)) := by
  obtain ⟨hscript, hpubkey, hinputs, hcommit, hreveal⟩ := hbuilds
  obtain ⟨-, hchange, htapscript, -⟩ := prepareCommitTxOutput_eq hcommit
  refine ⟨fun _ => ?_, fun _ => ?_, ?_⟩
  · have hvsize := @commitTx_vsize_le _ B _ commitOutput hsizes utxos
      (by rw [hchange, hsizes.p2wpkh]) (by rw [htapscript, hpubkey, hsizes.taproot])
    rw [commitTx_paidFee hcommit, Nat.mul_comm]
    exact Nat.mul_le_mul_right _ hvsize
  · rw [revealTx_paidFee hreveal, Nat.mul_comm, ← revealTx_vsize_le_iff hsizes hscript hreveal]
    -- at a rate of zero every size is paid for
    rcases Nat.eq_zero_or_pos revealFeeRate with rfl | hrate
    · simp only [Nat.mul_zero, le_refl, true_or]
    · rw [Nat.mul_le_mul_right_iff hrate]
      exact ⟨Or.inr, fun h => h.resolve_left hrate.ne'⟩
  · intro hcommitFee hrevealFee
    rw [List.forall_mem_append, commitProducts_lt_iff hinputs hcommit hcommitFee]
    refine and_iff_left ?_
    simp only [revealProducts, List.forall_mem_cons, List.not_mem_nil, false_imp_iff, implies_true,
      and_true]
    refine ⟨by decide, ?_, by decide, hrevealFee⟩
    split_ifs <;> decide

end Fees

/-! ### Two scripts that differ by a byte -/

def sampleEcdsa : Bytes :=
  ecdsaSignature 0xc05e4fff5e80df41c93de8545ac9ee3a5b691e7ff08f7f28fe840774c6fcbb3f
    0x7df951b44cfb72d2943842bed07a985efe009e5b6e10c47c5d712538f2596e11

def sampleSchnorr : Bytes :=
  schnorrSignature 0xc4d5ab04200975679516c08b223894eeea3c59962c2e39738b4898f51af30aca
    0x4e3900cb68bf82294a3c2fbd38e49faa35cc1205d96833ac1aed2a057314fc58

def sampleSizedSigner : BitcoinSigner :=
  { sampleSigner with
    signP2wpkh := fun _ _ _ => sampleEcdsa
    signTapscript := fun _ _ _ _ => sampleSchnorr }

theorem sampleSizedSigner_sizes : sampleSizedSigner.Sizes := by
  have hecdsa : sampleEcdsa.length ≤ 72 + 1 := by decide +kernel
  have hschnorr : sampleSchnorr.length ≤ 65 := by decide +kernel
  have htaproot : sampleTaprootScript.length = 34 := by decide +kernel
  exact ⟨by decide +kernel, by decide +kernel, fun _ _ _ => hecdsa, fun _ _ _ _ => hschnorr,
    fun _ => htaproot⟩

def sampleSizedInscriber : Inscriber SampleAddress := ⟨sampleSizedSigner, .testnet, []⟩

def sampleScriptData (scriptSize : ℕ) : InscriptionData :=
  { inscriptionScript := .replicate scriptSize 0x61
    scriptSize
    scriptPubkey := sampleTaprootScript }

def sampleCommitOutput : CommitTxOutputRes :=
  { commitTxChangeOutput := ⟨999686, SampleAddress.key1.script⟩
    commitTxTapscriptOutput := ⟨0, sampleTaprootScript⟩
    commitTxFeeRate := 2
    commitTxFee := 314 }

def sampleRevealOutput : RevealTxOutputRes :=
  { revealTxChangeOutput := ⟨999264, SampleAddress.key1.script⟩
    recipientTxOutput := none
    revealFeeRate := 2
    revealFee := 422 }

theorem sampleSizedInscriber_builds {scriptSize : ℕ} (h : scriptSize / 4 = 35) :
    sampleSizedInscriber.Builds inscriberBitcoin
      (sampleScriptData scriptSize) sampleUtxos ⟨1⟩ none 2 2
      sampleCommitOutput sampleRevealOutput where
  scriptSize := (List.length_replicate ..).symm
  scriptPubkey := rfl
  inputs := by decide +kernel
  commit := rfl
  reveal := by
    have hfee : estimateFee 1 1 1 0 [scriptSize] 2 = .ok 422 := by
      rw [estimateFee, estimateTransactionSize, if_neg (by simp)]
      simp only [List.map_cons, List.map_nil, List.sum_cons, List.sum_nil, virtualSizeDivider, h]
      rfl
    have hchange : Inscriber.checkedSub 999686 422 = .ok 999264 := if_pos (by norm_num)
    exact Outcome.bind_eq_ok.2 ⟨422, hfee, Outcome.bind_eq_ok.2 ⟨999264, hchange, rfl⟩⟩

theorem fee_covers_iff_fits :
    2 * (sampleSizedInscriber.commitTx inscriberBitcoin sampleUtxos sampleCommitOutput).tx.vsize ≤
        (sampleSizedInscriber.commitTx inscriberBitcoin sampleUtxos sampleCommitOutput).tx.paidFee
          (sampleSizedInscriber.prepareCommitTxInput sampleUtxos).unlockedValue ∧
      2 * (sampleSizedInscriber.revealTx inscriberBitcoin sampleUtxos sampleCommitOutput
          (sampleScriptData 140) sampleRevealOutput).tx.vsize ≤
        (sampleSizedInscriber.revealTx inscriberBitcoin sampleUtxos sampleCommitOutput
          (sampleScriptData 140) sampleRevealOutput).tx.paidFee
            (sampleSizedInscriber.revealTxInput inscriberBitcoin sampleUtxos sampleCommitOutput
              (sampleScriptData 140)).unlockValue := by
  obtain ⟨hcommit, hreveal, -⟩ := fee_covers_iff sampleSizedSigner_sizes
    (@sampleSizedInscriber_builds 140 (by decide))
  refine ⟨hcommit (by decide +kernel), (hreveal (by decide +kernel)).2 (Or.inr ?_)⟩
  show RevealRoom sampleEcdsa.length sampleSchnorr.length 140 33 none
  decide +kernel

/-- **A byte more.**  The estimate for a script of 141 bytes is the one for 140 bytes: 211 virtual
bytes are paid for, and the reveal transaction has 212. -/
theorem fee_misses_a_byte :
    sampleSizedSigner.Sizes ∧
      sampleSizedInscriber.Builds inscriberBitcoin (sampleScriptData 141) sampleUtxos ⟨1⟩ none 2 2
        sampleCommitOutput sampleRevealOutput ∧
      (sampleSizedInscriber.revealTx inscriberBitcoin sampleUtxos sampleCommitOutput
        (sampleScriptData 141) sampleRevealOutput).tx.vsize = 212 ∧
      (sampleSizedInscriber.revealTx inscriberBitcoin sampleUtxos sampleCommitOutput
        (sampleScriptData 141) sampleRevealOutput).tx.paidFee
          (sampleSizedInscriber.revealTxInput inscriberBitcoin sampleUtxos sampleCommitOutput
            (sampleScriptData 141)).unlockValue = 2 * 211 := by
  refine ⟨sampleSizedSigner_sizes, sampleSizedInscriber_builds (by decide), ?_, ?_⟩
  · decide +kernel
  · decide +kernel
