/-
The inscriber: how a message becomes a commit and a reveal transaction.

`inscribe_with_recipient` drops the confirmed inscriptions from its queue, collects spendable
outputs of the signer, builds and signs the two transactions, broadcasts them and appends the
inscription to the queue.  The functions below follow the source; the answers of the node are
arguments, and an answer `none` is a call that failed.

Signatures and taproot commitments are the library's:  `BitcoinSigner` has them as functions.

* `inscribeSynced_ok` — what a successful call has built.
-/
import ViaCore.ScriptBuilder

def generalBaseSize : ℕ := 11

def p2wpkhInputBaseSize : ℕ := 69

def p2trInputBaseSize : ℕ := 61

def p2wpkhOutputBaseSize : ℕ := 34

def p2trOutputBaseSize : ℕ := 43

def virtualSizeDivider : ℕ := 4

inductive InscriberError where
  | rpc
  | inscriptionData
  | feeEstimation
  | requiredAmount (required spendable : ℕ)
  deriving DecidableEq

def estimateTransactionSize (p2wpkhInputsCount p2trInputsCount p2wpkhOutputsCount
    p2trOutputsCount : ℕ) (p2trWitnessSizes : List ℕ) : Outcome InscriberError ℕ :=
  if p2trInputsCount ≠ p2trWitnessSizes.length then .err .feeEstimation
  else .ok (generalBaseSize + p2wpkhInputBaseSize * p2wpkhInputsCount
    + (p2trWitnessSizes.map fun size => p2trInputBaseSize + size / virtualSizeDivider + 1).sum
    + p2wpkhOutputBaseSize * p2wpkhOutputsCount + p2trOutputBaseSize * p2trOutputsCount)

def estimateFee (p2wpkhInputsCount p2trInputsCount p2wpkhOutputsCount p2trOutputsCount : ℕ)
    (p2trWitnessSizes : List ℕ) (feeRate : ℕ) : Outcome InscriberError ℕ :=
  estimateTransactionSize p2wpkhInputsCount p2trInputsCount p2wpkhOutputsCount p2trOutputsCount
    p2trWitnessSizes >>= fun size => .ok (size * feeRate)

structure BitcoinSigner where
  p2wpkhScriptPubkey : Bytes
  publicKey : Bytes
  /-- The x-only key that inscriptions are built for. -/
  internalKey : FixedBytes 32
  /-- The signature for a P2WPKH input: transaction, input index, amount. -/
  signP2wpkh : Transaction → ℕ → ℕ → Bytes
  /-- The signature for a script path: transaction, input index, spent outputs, script. -/
  signTapscript : Transaction → ℕ → List TxOut → Bytes → Bytes
  /-- The taproot output that commits to a script. -/
  taprootScriptPubkey : Bytes → Bytes
  controlBlock : Bytes → Bytes
  /-- Taproot outputs have another witness version. -/
  taproot_ne : ∀ script, taprootScriptPubkey script ≠ p2wpkhScriptPubkey

structure InscriptionConfig where
  feeMultiplier : ℕ

structure Recipient (Address : Type) where
  address : Address
  amount : ℕ

structure InscriptionData where
  inscriptionScript : Bytes
  scriptSize : ℕ
  scriptPubkey : Bytes

structure CommitTxInputRes where
  commitTxInputs : List TxIn
  unlockedValue : ℕ
  inputsCount : ℕ
  utxoAmounts : List ℕ

structure CommitTxOutputRes where
  commitTxChangeOutput : TxOut
  commitTxTapscriptOutput : TxOut
  commitTxFeeRate : ℕ
  commitTxFee : ℕ

structure RevealTxInputRes where
  revealTxInput : List TxIn
  prevOuts : List TxOut
  unlockValue : ℕ
  controlBlock : Bytes

structure RevealTxOutputRes where
  revealTxChangeOutput : TxOut
  recipientTxOutput : Option TxOut
  revealFeeRate : ℕ
  revealFee : ℕ

structure FinalTx where
  tx : Transaction
  txid : Txid

structure InscriberInfo where
  finalCommitTx : FinalTx
  finalRevealTx : FinalTx
  commitTxOutputInfo : CommitTxOutputRes
  revealTxOutputInfo : RevealTxOutputRes
  commitTxInputInfo : CommitTxInputRes

/-- The raw transactions are kept as transactions here, not as text. -/
structure InscriberOutput where
  commitTxid : Txid
  commitRawTx : Transaction
  commitTxFeeRate : ℕ
  revealTxid : Txid
  revealRawTx : Transaction
  revealTxFeeRate : ℕ
  isBroadcasted : Bool

structure FeePayerCtx where
  feePayerUtxoTxid : Txid
  feePayerUtxoVout : ℕ
  feePayerUtxoValue : ℕ

structure InscriptionRequest (Address : Type) where
  message : InscriptionMessage Address
  inscriberOutput : InscriberOutput
  feePayerCtx : FeePayerCtx
  commitTxInput : List TxIn

/-- `fifoQueue` is the inscriber's context. -/
structure Inscriber (Address : Type) where
  signer : BitcoinSigner
  network : Network
  fifoQueue : List (InscriptionRequest Address)

structure InscribeAnswers where
  utxos : Option (List (OutPoint × TxOut))
  commitFeeRate : Option ℕ
  revealFeeRate : Option ℕ
  broadcastCommit : Bool
  broadcastReveal : Bool

def feeRateIncreasePerPendingTx : ℕ := 5

/-- An input before it is signed; its sequence number allows replacement. -/
def unsignedInput (outpoint : OutPoint) : TxIn :=
  { previousOutput := outpoint, scriptSig := [], sequence := 0xFFFFFFFD, witness := [] }

section Spent

variable {Address : Type}

/-- The outputs that a request marks as spent; the change of the last one is left. -/
def InscriptionRequest.spentUtxos (r : InscriptionRequest Address) (isLast : Bool) :
    List OutPoint :=
  r.commitTxInput.map TxIn.previousOutput ++ [⟨r.inscriberOutput.commitTxid, 0⟩]
    ++ if isLast then [] else [⟨r.inscriberOutput.revealTxid, 0⟩]

def spentUtxos : List (InscriptionRequest Address) → List OutPoint
  | [] => []
  | [r] => r.spentUtxos true
  | r :: rest => r.spentUtxos false ++ spentUtxos rest

end Spent

namespace Inscriber

variable {Address : Type}

/-- Pops the front as long as its reveal transaction is confirmed.  A failing query ends the call,
with the request it was about already popped. -/
def syncQueue (checkTxConfirmation : Txid → Option Bool) :
    List (InscriptionRequest Address) → List (InscriptionRequest Address) × Bool
  | [] => ([], true)
  | inscription :: rest =>
    match checkTxConfirmation inscription.feePayerCtx.feePayerUtxoTxid with
    | none => (rest, false)
    | some false => (inscription :: rest, true)
    | some true => syncQueue checkTxConfirmation rest

def syncContextWithBlockchain (self : Inscriber Address)
    (checkTxConfirmation : Txid → Option Bool) : Inscriber Address × Bool :=
  let synced := syncQueue checkTxConfirmation self.fifoQueue
  ({ self with fifoQueue := synced.1 }, synced.2)

variable (self : Inscriber Address)

def isP2wpkh (scriptPubkey : Bytes) : Bool := scriptPubkey = self.signer.p2wpkhScriptPubkey

def headUtxo : Option (OutPoint × TxOut) :=
  self.fifoQueue.head?.map fun head =>
    (⟨head.inscriberOutput.revealTxid, head.feePayerCtx.feePayerUtxoVout⟩,
      { value := head.feePayerCtx.feePayerUtxoValue
        scriptPubkey := self.signer.p2wpkhScriptPubkey })

def retainedUtxos (utxos : List (OutPoint × TxOut)) : List (OutPoint × TxOut) :=
  utxos.filter fun utxo =>
    utxo.1 ∉ spentUtxos self.fifoQueue ∧ self.isP2wpkh utxo.2.scriptPubkey

def spendableUtxos (utxos : List (OutPoint × TxOut)) : List (OutPoint × TxOut) :=
  self.retainedUtxos utxos ++ self.headUtxo.toList

def prepareCommitTxInput (utxos : List (OutPoint × TxOut)) : CommitTxInputRes :=
  let utxos := self.spendableUtxos utxos
  { commitTxInputs := utxos.map fun utxo => unsignedInput utxo.1
    unlockedValue := (utxos.map fun utxo => utxo.2.value).sum
    inputsCount := utxos.length
    utxoAmounts := utxos.map fun utxo => utxo.2.value }

/-- `checked_sub`, with the error of the source. -/
def checkedSub (spendable required : ℕ) : Outcome InscriberError ℕ :=
  if required ≤ spendable then .ok (spendable - required)
  else .err (.requiredAmount required spendable)

def prepareCommitTxOutput (txInputData : CommitTxInputRes) (inscriptionPubkey : Bytes)
    (config : InscriptionConfig) (nodeFeeRate : ℕ) : Outcome InscriberError CommitTxOutputRes := do
  let increaseFactor := feeRateIncreasePerPendingTx * config.feeMultiplier * self.fifoQueue.length
  let feeRate := nodeFeeRate + nodeFeeRate * increaseFactor / 100
  let feeAmount ← estimateFee txInputData.inputsCount 0 1 1 [] feeRate
  let changeValue ← checkedSub txInputData.unlockedValue feeAmount
  return {
    commitTxChangeOutput :=
      { value := changeValue, scriptPubkey := self.signer.p2wpkhScriptPubkey }
    commitTxTapscriptOutput := { value := 0, scriptPubkey := inscriptionPubkey }
    commitTxFeeRate := feeRate
    commitTxFee := feeAmount }

variable (B : RustBitcoin Address)

def signCommitTx (input : CommitTxInputRes) (output : CommitTxOutputRes) : FinalTx :=
  let unsigned : Transaction :=
    { version := 2
      lockTime := 0
      input := input.commitTxInputs
      output := [output.commitTxChangeOutput, output.commitTxTapscriptOutput] }
  let tx : Transaction := { unsigned with
    input := unsigned.input.mapIdx fun index txIn => { txIn with
      witness :=
        [self.signer.signP2wpkh unsigned index (input.utxoAmounts.getD index 0),
          self.signer.publicKey] } }
  { tx, txid := B.computeTxid tx }

def prepareRevealTxInput (commitOutput : CommitTxOutputRes) (commitTx : FinalTx)
    (inscriptionData : InscriptionData) : RevealTxInputRes :=
  { revealTxInput := [unsignedInput ⟨commitTx.txid, 0⟩, unsignedInput ⟨commitTx.txid, 1⟩]
    prevOuts :=
      [{ value := commitOutput.commitTxChangeOutput.value
         scriptPubkey := self.signer.p2wpkhScriptPubkey },
        { value := commitOutput.commitTxTapscriptOutput.value
          scriptPubkey := inscriptionData.scriptPubkey }]
    unlockValue :=
      commitOutput.commitTxChangeOutput.value + commitOutput.commitTxTapscriptOutput.value
    controlBlock := self.signer.controlBlock inscriptionData.inscriptionScript }

def prepareRevealTxOutput (txInputData : RevealTxInputRes) (inscriptionData : InscriptionData)
    (recipient : Option (Recipient Address)) (feeRate : ℕ) :
    Outcome InscriberError RevealTxOutputRes := do
  let feeAmount ← estimateFee 1 1 (1 + if recipient.isSome then 1 else 0) 0
    [inscriptionData.scriptSize] feeRate
  let recipientAmount := (recipient.map Recipient.amount).getD 0
  let changeAmount ← checkedSub txInputData.unlockValue (feeAmount + recipientAmount)
  return {
    revealTxChangeOutput :=
      { value := changeAmount, scriptPubkey := self.signer.p2wpkhScriptPubkey }
    recipientTxOutput := recipient.map fun r =>
      { value := r.amount, scriptPubkey := B.scriptPubkey r.address }
    revealFeeRate := feeRate
    revealFee := feeAmount }

def signRevealTx (input : RevealTxInputRes) (output : RevealTxOutputRes)
    (inscriptionData : InscriptionData) : FinalTx :=
  let unsigned : Transaction :=
    { version := 2
      lockTime := 0
      input := input.revealTxInput
      output := output.revealTxChangeOutput :: output.recipientTxOutput.toList }
  let feePayerWitness :=
    [self.signer.signP2wpkh unsigned 0 input.unlockValue, self.signer.publicKey]
  let tapscriptWitness :=
    [self.signer.signTapscript unsigned 1 input.prevOuts inscriptionData.inscriptionScript,
      inscriptionData.inscriptionScript, input.controlBlock]
  let tx : Transaction := { unsigned with
    input := unsigned.input.mapIdx fun index txIn => { txIn with
      witness := if index = 0 then feePayerWitness else tapscriptWitness } }
  { tx, txid := B.computeTxid tx }

def inscriptionData (message : InscriptionMessage Address) :
    Outcome InscriberError InscriptionData :=
  match inscriptionScript B self.signer.internalKey.bytes message self.network with
  | none => .err .inscriptionData
  | some script => .ok
    { inscriptionScript := script
      scriptSize := script.length
      scriptPubkey := self.signer.taprootScriptPubkey script }

def answer {α : Type} : Option α → Outcome InscriberError α
  | some a => .ok a
  | none => .err .rpc

def prepareInscribeSynced (message : InscriptionMessage Address) (config : InscriptionConfig)
    (recipient : Option (Recipient Address)) (answers : InscribeAnswers) :
    Outcome InscriberError InscriberInfo := do
  let data ← self.inscriptionData B message
  let utxos ← answer answers.utxos
  let commitTxInputInfo := self.prepareCommitTxInput utxos
  let commitFeeRate ← answer answers.commitFeeRate
  let commitTxOutputInfo ← self.prepareCommitTxOutput commitTxInputInfo data.scriptPubkey config
    commitFeeRate
  let finalCommitTx := self.signCommitTx B commitTxInputInfo commitTxOutputInfo
  let revealTxInputInfo := self.prepareRevealTxInput commitTxOutputInfo finalCommitTx data
  let revealFeeRate ← answer answers.revealFeeRate
  let revealTxOutputInfo ← self.prepareRevealTxOutput B revealTxInputInfo data recipient
    revealFeeRate
  let finalRevealTx := self.signRevealTx B revealTxInputInfo revealTxOutputInfo data
  return {
    finalCommitTx, finalRevealTx, commitTxOutputInfo, revealTxOutputInfo, commitTxInputInfo }

def newRequest (message : InscriptionMessage Address) (info : InscriberInfo) :
    InscriptionRequest Address :=
  { message
    inscriberOutput :=
      { commitTxid := info.finalCommitTx.txid
        commitRawTx := info.finalCommitTx.tx
        commitTxFeeRate := info.commitTxOutputInfo.commitTxFeeRate
        revealTxid := info.finalRevealTx.txid
        revealRawTx := info.finalRevealTx.tx
        revealTxFeeRate := info.revealTxOutputInfo.revealFeeRate
        isBroadcasted := true }
    feePayerCtx :=
      { feePayerUtxoTxid := info.finalRevealTx.txid
        feePayerUtxoVout := 0
        feePayerUtxoValue := info.revealTxOutputInfo.revealTxChangeOutput.value }
    commitTxInput := info.commitTxInputInfo.commitTxInputs }

def insertInscriptionToContext (message : InscriptionMessage Address) (info : InscriberInfo) :
    Inscriber Address :=
  { self with fifoQueue := self.fifoQueue ++ [newRequest message info] }

/-- `inscribe_with_recipient` after the synchronisation: the inscriber, the transactions that the
node has taken, and the result. -/
def inscribeSynced (message : InscriptionMessage Address) (config : InscriptionConfig)
    (recipient : Option (Recipient Address)) (answers : InscribeAnswers) :
    Inscriber Address × List Transaction × Outcome InscriberError InscriberInfo :=
  match self.prepareInscribeSynced B message config recipient answers with
  | .err e => (self, [], .err e)
  | .panic => (self, [], .panic)
  | .ok info =>
    if answers.broadcastCommit then
      if answers.broadcastReveal then
        (self.insertInscriptionToContext message info,
          [info.finalCommitTx.tx, info.finalRevealTx.tx], .ok info)
      else (self, [info.finalCommitTx.tx], .err .rpc)
    else (self, [], .err .rpc)

def inscribeWithRecipient (checkTxConfirmation : Txid → Option Bool)
    (message : InscriptionMessage Address) (config : InscriptionConfig)
    (recipient : Option (Recipient Address)) (answers : InscribeAnswers) :
    Inscriber Address × List Transaction × Outcome InscriberError InscriberInfo :=
  match self.syncContextWithBlockchain checkTxConfirmation with
  | (self, false) => (self, [], .err .rpc)
  | (self, true) => self.inscribeSynced B message config recipient answers

end Inscriber

section Built

variable {Address : Type}

def Transaction.spends (tx : Transaction) : List OutPoint := tx.input.map TxIn.previousOutput

variable (signer : BitcoinSigner) (B : RustBitcoin Address) (r : InscriptionRequest Address) in
/-- A request as the inscriber builds it: the reveal transaction spends both outputs of the commit
transaction, and its own first output is the change for the next inscription. -/
structure WellBuilt : Prop where
  commitTxid : r.inscriberOutput.commitTxid = B.computeTxid r.inscriberOutput.commitRawTx
  revealTxid : r.inscriberOutput.revealTxid = B.computeTxid r.inscriberOutput.revealRawTx
  spent : r.commitTxInput.map TxIn.previousOutput = r.inscriberOutput.commitRawTx.spends
  revealSpends : r.inscriberOutput.revealRawTx.spends
    = [⟨r.inscriberOutput.commitTxid, 0⟩, ⟨r.inscriberOutput.commitTxid, 1⟩]
  tapscript : ∀ output ∈ r.inscriberOutput.commitRawTx.output[1]?,
    output.scriptPubkey ≠ signer.p2wpkhScriptPubkey
  change : ∃ output, r.inscriberOutput.revealRawTx.output[0]? = some output
    ∧ output.scriptPubkey = signer.p2wpkhScriptPubkey
  changeTxid : r.feePayerCtx.feePayerUtxoTxid = r.inscriberOutput.revealTxid
  changeVout : r.feePayerCtx.feePayerUtxoVout = 0

variable {self : Inscriber Address} {B : RustBitcoin Address} {message : InscriptionMessage Address}
  {config : InscriptionConfig} {recipient : Option (Recipient Address)} {answers : InscribeAnswers}
  {info : InscriberInfo}

theorem spends_mapIdx_witness (tx : Transaction) (witness : ℕ → List Bytes) :
    Transaction.spends { tx with
      input := tx.input.mapIdx fun index txIn => { txIn with witness := witness index } }
      = tx.spends := by
  unfold Transaction.spends
  apply List.ext_getElem?
  intro i
  simp only [List.getElem?_map, List.getElem?_mapIdx, Option.map_map]
  rfl

theorem answer_eq_ok {α : Type} {o : Option α} {a : α} (h : Inscriber.answer o = .ok a) :
    o = some a := by
  cases o with
  | none => cases h
  | some b => rw [Outcome.ok.inj h]

variable {data : InscriptionData}

theorem inscriptionData_ok (h : self.inscriptionData B message = .ok data) :
    data.scriptPubkey ≠ self.signer.p2wpkhScriptPubkey := by
  unfold Inscriber.inscriptionData at h
  split at h
  · cases h
  · cases h
    exact self.signer.taproot_ne _

theorem prepareCommitTxInput_spends (utxos : List (OutPoint × TxOut)) :
    (self.prepareCommitTxInput utxos).commitTxInputs.map TxIn.previousOutput
      = (self.spendableUtxos utxos).map Prod.fst := by
  rw [Inscriber.prepareCommitTxInput, List.map_map]
  rfl

theorem prepareInscribeSynced_ok
    (h : self.prepareInscribeSynced B message config recipient answers = .ok info) :
    ∃ utxos, answers.utxos = some utxos
      ∧ info.finalCommitTx.tx.spends = (self.spendableUtxos utxos).map Prod.fst
      ∧ WellBuilt self.signer B (Inscriber.newRequest message info) := by
  unfold Inscriber.prepareInscribeSynced at h
  obtain ⟨data, hdata, h⟩ := Outcome.bind_eq_ok.1 h
  obtain ⟨utxos, hutxos, h⟩ := Outcome.bind_eq_ok.1 h
  obtain ⟨commitFeeRate, -, h⟩ := Outcome.bind_eq_ok.1 h
  obtain ⟨commitOut, hcommitOut, h⟩ := Outcome.bind_eq_ok.1 h
  obtain ⟨revealFeeRate, -, h⟩ := Outcome.bind_eq_ok.1 h
  obtain ⟨revealOut, hrevealOut, h⟩ := Outcome.bind_eq_ok.1 h
  cases h
  -- the outputs are built after the fee and the change
  obtain ⟨_, -, hcommitOut⟩ := Outcome.bind_eq_ok.1 hcommitOut
  obtain ⟨_, -, hcommitOut⟩ := Outcome.bind_eq_ok.1 hcommitOut
  obtain ⟨_, -, hrevealOut⟩ := Outcome.bind_eq_ok.1 hrevealOut
  obtain ⟨_, -, hrevealOut⟩ := Outcome.bind_eq_ok.1 hrevealOut
  have hcommit : (self.signCommitTx B (self.prepareCommitTxInput utxos) commitOut).tx.spends
      = (self.spendableUtxos utxos).map Prod.fst :=
    (spends_mapIdx_witness _ _).trans (prepareCommitTxInput_spends utxos)
  refine ⟨utxos, ?_, hcommit, ?_⟩
  · exact answer_eq_ok hutxos
  · constructor
    · rfl
    · rfl
    · exact (prepareCommitTxInput_spends utxos).trans hcommit.symm
    · exact spends_mapIdx_witness _ _
    · intro output houtput
      cases houtput
      rw [← Outcome.ok.inj hcommitOut]
      exact inscriptionData_ok hdata
    · exact ⟨_, rfl, by rw [← Outcome.ok.inj hrevealOut]⟩
    · rfl
    · rfl

theorem syncQueue_suffix (check : Txid → Option Bool) (queue : List (InscriptionRequest Address)) :
    (Inscriber.syncQueue check queue).1 <:+ queue := by
  induction queue with
  | nil => exact List.suffix_rfl
  | cons r rest ih =>
    unfold Inscriber.syncQueue
    split
    · exact List.suffix_cons r rest
    · exact List.suffix_rfl
    · exact ih.trans (List.suffix_cons r rest)

theorem inscribeSynced_ok {inscriber : Inscriber Address} {txs : List Transaction}
    (h : self.inscribeSynced B message config recipient answers = (inscriber, txs, .ok info)) :
    ∃ utxos r, answers.utxos = some utxos
      ∧ inscriber = { self with fifoQueue := self.fifoQueue ++ [r] }
      ∧ txs = [r.inscriberOutput.commitRawTx, r.inscriberOutput.revealRawTx]
      ∧ r.inscriberOutput.commitRawTx.spends = (self.spendableUtxos utxos).map Prod.fst
      ∧ WellBuilt self.signer B r := by
  unfold Inscriber.inscribeSynced at h
  split at h
  · cases h
  · cases h
  · rename_i info' hprepare
    split at h
    · split at h
      · obtain ⟨utxos, hutxos, hspends, hbuilt⟩ := prepareInscribeSynced_ok hprepare
        cases h
        exact ⟨utxos, _, hutxos, rfl, rfl, hspends, hbuilt⟩
      · cases h
    · cases h

end Built
