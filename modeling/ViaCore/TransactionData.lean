/-
Transactions as the virtual machine sees them, and their hashes.

The server keeps a transaction under a hash that it computes from the received bytes, or from the
decoded request.  The watcher computes the hash of a deposit from the structure that the contracts
of the first layer use.  The virtual machine has neither: it works with a `TransactionData`, in
which some fields were replaced by defaults, and rebuilds a transaction and a request from it to
compute the hash.

* `txHash_agrees` — one hash for each transaction of a user and each deposit;
* `encodingLen_exact` — the number of words of a transaction.
-/
import ViaCore.Abi
import ViaCore.L1ToL2
import ViaCore.SignedMessage

namespace Web3

def priorityOperationL2TxType : UInt8 := 255

def protocolUpgradeTxType : UInt8 := 254

def isL1TxType (txType : UInt8) : Bool :=
  txType = priorityOperationL2TxType ∨ txType = protocolUpgradeTxType

namespace TransactionType

def asU8 : TransactionType → UInt8
  | .legacyTransaction => 0
  | .eip2930Transaction => 1
  | .eip1559Transaction => 2
  | .eip712Transaction => 0x71
  | .priorityOpTransaction => 255
  | .protocolUpgradeTransaction => 254

def tryFrom (txType : UInt8) : Option TransactionType :=
  [.legacyTransaction, .eip2930Transaction, .eip1559Transaction, .eip712Transaction,
    .priorityOpTransaction, .protocolUpgradeTransaction].find? fun t => t.asU8 = txType

def isEthereumType : TransactionType → Bool
  | .legacyTransaction | .eip2930Transaction | .eip1559Transaction => true
  | _ => false

@[simp] theorem tryFrom_asU8 (t : TransactionType) : tryFrom t.asU8 = some t := by
  cases t <;> rfl

end TransactionType

/-- The fields of operations of the first layer that reach the virtual machine. -/
structure L1CommonData where
  sender : EVMAddress
  /-- The number of a priority operation, or the version of an upgrade. -/
  serialId : U256
  maxFeePerGas : U256
  gasLimit : U256
  gasPerPubdataLimit : U256
  toMint : U256
  refundRecipient : EVMAddress

inductive ExecuteTransactionCommon where
  | l1 (commonData : L1CommonData)
  | l2 (commonData : L2TxCommonData)
  | protocolUpgrade (commonData : L1CommonData)

structure Transaction where
  commonData : ExecuteTransactionCommon
  execute : Execute
  rawBytes : Option Bytes

def Transaction.ofL2Tx (tx : L2Tx) : Transaction := ⟨.l2 tx.commonData, tx.execute, tx.rawBytes⟩

def Transaction.ofL1Tx (tx : L1Tx H256) : Transaction where
  commonData := .l1
    { sender := tx.commonData.sender
      serialId := BitVec.ofNat 256 tx.commonData.serialId
      maxFeePerGas := BitVec.ofNat 256 tx.commonData.maxFeePerGas
      gasLimit := BitVec.ofNat 256 tx.commonData.gasLimit
      gasPerPubdataLimit := BitVec.ofNat 256 tx.commonData.gasPerPubdataLimit
      toMint := BitVec.ofNat 256 tx.commonData.toMint
      refundRecipient := tx.commonData.refundRecipient }
  execute :=
    { contractAddress := tx.execute.contractAddress
      calldata := tx.execute.calldata
      value := BitVec.ofNat 256 tx.execute.value
      factoryDeps := [] }
  rawBytes := none

def Transaction.encodingLen (self : Transaction) : ℕ :=
  let (signatureLen, paymasterInputLen) :=
    match self.commonData with
    | .l1 _ => (0, 0)
    | .l2 commonData =>
      (commonData.signature.length, commonData.paymasterParams.paymasterInput.length)
    | .protocolUpgrade _ => (0, 0)
  Web3.encodingLen self.execute.calldata.length signatureLen self.execute.factoryDeps.length
    paymasterInputLen 0

/-- The hash under which a transaction is kept; the bytes are expected to be known. -/
def L2Tx.hash {ε : Type} (self : L2Tx) : Outcome ε H256 :=
  Outcome.unwrap (self.commonData.input.map InputData.hash)

def L2TxCommonData.extractChainId (R : RlpReader) (self : L2TxCommonData) : Option UInt64 :=
  match self.input.map InputData.data with
  | some (x :: rest) =>
    if 0x80 ≤ x then
      (R.u64At (x :: rest) 6).toOption.bind fun v => (PackedEthSignature.unpackV v).bind Prod.snd
    else if x.toUInt64 = eip1559TxType then (R.u64At rest 0).toOption
    else if x.toUInt64 = eip712TxType then (R.u64At rest 10).toOption
    else none
  | _ => none

/-! ### The data of the virtual machine -/

structure TransactionData where
  txType : UInt8
  fromAddress : EVMAddress
  toAddress : EVMAddress
  gasLimit : U256
  pubdataPriceLimit : U256
  maxFeePerGas : U256
  maxPriorityFeePerGas : U256
  paymaster : EVMAddress
  nonce : U256
  value : U256
  reserved : Vector U256 4
  data : Bytes
  signature : Bytes
  factoryDeps : List Bytes
  paymasterInput : Bytes
  reservedDynamic : Bytes
  rawBytes : Option Bytes

namespace TransactionData

def maxGasPerPubdataByte : U256 := 50000

/-- Transactions of Ethereum do not sign a limit for published data. -/
def ofL2 (R : RlpReader) (commonData : L2TxCommonData) (execute : Execute)
    (rawBytes : Option Bytes) : TransactionData where
  txType := commonData.transactionType.asU8
  fromAddress := commonData.initiatorAddress
  toAddress := execute.contractAddress
  gasLimit := commonData.fee.gasLimit
  pubdataPriceLimit :=
    if commonData.transactionType.isEthereumType then maxGasPerPubdataByte
    else commonData.fee.gasPerPubdataLimit
  maxFeePerGas := commonData.fee.maxFeePerGas
  maxPriorityFeePerGas := commonData.fee.maxPriorityFeePerGas
  paymaster := commonData.paymasterParams.paymaster
  nonce := BitVec.ofNat 256 commonData.nonce.toNat
  value := execute.value
  reserved :=
    #v[if commonData.transactionType = .legacyTransaction ∧
        (commonData.extractChainId R).isSome then 1 else 0, 0, 0, 0]
  data := execute.calldata
  signature := commonData.signature
  factoryDeps := execute.factoryDeps
  paymasterInput := commonData.paymasterParams.paymasterInput
  reservedDynamic := []
  rawBytes

/-- Operations of the first layer are not signed; what they mint and who gets refunds is
reserved. -/
def ofL1 (txType : UInt8) (commonData : L1CommonData) (execute : Execute) : TransactionData where
  txType
  fromAddress := commonData.sender
  toAddress := execute.contractAddress
  gasLimit := commonData.gasLimit
  pubdataPriceLimit := commonData.gasPerPubdataLimit
  maxFeePerGas := commonData.maxFeePerGas
  maxPriorityFeePerGas := 0
  paymaster := FixedBytes.replicate 20 0
  nonce := commonData.serialId
  value := execute.value
  reserved := #v[commonData.toMint, addressU256 commonData.refundRecipient, 0, 0]
  data := execute.calldata
  signature := []
  factoryDeps := execute.factoryDeps
  paymasterInput := []
  reservedDynamic := []
  rawBytes := none

def ofTransaction (R : RlpReader) (tx : Transaction) : TransactionData :=
  match tx.commonData with
  | .l2 commonData => ofL2 R commonData tx.execute tx.rawBytes
  | .l1 commonData => ofL1 priorityOperationL2TxType commonData tx.execute
  | .protocolUpgrade commonData => ofL1 protocolUpgradeTxType commonData tx.execute

def tokens (self : TransactionData) (factoryDepsHashes : List U256) : List Abi.Token :=
  [.uint (BitVec.ofNat 256 self.txType.toNat),
    .address self.fromAddress,
    .address self.toAddress,
    .uint self.gasLimit,
    .uint self.pubdataPriceLimit,
    .uint self.maxFeePerGas,
    .uint self.maxPriorityFeePerGas,
    .address self.paymaster,
    .uint self.nonce,
    .uint self.value,
    .fixedArray (self.reserved.toList.map .uint),
    .bytes self.data,
    .bytes self.signature,
    .array (factoryDepsHashes.map .uint),
    .bytes self.paymasterInput,
    .bytes self.reservedDynamic]

def abiEncodeWithCustomFactoryDeps (C : Crypto) (self : TransactionData)
    (factoryDepsHashes : List U256) : Bytes :=
  C.encode [.tuple (self.tokens factoryDepsHashes)]

def abiEncode {ε : Type} (C : Crypto) (self : TransactionData) : Outcome ε Bytes := do
  let factoryDepsHashes ← self.factoryDeps.mapM (hashBytecode C)
  pure (self.abiEncodeWithCustomFactoryDeps C
    (factoryDepsHashes.map fun hash => BitVec.ofNat 256 (fromBe hash.bytes)))

/-- The number of words of the encoding; it is an assertion that these are whole words. -/
def tokensLen {ε : Type} (C : Crypto) (self : TransactionData) : Outcome ε ℕ := do
  let bytes ← self.abiEncode C
  if bytes.length % 32 = 0 then pure (bytes.length / 32) else .panic

inductive TxHashCalculationError where
  | cannotCalculateL1HashForL2Tx
  | cannotCalculateL2HashForL1Tx
  deriving DecidableEq

def canonicalL1TxHash (C : Crypto) (self : TransactionData) : Outcome TxHashCalculationError H256 :=
  if isL1TxType self.txType then do
    let encodedBytes ← self.abiEncode C
    pure (C.keccak256 encodedBytes)
  else .err .cannotCalculateL1HashForL2Tx

/-- The type and the nonce are unwrapped. -/
def tryInto (self : TransactionData) : Outcome TxHashCalculationError L2Tx :=
  if isL1TxType self.txType then .err .cannotCalculateL2HashForL1Tx
  else do
    let transactionType ← Outcome.unwrap (TransactionType.tryFrom self.txType)
    let nonce ← asU32 self.nonce
    pure
      { execute :=
          { contractAddress := self.toAddress, value := self.value, calldata := self.data
            factoryDeps := self.factoryDeps }
        commonData :=
          { transactionType, nonce
            fee :=
              { maxFeePerGas := self.maxFeePerGas
                maxPriorityFeePerGas := self.maxPriorityFeePerGas
                gasLimit := self.gasLimit
                gasPerPubdataLimit := self.pubdataPriceLimit }
            signature := self.signature
            input := none
            initiatorAddress := self.fromAddress
            paymasterParams :=
              { paymaster := self.paymaster, paymasterInput := self.paymasterInput } }
        rawBytes := self.rawBytes }

end TransactionData

/-! ### Requests from transactions -/

/-- `v`, `r` and `s`, if the signature is a packed one. -/
def signatureToVrs (signature : Bytes) (transactionType : TransactionType) :
    Option UInt64 × Option U256 × Option U256 :=
  -- the `v` of a legacy transaction is kept as it is
  let packed := if transactionType = .legacyTransaction then FixedBytes.tryFrom 65 signature
    else PackedEthSignature.deserializePacked signature
  (packed.map fun sig => (PackedEthSignature.v sig).toUInt64,
    packed.map fun sig => BitVec.ofNat 256 (fromBe (PackedEthSignature.r sig)),
    packed.map fun sig => BitVec.ofNat 256 (fromBe (PackedEthSignature.s sig)))

def TransactionRequest.base (R : RlpReader) (tx : L2Tx) : TransactionRequest :=
  let (v, r, s) := signatureToVrs tx.commonData.signature tx.commonData.transactionType
  { nonce := BitVec.ofNat 256 tx.commonData.nonce.toNat
    fromAddress := some tx.commonData.initiatorAddress
    toAddress := some tx.execute.contractAddress
    value := tx.execute.value
    gasPrice := tx.commonData.fee.maxFeePerGas
    maxPriorityFeePerGas := none
    gas := tx.commonData.fee.gasLimit
    input := tx.execute.calldata
    v, r, s
    raw := tx.rawBytes
    transactionType := none
    eip712Meta := none
    chainId := tx.commonData.extractChainId R }

/-- Other types are a panic. -/
def TransactionRequest.ofL2Tx {ε : Type} (R : RlpReader) (tx : L2Tx) :
    Outcome ε TransactionRequest :=
  match tx.commonData.transactionType with
  | .legacyTransaction => .ok (base R tx)
  | .eip712Transaction => .ok
    { base R tx with
      transactionType := some eip712TxType
      maxPriorityFeePerGas := some tx.commonData.fee.maxPriorityFeePerGas
      eip712Meta := some
        { gasPerPubdata := tx.commonData.fee.gasPerPubdataLimit
          factoryDeps := tx.execute.factoryDeps
          customSignature := some tx.commonData.signature
          paymasterParams := some tx.commonData.paymasterParams } }
  | .eip1559Transaction | .eip2930Transaction => .ok
    { base R tx with
      maxPriorityFeePerGas := some tx.commonData.fee.maxPriorityFeePerGas
      transactionType := some tx.commonData.transactionType.asU8.toUInt64 }
  | _ => .panic

def unwrapped {ε α : Type} : Outcome ε α → Outcome Unit α
  | .ok a => .ok a
  | _ => .panic

/-- **The hash that the virtual machine computes.** -/
def TransactionData.txHash (R : RlpReader) (C : Crypto) (overflowChecks : Bool)
    (self : TransactionData) (chainId : L2ChainId) : Outcome Unit H256 :=
  if isL1TxType self.txType then unwrapped (self.canonicalL1TxHash C)
  else do
    let l2Tx ← unwrapped self.tryInto
    let request ← TransactionRequest.ofL2Tx R l2Tx
    unwrapped (TransactionRequest.getTxHash C overflowChecks
      { request with chainId := some chainId.asU64 })

end Web3

namespace L2CanonicalTransaction

open Web3

/-- The structure of the contracts: addresses are numbers. -/
def encode (self : L2CanonicalTransaction) : Abi.Token :=
  .tuple
    [.uint (BitVec.ofNat 256 self.txType),
      .uint (BitVec.ofNat 256 self.fromAddress),
      .uint (BitVec.ofNat 256 self.toAddress),
      .uint (BitVec.ofNat 256 self.gasLimit),
      .uint (BitVec.ofNat 256 self.gasPerPubdataByteLimit),
      .uint (BitVec.ofNat 256 self.maxFeePerGas),
      .uint (BitVec.ofNat 256 self.maxPriorityFeePerGas),
      .uint (BitVec.ofNat 256 self.paymaster),
      .uint (BitVec.ofNat 256 self.nonce),
      .uint (BitVec.ofNat 256 self.value),
      .fixedArray
        ([self.reserved.1, self.reserved.2.1, self.reserved.2.2.1, self.reserved.2.2.2].map
          fun x => .uint (BitVec.ofNat 256 x)),
      .bytes self.data,
      .bytes self.signature,
      .array (self.factoryDeps.map fun x => .uint (BitVec.ofNat 256 x)),
      .bytes self.paymasterInput,
      .bytes self.reservedDynamic]

def hash (C : Crypto) (self : L2CanonicalTransaction) : H256 :=
  C.keccak256 (C.encode [self.encode])

end L2CanonicalTransaction

namespace Web3

/-! ### Sizes -/

def Transaction.bootloaderEncodingSize {ε : Type} (R : RlpReader) (C : Crypto)
    (self : Transaction) :
    Outcome ε ℕ :=
  (TransactionData.ofTransaction R self).tokensLen C

theorem ceilDiv_eq (n : ℕ) : ceilDiv n 32 = (n + 31) / 32 := by
  unfold ceilDiv
  split <;> omega

/-- The length that `overhead_gas` computes the overhead from. -/
def TransactionData.encodedLen (self : TransactionData) : ℕ :=
  encodingLen self.data.length self.signature.length self.factoryDeps.length
    self.paymasterInput.length self.reservedDynamic.length

/-- **The number of words of an encoding**: one for each static field, and for a dynamic one its
offset, its length and its data. -/
theorem TransactionData.length_abiEncode {C : Crypto} (hE : C.toEncoder.Lawful)
    (self : TransactionData) (factoryDepsHashes : List U256) :
    (self.abiEncodeWithCustomFactoryDeps C factoryDepsHashes).length =
      32 * encodingLen self.data.length self.signature.length factoryDepsHashes.length
        self.paymasterInput.length self.reservedDynamic.length := by
  have hfixed : Abi.sizes (self.reserved.toList.map .uint) = 32 * 4 := by
    rw [Abi.sizes_uints, Vector.length_toList]
  have hstatic : Abi.anyDynamic (self.reserved.toList.map .uint) = false := by
    induction self.reserved.toList with
    | nil => rfl
    | cons x xs ih => exact ih
  rw [abiEncodeWithCustomFactoryDeps, hE.length_encode]
  simp only [tokens, Abi.sizes, Abi.Token.size, hfixed, Abi.sizes_uints, Abi.Token.isDynamic,
    Abi.anyDynamic, hstatic, encodingLen, ceilDiv_eq, Bool.or_true, Bool.true_or,
    Bool.false_eq_true, if_true, if_false]
  omega

theorem TransactionData.tokensLen_eq {ε : Type} {C : Crypto} (hE : C.toEncoder.Lawful)
    (self : TransactionData) : (self.tokensLen C : Outcome ε ℕ) =
      self.factoryDeps.mapM (hashBytecode C) >>= fun _ => pure self.encodedLen := by
  rw [tokensLen, abiEncode, bind_assoc]
  cases hdeps : self.factoryDeps.mapM (hashBytecode (ε := ε) C) with
  | ok hashes =>
    have hlength := self.length_abiEncode hE
      (hashes.map fun hash => BitVec.ofNat 256 (fromBe hash.bytes))
    rw [List.length_map, Outcome.length_mapM hdeps] at hlength
    simp only [Outcome.ok_bind, pure_bind, hlength, Nat.mul_mod_right, if_true,
      Nat.mul_div_cancel_left _ (Nat.succ_pos 31)]
    rfl
  | err e => rfl
  | panic => rfl

/-- **All sizes are the same**: that of the encoding, that of the formula, the size in the memory of
the bootloader, and the one that the check of a transaction uses. -/
theorem encodingLen_exact {ε : Type} (R : RlpReader) {C : Crypto} (hE : C.toEncoder.Lawful) :
    (∀ self : TransactionData, (self.tokensLen C : Outcome ε ℕ) =
      self.factoryDeps.mapM (hashBytecode C) >>= fun _ => pure self.encodedLen) ∧
    (∀ tx : Transaction, (tx.bootloaderEncodingSize R C : Outcome ε ℕ) =
      tx.execute.factoryDeps.mapM (hashBytecode C) >>= fun _ => pure tx.encodingLen) ∧
    ∀ tx : L2Tx, (Transaction.ofL2Tx tx).encodingLen = tx.abiEncodingLen := by
  refine ⟨fun self => self.tokensLen_eq hE, fun tx => ?_, fun tx => rfl⟩
  obtain ⟨commonData, execute, rawBytes⟩ := tx
  cases commonData with
  | l1 | l2 | protocolUpgrade => exact TransactionData.tokensLen_eq hE _

/-- Dynamic fields that do not end with a word, and a contract. -/
def sampleTransactionData : TransactionData where
  txType := 113
  fromAddress := .replicate 20 1
  toAddress := .replicate 20 2
  gasLimit := 1
  pubdataPriceLimit := 1
  maxFeePerGas := 1
  maxPriorityFeePerGas := 1
  paymaster := .replicate 20 3
  nonce := 0
  value := 0
  reserved := .replicate 4 0
  data := .replicate 65 0
  signature := .replicate 75 0
  factoryDeps := [.replicate 32 1]
  paymasterInput := .replicate 85 0
  reservedDynamic := .replicate 32 0
  rawBytes := none

theorem encodingLen_exact_sample :
    (sampleTransactionData.tokensLen sampleCrypto : Outcome Unit ℕ) =
      .ok (25 + 3 + 3 + 1 + 3 + 1) :=
  ((encodingLen_exact rlpCrate Abi.encoder_lawful).1 sampleTransactionData).trans rfl

/-! ### Transactions of users -/

variable {tx : TransactionRequest}

section Users

variable {R : RlpReader} {C : Crypto} {overflowChecks : Bool}

variable {request : TransactionRequest} {nonce : UInt32} {bytes : Bytes} {hash : H256}
  {contractAddress : EVMAddress}

theorem TransactionRequest.ofNat_getNonceChecked (h : request.getNonceChecked = .ok nonce) :
    BitVec.ofNat 256 nonce.toNat = request.nonce := by
  rw [getNonceChecked, asU32] at h
  split_ifs at h with hle hlt
  cases h
  rw [UInt32.toNat_ofNat_of_lt' hlt]
  rw [BitVec.ofNat_toNat, BitVec.setWidth_eq]

theorem asU32_ofNat {ε : Type} (nonce : UInt32) :
    asU32 (BitVec.ofNat 256 nonce.toNat) = (.ok nonce : Outcome ε UInt32) := by
  have hlt : nonce.toNat < 2 ^ 32 := nonce.toNat_lt
  have hsame : (BitVec.ofNat 256 nonce.toNat).toNat = nonce.toNat := by
    rw [BitVec.toNat_ofNat]
    exact Nat.mod_eq_of_lt (hlt.trans (by decide))
  rw [asU32, hsame, if_pos hlt, UInt32.ofNat_toNat]

/-- The transaction that the virtual machine rebuilds: the bytes that were received are lost, and so
is the limit for published data of a transaction of Ethereum. -/
def L2Tx.rebuilt (tx : L2Tx) : L2Tx :=
  { tx with
    commonData :=
      { tx.commonData with
        input := none
        fee :=
          { tx.commonData.fee with
            gasPerPubdataLimit :=
              if tx.commonData.transactionType.isEthereumType then
                TransactionData.maxGasPerPubdataByte
              else tx.commonData.fee.gasPerPubdataLimit } } }

theorem TransactionData.txHash_eq {tx : L2Tx} (chainId : L2ChainId)
    (h : isL1TxType tx.commonData.transactionType.asU8 = false) {request : TransactionRequest}
    (hrequest : TransactionRequest.ofL2Tx R tx.rebuilt = (.ok request : Outcome Unit _)) :
    (TransactionData.ofTransaction R (Transaction.ofL2Tx tx)).txHash R C overflowChecks chainId =
      unwrapped (TransactionRequest.getTxHash C overflowChecks
        { request with chainId := some chainId.asU64 }) := by
  have htype : isL1TxType (TransactionData.ofTransaction R (Transaction.ofL2Tx tx)).txType =
    false := h
  have hrebuilt : (TransactionData.ofL2 R tx.commonData tx.execute tx.rawBytes).tryInto =
      .ok tx.rebuilt := by
    simp only [tryInto, TransactionData.ofL2, h, TransactionType.tryFrom_asU8, asU32_ofNat]
    rfl
  rw [txHash, if_neg (by rw [htype]; exact Bool.false_ne_true), ofTransaction, Transaction.ofL2Tx,
    hrebuilt]
  change (TransactionRequest.ofL2Tx R tx.rebuilt >>= fun request => _) = _
  rw [hrequest]
  rfl

theorem TransactionRequest.getTxHashWithSignedMessage_of_raw
    (htype : tx.transactionType ≠ some eip712TxType) (hraw : tx.raw = some bytes) (message : H256) :
    tx.getTxHashWithSignedMessage C overflowChecks message = .ok (some (C.keccak256 bytes)) := by
  have h712 : tx.isEip712Tx = false := by simp [isEip712Tx, htype]
  rw [getTxHashWithSignedMessage, h712, hraw]
  rfl

theorem TransactionRequest.getTxHash_of_raw {data : Bytes}
    (htype : tx.transactionType ≠ some eip712TxType) (hraw : tx.raw = some bytes)
    (hdata : tx.getRlp C = .ok data) : tx.getTxHash C overflowChecks = .ok (C.keccak256 bytes) := by
  rw [getTxHash, getDefaultSignedMessage_of_getRlp htype hdata, Outcome.ok_bind,
    getTxHashWithSignedMessage_of_raw htype hraw]
  rfl

theorem TransactionData.txHash_of_raw {tx : L2Tx}
    (htype : tx.commonData.transactionType = .legacyTransaction ∨
      tx.commonData.transactionType = .eip1559Transaction) (hraw : tx.rawBytes = some bytes)
    (chainId : L2ChainId) :
    (TransactionData.ofTransaction R (Transaction.ofL2Tx tx)).txHash R C overflowChecks chainId =
      .ok (C.keccak256 bytes) := by
  rcases htype with htype | htype
  · have hrequest : TransactionRequest.ofL2Tx R tx.rebuilt =
        (.ok (TransactionRequest.base R tx.rebuilt) : Outcome Unit _) := by
      simp [TransactionRequest.ofL2Tx, L2Tx.rebuilt, htype]
    rw [txHash_eq chainId (by rw [htype]; rfl) hrequest, TransactionRequest.getTxHash_of_raw
      (TransactionRequest.legacy_ne_eip712 rfl) hraw (TransactionRequest.getRlp_legacy rfl)]
    rfl
  · have hrequest : TransactionRequest.ofL2Tx R tx.rebuilt =
        (.ok { TransactionRequest.base R tx.rebuilt with
          maxPriorityFeePerGas := some tx.commonData.fee.maxPriorityFeePerGas
          transactionType := some eip1559TxType } : Outcome Unit _) := by
      simp only [TransactionRequest.ofL2Tx, L2Tx.rebuilt, htype]
      rfl
    rw [txHash_eq chainId (by rw [htype]; rfl) hrequest, TransactionRequest.getTxHash_of_raw
      (TransactionRequest.eip1559_ne_eip712 rfl) hraw (TransactionRequest.getRlp_eip1559 rfl rfl)]
    rfl

theorem TransactionRequest.getTxHashWithSignedMessage_eip712
    (htype : tx.transactionType = some eip712TxType) {message : H256}
    (h : tx.getTxHashWithSignedMessage C overflowChecks message = .ok (some hash)) :
    ∃ b signature, tx.getSignature overflowChecks = .ok (b :: signature) ∧
      hash = C.keccak256 (message.bytes ++ (C.keccak256 (b :: signature)).bytes) := by
  have h712 : tx.isEip712Tx = true := by simp [isEip712Tx, htype]
  rw [getTxHashWithSignedMessage, h712, if_pos rfl] at h
  obtain ⟨signature, hsignature, h⟩ := Outcome.bind_eq_ok.1 h
  cases h
  obtain ⟨b, rest, rfl⟩ : ∃ b rest, signature = b :: rest := by
    rw [getSignature] at hsignature
    split at hsignature
    · next b rest _ => exact ⟨b, rest, (Outcome.ok.inj hsignature).symm⟩
    · obtain ⟨packed, -, hpacked⟩ := Outcome.bind_eq_ok.1 hsignature
      rw [PackedEthSignature.serializePacked] at hpacked
      split_ifs at hpacked
      -- the last byte is always there
      cases hpacked
      exact List.exists_cons_of_ne_nil (List.append_ne_nil_of_right_ne_nil _ (List.cons_ne_nil _ _))
  exact ⟨b, rest, hsignature, rfl⟩

def TransactionRequest.retyped (R : RlpReader) (tx : L2Tx) (chainId : L2ChainId) :
    TransactionRequest :=
  { base R tx with
    transactionType := some eip712TxType
    maxPriorityFeePerGas := some tx.commonData.fee.maxPriorityFeePerGas
    eip712Meta := some
      { gasPerPubdata := tx.commonData.fee.gasPerPubdataLimit
        factoryDeps := tx.execute.factoryDeps
        customSignature := some tx.commonData.signature
        paymasterParams := some tx.commonData.paymasterParams }
    chainId := some chainId.asU64 }

/-- **The members that were signed are rebuilt**, with defaults in the place of missing fields. -/
theorem TransactionRequest.buildStructure_retyped
    (htype : request.transactionType = some eip712TxType) {params : Eip712Meta}
    (hparams : request.eip712Meta = some params) {fromAddress : EVMAddress}
    (hfrom : request.fromAddress = some fromAddress)
    (hto : request.toAddress = some contractAddress) {fee : Fee}
    (hfee : request.getFeeDataChecked = .ok fee) (hnonce : request.getNonceChecked = .ok nonce)
    (signature : Bytes) (chainId : L2ChainId) :
    (retyped R (L2Tx.ofRequest request fee nonce signature contractAddress).rebuilt
      chainId).buildStructure C = request.buildStructure C := by
  obtain ⟨hgas, hprice, hpriority, hpubdata⟩ := getFeeDataChecked_eq_ok hfee
  have hlimit : fee.gasPerPubdataLimit = params.gasPerPubdata := by
    rw [hpubdata, hparams]
    rfl
  have hdeps : request.getFactoryDeps = params.factoryDeps := by
    rw [getFactoryDeps, hparams]
    rfl
  have hkind : TransactionType.ofRequest request.transactionType = .eip712Transaction := by
    rw [htype]
    rfl
  have hpaymaster : ((request.eip712Meta.bind Eip712Meta.paymasterParams).getD default).paymaster =
      request.getPaymaster.getD (FixedBytes.replicate 20 0) := by rw [paymasterParams_eq]
  have hpaymasterInput :
      ((request.eip712Meta.bind Eip712Meta.paymasterParams).getD default).paymasterInput =
        request.getPaymasterInput.getD [] := by rw [paymasterParams_eq]
  -- the rebuilt request has the members of the original one
  have hparams' : (retyped R (L2Tx.ofRequest request fee nonce signature contractAddress).rebuilt
      chainId).eip712Meta = some
        { gasPerPubdata := fee.gasPerPubdataLimit, factoryDeps := params.factoryDeps
          customSignature := some signature
          paymasterParams :=
            (request.eip712Meta.bind Eip712Meta.paymasterParams).getD default } := by
    simp [retyped, L2Tx.rebuilt, L2Tx.ofRequest, hkind, hdeps, TransactionType.isEthereumType]
  have hfrom' : (retyped R (L2Tx.ofRequest request fee nonce signature contractAddress).rebuilt
      chainId).fromAddress = some fromAddress := by
    simp [retyped, base, L2Tx.rebuilt, L2Tx.ofRequest, hfrom]
  have hdeps' : (retyped R (L2Tx.ofRequest request fee nonce signature contractAddress).rebuilt
      chainId).getFactoryDeps = params.factoryDeps := hdeps
  rw [buildStructure, buildStructure, hparams, hparams', hfrom, hfrom', hdeps, hdeps']
  refine congrArg (_ >>= ·) (funext fun hashes => congrArg Outcome.ok ?_)
  rw [members, members, hlimit, htype, hto, ← hgas, ← hpriority, ← hprice, ← hpaymaster,
    ← hpaymasterInput, ← ofNat_getNonceChecked hnonce]
  rfl

theorem TransactionData.txHash_of_typed (hkind : request.IsEip712) {message : H256}
    (hmessage : request.getDefaultSignedMessage C = .ok message)
    (hhash : request.getTxHashWithSignedMessage C overflowChecks message = .ok (some hash))
    {chainId : L2ChainId} (hchain : ∀ {id}, request.chainId = some id → id = chainId.asU64)
    {fee : Fee} (hfee : request.getFeeDataChecked = .ok fee)
    (hnonce : request.getNonceChecked = .ok nonce) {signature : Option Bytes}
    (hsignature : okOrNone (request.getSignature overflowChecks) = (.ok signature : Result _))
    (hto : request.toAddress = some contractAddress) (bytes : Bytes) :
    (TransactionData.ofTransaction R (Transaction.ofL2Tx
      ((L2Tx.ofRequest request fee nonce (signature.getD []) contractAddress).setInput bytes
        hash))).txHash R C overflowChecks chainId = .ok hash := by
  have htype := hkind.transactionType
  obtain ⟨params, hparams⟩ := hkind.eip712Meta
  obtain ⟨fromAddress, hfrom⟩ := hkind.fromAddress
  obtain ⟨id, hid⟩ := hkind.chainId
  have hid : request.chainId = some chainId.asU64 := hchain hid ▸ hid
  obtain ⟨b, rest, hpacked, hvalue⟩ :=
    TransactionRequest.getTxHashWithSignedMessage_eip712 htype hhash
  obtain rfl : signature = some (b :: rest) := by
    rw [hpacked] at hsignature
    exact (Outcome.ok.inj hsignature).symm
  have heip712 : TransactionType.ofRequest request.transactionType = .eip712Transaction := by
    rw [htype]
    rfl
  have hrequest : TransactionRequest.ofL2Tx R (L2Tx.rebuilt ((L2Tx.ofRequest request fee nonce
      (b :: rest) contractAddress).setInput bytes hash)) = (.ok
        { TransactionRequest.retyped R (L2Tx.ofRequest request fee nonce (b :: rest)
            contractAddress).rebuilt chainId with chainId := none } : Outcome Unit _) := by
    simp only [TransactionRequest.ofL2Tx, L2Tx.rebuilt, L2Tx.setInput, L2Tx.ofRequest, heip712]
    rfl
  -- the same message and the same signature, so the same hash
  have hmessage' : (TransactionRequest.retyped R (L2Tx.ofRequest request fee nonce (b :: rest)
      contractAddress).rebuilt chainId).getDefaultSignedMessage C = .ok message := by
    rw [← hmessage, TransactionRequest.getDefaultSignedMessage,
      TransactionRequest.buildStructure_retyped htype hparams hfrom hto hfee hnonce,
      TransactionRequest.getDefaultSignedMessage, hid,
      show request.isEip712Tx = true by simp [TransactionRequest.isEip712Tx, htype]]
    rfl
  have hhash' : (TransactionRequest.retyped R (L2Tx.ofRequest request fee nonce (b :: rest)
      contractAddress).rebuilt chainId).getTxHash C overflowChecks = .ok hash := by
    rw [TransactionRequest.getTxHash, hmessage', Outcome.ok_bind, hvalue]
    rfl
  refine (txHash_eq chainId (congrArg (fun t => isL1TxType t.asU8) heip712) hrequest).trans ?_
  exact congrArg unwrapped hhash'

/-- **The hash of a transaction of a user** is the hash that the server keeps. -/
theorem TransactionData.txHash_ofL2 {chainId : L2ChainId} {maxTxSize : ℕ} {tx : L2Tx}
    (h : parseTransactionBytes R C overflowChecks bytes chainId maxTxSize = .ok (tx, hash)) :
    (TransactionData.ofTransaction R (Transaction.ofL2Tx (tx.setInput bytes hash))).txHash R C
      overflowChecks chainId = .ok hash := by
  obtain ⟨⟨request, hash'⟩, hrequest, h⟩ := Outcome.bind_eq_ok.1 h
  obtain ⟨tx', htx, h⟩ := Outcome.bind_eq_ok.1 h
  cases h
  obtain ⟨decoded, message, fromAddress, hdecode, hmessage, rfl, hknown, hhash, hchain⟩ :=
    TransactionRequest.fromBytes_eq hrequest
  obtain ⟨hdec, -, hraw⟩ := (TransactionRequest.decodeValidated_spec _).2 _ hdecode
  obtain ⟨fee, nonce, signature, contractAddress, hfee, hnonce, hsignature, hto, rfl⟩ :=
    L2Tx.fromRequest_eq htx
  -- the first two kinds are hashed as they were received
  rcases hdec.kind with hkind | hkind | hkind
  · have htype : ({ decoded with fromAddress } : TransactionRequest).transactionType = none :=
      hkind.transactionType
    rw [TransactionRequest.getTxHashWithSignedMessage_of_raw
      (TransactionRequest.legacy_ne_eip712 htype) hraw] at hhash
    cases hhash
    exact txHash_of_raw (.inl (congrArg TransactionType.ofRequest htype)) hraw chainId
  · have htype : ({ decoded with fromAddress } : TransactionRequest).transactionType =
        some eip1559TxType := hkind.transactionType
    rw [TransactionRequest.getTxHashWithSignedMessage_of_raw
      (TransactionRequest.eip1559_ne_eip712 htype) hraw] at hhash
    cases hhash
    exact txHash_of_raw (.inr (congrArg TransactionType.ofRequest htype)) hraw chainId
  · obtain ⟨known, hfrom⟩ := hkind.fromAddress
    obtain rfl : fromAddress = decoded.fromAddress := (hknown known hfrom).trans hfrom.symm
    exact txHash_of_typed hkind hmessage hhash hchain hfee hnonce hsignature hto bytes

end Users

theorem TransactionData.canonicalL1TxHash_deposit (R : RlpReader) {C : Crypto}
    (hE : C.toEncoder.Lawful) {Address : Type} (msg : L1ToL2Message Address) (serialId : ℕ) :
    (TransactionData.ofTransaction R (Transaction.ofL1Tx
      (createL1TxFromMessage (L2CanonicalTransaction.hash C) msg serialId))).canonicalL1TxHash C =
        .ok (createL1TxFromMessage (L2CanonicalTransaction.hash C) msg
          serialId).commonData.canonicalTxHash :=
  -- an address is encoded as a number, and there are no contracts to hash
  congrArg (fun encoded => Outcome.ok (C.keccak256 encoded)) (hE.encode_address _).symm

/-- **Transactions have one hash**: that of the server, that of the watcher for a deposit, and that
of the virtual machine. -/
theorem txHash_agrees (R : RlpReader) {C : Crypto} (hE : C.toEncoder.Lawful)
    (overflowChecks : Bool) :
    (∀ bytes chainId maxTxSize tx hash,
      parseTransactionBytes R C overflowChecks bytes chainId maxTxSize = .ok (tx, hash) →
        L2Tx.hash (ε := Unit) (tx.setInput bytes hash) = .ok hash ∧
          (TransactionData.ofTransaction R (Transaction.ofL2Tx (tx.setInput bytes hash))).txHash R C
            overflowChecks chainId = .ok hash) ∧
      ∀ (Address : Type) (msg : L1ToL2Message Address) (serialId : ℕ),
        (TransactionData.ofTransaction R (Transaction.ofL1Tx
          (createL1TxFromMessage (L2CanonicalTransaction.hash C) msg
            serialId))).canonicalL1TxHash C =
            .ok (createL1TxFromMessage (L2CanonicalTransaction.hash C) msg
              serialId).commonData.canonicalTxHash := by
  exact ⟨fun _ _ _ _ _ h => ⟨rfl, TransactionData.txHash_ofL2 h⟩,
    fun _ => TransactionData.canonicalL1TxHash_deposit R hE⟩

def sampleDepositMessage : L1ToL2Message Unit where
  common := ⟨⟨.replicate 64 1⟩, [], 100, .replicate 32 4, ()⟩
  amount := 5000
  input := ⟨.replicate 20 6, .replicate 20 0, [1, 2, 3]⟩
  txOutputs := []

/-- A typed transaction without a custom signature, a transaction with a priority fee, and a
deposit. -/
theorem txHash_agrees_sample :
    (TransactionData.ofTransaction rlpCrate (Transaction.ofL1Tx (createL1TxFromMessage
      (L2CanonicalTransaction.hash sampleCrypto) sampleDepositMessage 8))).canonicalL1TxHash
        sampleCrypto = .ok (createL1TxFromMessage (L2CanonicalTransaction.hash sampleCrypto)
          sampleDepositMessage 8).commonData.canonicalTxHash ∧
    ∀ bytes ∈ [sampleEip712 270 1, sampleEip1559 [0x80] 3], ∃ tx hash,
      parseTransactionBytes rlpCrate sampleCrypto false bytes sampleChainId 1000000 =
          .ok (tx, hash) ∧
        (TransactionData.ofTransaction rlpCrate
          (Transaction.ofL2Tx (tx.setInput bytes hash))).txHash
          rlpCrate sampleCrypto false sampleChainId = .ok hash := by
  have hagrees := txHash_agrees rlpCrate (C := sampleCrypto) Abi.encoder_lawful false
  refine ⟨hagrees.2 _ _ _, fun bytes hbytes => ?_⟩
  have hparsed : (parseTransactionBytes rlpCrate sampleCrypto false bytes sampleChainId
      1000000).toOption.isSome := by
    revert bytes
    decide +kernel
  obtain ⟨⟨tx, hash⟩, h⟩ := Option.isSome_iff_exists.1 hparsed
  have h := Outcome.toOption_eq_some.1 h
  exact ⟨tx, hash, h, (hagrees.1 _ _ _ _ _ h).2⟩

section Malleability

variable {R : RlpReader} {C : Crypto} {overflowChecks : Bool} {bytes bytesA bytesB : Bytes}
  {chainId : L2ChainId} {request requestA requestB : TransactionRequest} {hash hashA hashB : H256}

theorem TransactionRequest.decode_eip712 (h : decode R bytes = .ok tx) :
    bytes.head? = some 0x71 ↔ tx.transactionType = some eip712TxType := by
  cases bytes with
  | nil => cases h
  | cons x rest =>
    rw [List.head?_cons, Option.some_inj]
    rw [decode] at h
    split_ifs at h with hlist h1559 h712 h2930
    · refine iff_of_false (fun hx => absurd (hx ▸ hlist) (by decide)) ?_
      exact legacy_ne_eip712 ((decodeLegacy_spec _).2 _ h).2.transactionType
    · refine iff_of_false (fun hx => absurd (hx ▸ h1559) (by decide)) ?_
      exact eip1559_ne_eip712 ((decodeEip1559_spec _).2 _ h).2.1.transactionType
    · have hnat := congrArg UInt64.toNat h712
      exact iff_of_true (UInt8.toNat_inj.1 hnat) ((decodeEip712_spec _).2 _ h).2.transactionType

/-- The hash of an accepted transaction: that of its fields if it is typed, of its bytes if not. -/
theorem TransactionRequest.hash_of_fromBytes
    (h : fromBytes R C overflowChecks bytes chainId = .ok (request, hash)) :
    (bytes.head? = some 0x71 ↔ request.transactionType = some eip712TxType) ∧
      (request.transactionType = some eip712TxType →
        ∃ message signature, request.getDefaultSignedMessage C = .ok message ∧
          request.getSignature overflowChecks = .ok signature ∧
          hash = C.keccak256 (message.bytes ++ (C.keccak256 signature).bytes)) ∧
      (request.transactionType ≠ some eip712TxType → hash = C.keccak256 bytes) := by
  obtain ⟨tx, message, fromAddress, hdecode, hmessage, rfl, hknown, hhash, -⟩ := fromBytes_eq h
  obtain ⟨hdec, -, hraw⟩ := (decodeValidated_spec _).2 _ hdecode
  obtain ⟨decoded, hdecoded, hdecode⟩ := Outcome.bind_eq_ok.1 hdecode
  obtain ⟨_, -, hdecode⟩ := Outcome.bind_eq_ok.1 hdecode
  cases hdecode
  have hhead := decode_eip712 hdecoded
  refine ⟨hhead, fun htype => ?_, fun htype => ?_⟩
  · -- a typed transaction has a sender in its bytes, so that nothing was recovered
    rcases hdec.kind with hkind | hkind | hkind
    · exact absurd htype (legacy_ne_eip712 hkind.transactionType)
    · exact absurd htype (eip1559_ne_eip712 hkind.transactionType)
    · obtain ⟨known, hfrom⟩ := hkind.fromAddress
      obtain rfl : fromAddress = some known := hknown known hfrom
      obtain ⟨b, signature, hsignature, hhash⟩ := getTxHashWithSignedMessage_eip712 htype hhash
      rw [← hfrom] at hsignature ⊢
      exact ⟨message, b :: signature, hmessage, hsignature, hhash⟩
  · rw [getTxHashWithSignedMessage_of_raw htype hraw] at hhash
    exact (Option.some.inj (Outcome.ok.inj hhash)).symm

def TransactionRequest.withoutRaw (tx : TransactionRequest) : TransactionRequest :=
  { tx with raw := none }

/-- **The same transaction in other bytes** has the same hash exactly if it is typed, as long as the
hash function tells the bytes apart. -/
theorem txHash_stable_iff
    (hA : TransactionRequest.fromBytes R C overflowChecks bytesA chainId = .ok (requestA, hashA))
    (hB : TransactionRequest.fromBytes R C overflowChecks bytesB chainId = .ok (requestB, hashB))
    (hsame : requestA.withoutRaw = requestB.withoutRaw)
    (hfree : C.keccak256 bytesA = C.keccak256 bytesB → bytesA = bytesB) :
    hashA = hashB ↔ bytesA = bytesB ∨ bytesA.head? = some 0x71 := by
  obtain ⟨hheadA, htypedA, hrawA⟩ := TransactionRequest.hash_of_fromBytes hA
  obtain ⟨-, htypedB, hrawB⟩ := TransactionRequest.hash_of_fromBytes hB
  have htypes := congrArg TransactionRequest.transactionType hsame
  by_cases htype : requestA.transactionType = some eip712TxType
  · refine iff_of_true ?_ (.inr (hheadA.2 htype))
    obtain ⟨message, signature, hmessage, hsignature, rfl⟩ := htypedA htype
    obtain ⟨message', signature', hmessage', hsignature', rfl⟩ := htypedB (htypes ▸ htype)
    -- neither the message nor the signature is made of the bytes
    have hmessages := congrArg (fun request => request.getDefaultSignedMessage C) hsame
    have hsignatures := congrArg (fun request => request.getSignature overflowChecks) hsame
    obtain rfl := Outcome.ok.inj (hmessage.symm.trans (hmessages.trans hmessage'))
    obtain rfl := Outcome.ok.inj (hsignature.symm.trans (hsignatures.trans hsignature'))
    rfl
  · rw [hrawA htype, hrawB (htypes ▸ htype), hheadA, or_iff_left htype]
    exact ⟨hfree, fun h => h ▸ rfl⟩

end Malleability

deriving instance DecidableEq for Eip712Meta, TransactionRequest

def sampleParsed (bytes : Bytes) : Option (TransactionRequest × H256) :=
  (TransactionRequest.fromBytes rlpCrate sampleCrypto false bytes sampleChainId).toOption.map
    fun p => (p.1.withoutRaw, p.2)

/-- A byte after the list of a typed transaction does not change its hash.  The byte `0x81`
announces an item that is not there, so that it is not counted. -/
theorem txHash_stable_typed :
    ∃ hash, (sampleParsed (sampleEip712 270 1)).map Prod.snd = some hash ∧
      (sampleParsed (sampleEip712 270 1 ++ [0x81])).map Prod.snd = some hash := by
  have hfields : (sampleParsed (sampleEip712 270 1)).map Prod.fst =
      (sampleParsed (sampleEip712 270 1 ++ [0x81])).map Prod.fst := by decide +kernel
  have hsome : (sampleParsed (sampleEip712 270 1)).isSome := by decide +kernel
  obtain ⟨a, ha⟩ := Option.isSome_iff_exists.1 hsome
  obtain ⟨b, hb⟩ : ∃ b, sampleParsed (sampleEip712 270 1 ++ [0x81]) = some b := by
    rw [ha] at hfields
    obtain ⟨b, hb, -⟩ := Option.map_eq_some_iff.1 hfields.symm
    exact ⟨b, hb⟩
  rw [ha, hb] at hfields ⊢
  obtain ⟨⟨requestA, hashA⟩, hA, rfl⟩ := Option.map_eq_some_iff.1 ha
  obtain ⟨⟨requestB, hashB⟩, hB, rfl⟩ := Option.map_eq_some_iff.1 hb
  have hhash : hashA = hashB := (txHash_stable_iff (Outcome.toOption_eq_some.1 hA)
    (Outcome.toOption_eq_some.1 hB) (Option.some.inj hfields) (by decide +kernel)).2 (.inr rfl)
  exact ⟨hashB, congrArg some hhash, rfl⟩

/-- **A byte after the list** gives a transaction with a priority fee another hash. -/
theorem txHash_trailing_byte :
    (sampleParsed (sampleEip1559 [0x80] 3)).isSome ∧
      (sampleParsed (sampleEip1559 [0x80] 3)).map Prod.fst =
        (sampleParsed (sampleEip1559 [0x80] 3 ++ [0x81])).map Prod.fst ∧
      (sampleParsed (sampleEip1559 [0x80] 3)).map Prod.snd ≠
        (sampleParsed (sampleEip1559 [0x80] 3 ++ [0x81])).map Prod.snd := by
  decide +kernel

end Web3
