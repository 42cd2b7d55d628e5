/-
Transactions as users send them: bytes, requests, and the transactions that are executed.

A byte string is decoded field by field into a request; some fields are read leniently, and a field
that cannot be read is then missing.  From the request the message that the user signed is rebuilt,
by encoding the fields again or by hashing them as a typed structure, and the hash under which the
transaction is known.  At last the request becomes an L2 transaction, where missing fields get
defaults.

Encoders, decoding of items, hashing and recovery of signers are code of other crates (`RlpReader`,
`Crypto`).

* `parseTransactionBytes` — the transaction and its hash, as the server gets them.
-/
import ViaCore.Abi
import ViaCore.Rlp

namespace Web3

abbrev U256 := BitVec 256

def u256ToH256 (x : U256) : H256 := FixedBytes.ofNat 32 x.toNat

def addressU256 (address : EVMAddress) : U256 := BitVec.ofNat 256 (fromBe address.bytes)

structure RlpReader where
  itemCount : Bytes → Except Rlp.DecoderError ℕ
  itemAt : Bytes → ℕ → Except Rlp.DecoderError Bytes
  dataAt : Bytes → ℕ → Except Rlp.DecoderError Bytes
  listAt : Bytes → ℕ → Except Rlp.DecoderError (List Bytes)

/-- A string that is read was in the bytes. -/
def RlpReader.Within (R : RlpReader) : Prop :=
  ∀ bytes index data, R.dataAt bytes index = .ok data → data.length ≤ bytes.length

/-- The encoders, hashes, recovery of the signer of a message, and the versioned hash of a
contract. -/
structure Crypto extends Rlp.Writer, Abi.Encoder where
  keccak256 : Bytes → H256
  recoverSigner : FixedBytes 65 → H256 → Option EVMAddress
  bytecodeToCodeHash : List Bytes → Option H256

/-- Contracts of an odd number of words have a hash, up to the largest length. -/
def Crypto.HashesContracts (C : Crypto) : Prop :=
  ∀ words : List Bytes, words.length % 2 = 1 → words.length ≤ 65535 →
    (C.bytecodeToCodeHash words).isSome

inductive InvalidBytecodeError where
  | bytecodeTooLong (len max : ℕ)
  | bytecodeLengthInWordsIsEven
  | bytecodeLengthIsNotDivisibleBy32
  deriving DecidableEq

inductive SerializationTransactionError where
  | unknownTransactionFormat
  | toAddressIsNull
  | incompleteSignature
  | decodeRlpError (error : Rlp.DecoderError)
  | malformedSignature
  | wrongChainId (chainId : Option UInt64)
  | malforedPaymasterParams
  | invalidFactoryDependencies (index : ℕ) (error : InvalidBytecodeError)
  | accessListsNotSupported
  | tooBigNonce
  | maxFeePerGasNotU64
  | maxFeePerPubdataByteNotU64
  | maxPriorityFeePerGasNotU64
  | oversizedData (max actual : ℕ)
  | gasPerPubDataLimitZero
  deriving DecidableEq

/-- Outcomes of the code of this module. -/
abbrev Result (α : Type) := Outcome SerializationTransactionError α

section Results

variable {ε α : Type}

def rlpResult : Except Rlp.DecoderError α → Result α
  | .ok a => .ok a
  | .error e => .err (.decodeRlpError e)

/-- `.ok()`: an error becomes `None`, and a panic stays a panic. -/
def okOrNone : Result α → Outcome ε (Option α)
  | .ok a => .ok (some a)
  | .err _ => .ok none
  | .panic => .panic

/-- `.ok_or(error)?` -/
def okOr (error : SerializationTransactionError) : Option α → Result α
  | some a => .ok a
  | none => .err error

end Results

/-- `r`, `s` and `v`, one after the other. -/
abbrev PackedEthSignature := FixedBytes 65

namespace PackedEthSignature

def fromRsv (r s : H256) (v : UInt8) : PackedEthSignature :=
  ⟨r.bytes ++ s.bytes ++ [v], by
    rw [List.length_append, List.length_append, r.size, s.size, List.length_singleton]⟩

def r (self : PackedEthSignature) : Bytes := self.bytes.take 32

def s (self : PackedEthSignature) : Bytes := (self.bytes.drop 32).take 32

def v (self : PackedEthSignature) : UInt8 := (self.bytes.drop 64).headD 0

/-- Adds 27 to `v`, which is a byte. -/
def serializePacked {ε : Type} (overflowChecks : Bool) (self : PackedEthSignature) :
    Outcome ε Bytes :=
  if overflowChecks ∧ 255 < self.v.toNat + 27 then .panic
  else .ok (self.bytes.take 64 ++ [self.v + 27])

/-- `none` on a wrong length. -/
def deserializePacked (bytes : Bytes) : Option PackedEthSignature :=
  (FixedBytes.tryFrom 65 bytes).map fun signature =>
    ⟨signature.bytes.take 64 ++ [if 27 ≤ v signature then v signature - 27 else v signature], by
      rw [List.length_append, List.length_take, signature.size]
      rfl⟩

def vWithChainId (self : PackedEthSignature) (chainId : UInt64) : UInt64 :=
  (v self).toUInt64 + 35 + chainId * 2

/-- The recovery id of a legacy transaction, and the chain that it is for. -/
def unpackV (v : UInt64) : Option (UInt8 × Option UInt64) :=
  if v = 27 then some (0, none)
  else if v = 28 then some (1, none)
  else if 35 ≤ v then
    let chainId := (v - 35) >>> 1
    let v := v - 35 - chainId * 2
    if v = 0 then some (0, some chainId)
    else if v = 1 then some (1, some chainId)
    else none
  else none

end PackedEthSignature

/-- `2 * chainId + 36` has to be an integer that is safe in JavaScript. -/
def maxL2ChainId : UInt64 := ((1 : UInt64) <<< 53 - 1 - 36) / 2

structure L2ChainId where
  asU64 : UInt64
  le_max : asU64 ≤ maxL2ChainId

def L2ChainId.tryFrom (value : UInt64) : Option L2ChainId :=
  if h : value ≤ maxL2ChainId then some ⟨value, h⟩ else none

def maxBytecodeLengthBytes : ℕ := 65535 * 32

def validateBytecode (code : Bytes) : Except InvalidBytecodeError Unit :=
  if maxBytecodeLengthBytes < code.length then
    .error (.bytecodeTooLong code.length maxBytecodeLengthBytes)
  else if code.length % 32 ≠ 0 then .error .bytecodeLengthIsNotDivisibleBy32
  else if code.length / 32 % 2 = 0 then .error .bytecodeLengthInWordsIsEven
  else .ok ()

/-- The index of the first contract that is not valid is part of the error. -/
def validateFactoryDepsFrom : ℕ → List Bytes → Result Unit
  | _, [] => .ok ()
  | i, dep :: deps =>
    match validateBytecode dep with
    | .ok _ => validateFactoryDepsFrom (i + 1) deps
    | .error error => .err (.invalidFactoryDependencies i error)

def validateFactoryDeps (factoryDeps : List Bytes) : Result Unit :=
  validateFactoryDepsFrom 0 factoryDeps

/-- The words of some bytes; it is an assertion that their number is divisible by 32. -/
def bytesToChunks {ε : Type} (bytes : Bytes) : Outcome ε (List Bytes) :=
  if bytes.length % 32 = 0 then
    .ok ((List.range (bytes.length / 32)).map fun i => (bytes.drop (32 * i)).take 32)
  else .panic

/-- It is expected that the contract has a hash. -/
def hashBytecode {ε : Type} (C : Crypto) (code : Bytes) : Outcome ε H256 := do
  let chunkedCode ← bytesToChunks code
  Outcome.unwrap (C.bytecodeToCodeHash chunkedCode)

def legacyTxType : UInt64 := 0

def eip2930TxType : UInt64 := 1

def eip1559TxType : UInt64 := 2

def eip712TxType : UInt64 := 0x71

structure PaymasterParams where
  paymaster : EVMAddress
  paymasterInput : Bytes
  deriving DecidableEq

instance : Inhabited PaymasterParams := ⟨⟨FixedBytes.replicate 20 0, []⟩⟩

def PaymasterParams.fromVector : List Bytes → Result (Option PaymasterParams)
  | [] => .ok none
  | [paymaster, paymasterInput] =>
    if paymaster.length ≠ 20 then .err .malforedPaymasterParams
    else do
      let paymaster ← FixedBytes.fromSlice 20 paymaster
      pure (some { paymaster, paymasterInput })
  | _ => .err .malforedPaymasterParams

structure Eip712Meta where
  gasPerPubdata : U256
  factoryDeps : List Bytes
  customSignature : Option Bytes
  paymasterParams : Option PaymasterParams

/-- Requests never have an access list here: it is rejected in the bytes. -/
structure TransactionRequest where
  nonce : U256
  fromAddress : Option EVMAddress
  toAddress : Option EVMAddress
  value : U256
  gasPrice : U256
  gas : U256
  maxPriorityFeePerGas : Option U256
  input : Bytes
  v : Option UInt64
  r : Option U256
  s : Option U256
  raw : Option Bytes
  transactionType : Option UInt64
  eip712Meta : Option Eip712Meta
  chainId : Option UInt64

/-- A member of a typed structure: its name, its type, and the word that it is encoded as. -/
structure EncodedMember where
  name : String
  memberType : String
  data : H256

namespace EncodedMember

def uint (name : String) (x : U256) : EncodedMember := ⟨name, "uint256", u256ToH256 x⟩

def bytes (C : Crypto) (name : String) (x : Bytes) : EncodedMember := ⟨name, "bytes", C.keccak256 x⟩

def string (C : Crypto) (name x : String) : EncodedMember :=
  ⟨name, "string", C.keccak256 (ascii x)⟩

def hashes (C : Crypto) (name : String) (xs : List H256) : EncodedMember :=
  ⟨name, "bytes32[]", C.keccak256 (xs.flatMap FixedBytes.bytes)⟩

end EncodedMember

/-- The name of the type, and the types and names of the members. -/
def encodeType (typeName : String) (members : List EncodedMember) : Bytes :=
  ascii typeName ++ ascii "(" ++
    List.intercalate (ascii ",")
      (members.map fun member => ascii member.memberType ++ ascii " " ++ ascii member.name) ++
    ascii ")"

def encodeData (members : List EncodedMember) : Bytes :=
  members.flatMap fun member => member.data.bytes

def hashStruct (C : Crypto) (typeName : String) (members : List EncodedMember) : H256 :=
  C.keccak256 ((C.keccak256 (encodeType typeName members)).bytes ++ encodeData members)

def eip712Domain (C : Crypto) (chainId : L2ChainId) : List EncodedMember :=
  [.string C "name" "zkSync", .string C "version" "2",
    .uint "chainId" (BitVec.ofNat 256 chainId.asU64.toNat)]

def typedDataToSignedBytes (C : Crypto) (domain structure' : H256) : H256 :=
  C.keccak256 ([0x19, 0x01] ++ domain.bytes ++ structure'.bytes)

/-! ### Items of a request -/

/-- The item of an optional field: the empty string when it is missing. -/
def optItem {α : Type} (item : α → Bytes) (field : Option α) : Bytes := (field.map item).getD []

def uintItem (x : U256) : Bytes := minimalBe x.toNat

def Eip712Meta.rlpAppend (C : Crypto) (self : Eip712Meta) : Bytes :=
  C.encodeBytes (uintItem self.gasPerPubdata) ++
    C.encodeList (C.encodeItems self.factoryDeps) ++
    C.encodeBytes (optItem id self.customSignature) ++
    C.encodeList (match self.paymasterParams with
      | some params => C.encodeItems [params.paymaster.bytes, params.paymasterInput]
      | none => [])

namespace TransactionRequest

def isLegacyTx (self : TransactionRequest) : Bool :=
  self.transactionType = none ∨ self.transactionType = some legacyTxType

def isEip712Tx (self : TransactionRequest) : Bool := self.transactionType = some eip712TxType

def getCustomSignature (self : TransactionRequest) : Option Bytes :=
  self.eip712Meta.bind Eip712Meta.customSignature

def getPaymaster (self : TransactionRequest) : Option EVMAddress :=
  (self.eip712Meta.bind Eip712Meta.paymasterParams).map PaymasterParams.paymaster

def getPaymasterInput (self : TransactionRequest) : Option Bytes :=
  (self.eip712Meta.bind Eip712Meta.paymasterParams).map PaymasterParams.paymasterInput

def getFactoryDeps (self : TransactionRequest) : List Bytes :=
  (self.eip712Meta.map Eip712Meta.factoryDeps).getD []

def members (C : Crypto) (self : TransactionRequest) (params : Eip712Meta)
    (fromAddress : EVMAddress) (factoryDepHashes : List H256) : List EncodedMember :=
  [.uint "txType" (BitVec.ofNat 256 (self.transactionType.getD eip712TxType).toNat),
    .uint "from" (addressU256 fromAddress),
    .uint "to" (addressU256 (self.toAddress.getD (FixedBytes.replicate 20 0))),
    .uint "gasLimit" self.gas,
    .uint "gasPerPubdataByteLimit" params.gasPerPubdata,
    .uint "maxFeePerGas" self.gasPrice,
    .uint "maxPriorityFeePerGas" (self.maxPriorityFeePerGas.getD self.gasPrice),
    .uint "paymaster" (addressU256 (self.getPaymaster.getD (FixedBytes.replicate 20 0))),
    .uint "nonce" self.nonce,
    .uint "value" self.value,
    .bytes C "data" self.input,
    .hashes C "factoryDeps" factoryDepHashes,
    .bytes C "paymasterInput" (self.getPaymasterInput.getD [])]

/-- Both the additional fields and the sender are expected. -/
def buildStructure (C : Crypto) (self : TransactionRequest) : Result (List EncodedMember) := do
  let params ← Outcome.unwrap self.eip712Meta
  let fromAddress ← Outcome.unwrap self.fromAddress
  let factoryDepHashes ← self.getFactoryDeps.mapM (hashBytecode C)
  pure (self.members C params fromAddress factoryDepHashes)

/-! ### Encoding a request -/

/-- The fields of each type of transaction.  An access list is always empty. -/
def rlpFields (C : Crypto) (self : TransactionRequest) : Result Bytes :=
  if self.transactionType = some eip2930TxType then do
    let chainId ← okOr (.wrongChainId none) self.chainId
    pure (C.encodeItems
      [minimalBe chainId.toNat, uintItem self.nonce, uintItem self.gasPrice, uintItem self.gas,
        optItem FixedBytes.bytes self.toAddress, uintItem self.value, self.input] ++
        C.encodeList [])
  else if self.transactionType = some eip1559TxType then do
    let chainId ← okOr (.wrongChainId none) self.chainId
    pure (C.encodeItems
      [minimalBe chainId.toNat, uintItem self.nonce, optItem uintItem self.maxPriorityFeePerGas,
        uintItem self.gasPrice, uintItem self.gas, optItem FixedBytes.bytes self.toAddress,
        uintItem self.value, self.input] ++ C.encodeList [])
  else if self.transactionType = some eip712TxType then
    pure (C.encodeItems
      [uintItem self.nonce, optItem uintItem self.maxPriorityFeePerGas, uintItem self.gasPrice,
        uintItem self.gas, optItem FixedBytes.bytes self.toAddress,
          uintItem self.value, self.input])
  else if self.isLegacyTx then
    pure (C.encodeItems
      [uintItem self.nonce, uintItem self.gasPrice, uintItem self.gas,
        optItem FixedBytes.bytes self.toAddress, uintItem self.value, self.input])
  else .panic

/-- What follows the fields: the signature, or the chain in the place of a signature. -/
def rlpSignature (self : TransactionRequest) : Option PackedEthSignature → List Bytes
  | some sig =>
    [match self.chainId, self.isLegacyTx with
      | some chainId, true => minimalBe (PackedEthSignature.vWithChainId sig chainId).toNat
      | _, _ => minimalBe (PackedEthSignature.v sig).toNat,
      minimalBe (fromBe (PackedEthSignature.r sig)), minimalBe (fromBe (PackedEthSignature.s sig))]
  | none =>
    match self.chainId, self.isLegacyTx with
    | some chainId, true => [minimalBe chainId.toNat, [], []]
    | _, _ => []

def rlpEip712 (C : Crypto) (self : TransactionRequest) : Result Bytes :=
  if self.isEip712Tx then do
    let chainId ← okOr (.wrongChainId none) self.chainId
    pure (C.encodeItems [minimalBe chainId.toNat, optItem FixedBytes.bytes self.fromAddress] ++
      (self.eip712Meta.map (Eip712Meta.rlpAppend C)).getD [])
  else pure []

def rlp (C : Crypto) (self : TransactionRequest) (signature : Option PackedEthSignature) :
    Result Bytes := do
  let fields ← self.rlpFields C
  let eip712 ← self.rlpEip712 C
  pure (C.encodeList (fields ++ C.encodeItems (self.rlpSignature signature) ++ eip712))

def getRlp (C : Crypto) (self : TransactionRequest) : Result Bytes := self.rlp C none

/-- The type of the transaction in front, unless it is a legacy one. -/
def withType (self : TransactionRequest) (data : Bytes) : Bytes :=
  (self.transactionType.map UInt64.toUInt8).toList ++ data

def getSignedBytes (C : Crypto) (self : TransactionRequest) (signature : PackedEthSignature) :
    Result Bytes := do
  let data ← self.rlp C (some signature)
  pure (self.withType data)

/-! ### The signed message and the hash -/

/-- The chain is unwrapped before it is compared with the chain of the node. -/
def getDefaultSignedMessage (C : Crypto) (self : TransactionRequest) : Result H256 :=
  if self.isEip712Tx then do
    let chainId ← okOr (.wrongChainId none) self.chainId
    let chainId ← Outcome.unwrap (L2ChainId.tryFrom chainId)
    let members ← self.buildStructure C
    pure (typedDataToSignedBytes C (hashStruct C "EIP712Domain" (eip712Domain C chainId))
      (hashStruct C "Transaction" members))
  else do
    let data ← self.getRlp C
    pure (C.keccak256 (self.withType data))

/-- A legacy transaction has the chain in its `v`; the others have a byte. -/
def recoveryId (self : TransactionRequest) (packedV : UInt64) : Result UInt8 :=
  if self.isLegacyTx then
    okOr .malformedSignature ((PackedEthSignature.unpackV packedV).map Prod.fst)
  else if packedV.toNat < 256 then pure packedV.toUInt8
  else .err .malformedSignature

def getPackedSignature (self : TransactionRequest) : Result PackedEthSignature := do
  let packedV ← okOr .incompleteSignature self.v
  let v ← self.recoveryId packedV
  let r ← okOr .incompleteSignature self.r
  let s ← okOr .incompleteSignature self.s
  pure (PackedEthSignature.fromRsv (u256ToH256 r) (u256ToH256 s) v)

/-- A custom signature overrides `v`, `r` and `s`, unless it is empty. -/
def getSignature (overflowChecks : Bool) (self : TransactionRequest) : Result Bytes :=
  match self.getCustomSignature with
  | some (b :: signature) => pure (b :: signature)
  | _ => do
    let packedEthSignature ← self.getPackedSignature
    PackedEthSignature.serializePacked overflowChecks packedEthSignature

def getTxHashWithSignedMessage (C : Crypto) (overflowChecks : Bool) (self : TransactionRequest)
    (signedMessage : H256) : Result (Option H256) :=
  if self.isEip712Tx then do
    let signature ← self.getSignature overflowChecks
    pure (some (C.keccak256 (signedMessage.bytes ++ (C.keccak256 signature).bytes)))
  else pure (self.raw.map C.keccak256)

def getTxHash (C : Crypto) (overflowChecks : Bool) (self : TransactionRequest) : Result H256 := do
  let signedMessage ← self.getDefaultSignedMessage C
  match ← self.getTxHashWithSignedMessage C overflowChecks signedMessage with
  | some hash => pure hash
  | none => do
    let signature ← self.getPackedSignature
    let bytes ← self.getSignedBytes C signature
    pure (C.keccak256 bytes)

def recoverDefaultSigner (C : Crypto) (overflowChecks : Bool) (self : TransactionRequest)
    (defaultSignedMessage : H256) : Result EVMAddress := do
  let signature ← self.getSignature overflowChecks
  let packed ← okOr .malformedSignature (PackedEthSignature.deserializePacked signature)
  okOr .malformedSignature (C.recoverSigner packed defaultSignedMessage)

end TransactionRequest

/-- A number of at most `size` bytes, without zeros in front. -/
def decodeUint (size : ℕ) (data : Bytes) : Except Rlp.DecoderError ℕ :=
  if data.head? = some 0 then .error .rlpInvalidIndirection
  else if data.length ≤ size then .ok (fromBe data)
  else .error .rlpIsTooBig

/-- A primitive `u64`: the length is checked first. -/
def decodeU64 (data : Bytes) : Except Rlp.DecoderError UInt64 :=
  if data.length ≤ 8 then
    if data.head? = some 0 then .error .rlpInvalidIndirection else .ok (UInt64.ofNat (fromBe data))
  else .error .rlpIsTooBig

def decodeAddress (data : Bytes) : Except Rlp.DecoderError EVMAddress :=
  if h : data.length = 20 then .ok ⟨data, h⟩
  else if data.length < 20 then .error .rlpIsTooShort
  else .error .rlpIsTooBig

namespace RlpReader

variable (R : RlpReader) (rlp : Bytes) (index : ℕ)

def u256At : Except Rlp.DecoderError U256 :=
  return BitVec.ofNat 256 (← decodeUint 32 (← R.dataAt rlp index))

/-- The type `U64`, which is not the primitive one. -/
def bigU64At : Except Rlp.DecoderError UInt64 :=
  return UInt64.ofNat (← decodeUint 8 (← R.dataAt rlp index))

def u64At : Except Rlp.DecoderError UInt64 := R.dataAt rlp index >>= decodeU64

def addressAt : Except Rlp.DecoderError EVMAddress := R.dataAt rlp index >>= decodeAddress

end RlpReader

namespace TransactionRequest

variable (R : RlpReader)

def decodeStandardFields (rlp : Bytes) (offset : ℕ) :
    Except Rlp.DecoderError TransactionRequest := do
  let nonce ← R.u256At rlp offset
  let gasPrice ← R.u256At rlp (offset + 1)
  let gas ← R.u256At rlp (offset + 2)
  let value ← R.u256At rlp (offset + 4)
  let input ← R.dataAt rlp (offset + 5)
  pure
    { nonce, gasPrice, gas, value, input
      toAddress := (R.addressAt rlp (offset + 3)).toOption
      fromAddress := none, maxPriorityFeePerGas := none, v := none, r := none, s :=
        none, raw := none
      transactionType := none, eip712Meta := none, chainId := none }

/-- A priority fee that cannot be decoded is missing, and so is a recipient. -/
def decodeEip1559Fields (rlp : Bytes) (offset : ℕ) :
    Except Rlp.DecoderError TransactionRequest := do
  let nonce ← R.u256At rlp offset
  let gasPrice ← R.u256At rlp (offset + 2)
  let gas ← R.u256At rlp (offset + 3)
  let value ← R.u256At rlp (offset + 5)
  let input ← R.dataAt rlp (offset + 6)
  pure
    { nonce, gasPrice, gas, value, input
      maxPriorityFeePerGas := (R.u256At rlp (offset + 1)).toOption
      toAddress := (R.addressAt rlp (offset + 4)).toOption
      fromAddress := none, v := none, r := none, s := none, raw := none, transactionType := none
      eip712Meta := none, chainId := none }

def decodeLegacy (bytes : Bytes) : Result TransactionRequest := do
  let itemCount ← rlpResult (R.itemCount bytes)
  if itemCount ≠ 9 then .err (.decodeRlpError .rlpIncorrectListLen)
  else
    let packedV ← rlpResult (R.u64At bytes 6)
    let unpacked ← okOr .malformedSignature (PackedEthSignature.unpackV packedV)
    let v ← rlpResult (R.bigU64At bytes 6)
    let r ← rlpResult (R.u256At bytes 7)
    let s ← rlpResult (R.u256At bytes 8)
    let fields ← rlpResult (decodeStandardFields R bytes 0)
    pure { fields with chainId := unpacked.2, v := some v, r := some r, s := some s }

/-- The item of the access list, if it can be found, must be an empty list. -/
def checkAccessList (rlp : Bytes) : Result Unit :=
  match R.itemAt rlp 8 with
  | .ok accessListRlp => do
    let itemCount ← rlpResult (R.itemCount accessListRlp)
    if 0 < itemCount then .err .accessListsNotSupported else pure ()
  | .error _ => pure ()

def decodeEip1559 (rlp : Bytes) : Result TransactionRequest := do
  let itemCount ← rlpResult (R.itemCount rlp)
  if itemCount ≠ 12 then .err (.decodeRlpError .rlpIncorrectListLen)
  else
    checkAccessList R rlp
    let chainId ← rlpResult (R.u64At rlp 0)
    let v ← rlpResult (R.bigU64At rlp 9)
    let r ← rlpResult (R.u256At rlp 10)
    let s ← rlpResult (R.u256At rlp 11)
    let fields ← rlpResult (decodeEip1559Fields R rlp 1)
    pure
      { fields with
        chainId := some chainId, v := some v, r := some r, s := some s, raw := some rlp
        transactionType := some eip1559TxType }

/-- Parameters of a paymaster that are not a list are missing. -/
def decodePaymasterParams (rlp : Bytes) : Result (Option PaymasterParams) :=
  match R.listAt rlp 15 with
  | .ok params => PaymasterParams.fromVector params
  | .error _ => pure none

def decodeEip712 (rlp : Bytes) : Result TransactionRequest := do
  let itemCount ← rlpResult (R.itemCount rlp)
  if itemCount ≠ 16 then .err (.decodeRlpError .rlpIncorrectListLen)
  else
    let v ← rlpResult (R.bigU64At rlp 7)
    let r ← rlpResult (R.u256At rlp 8)
    let s ← rlpResult (R.u256At rlp 9)
    let gasPerPubdata ← rlpResult (R.u256At rlp 12)
    let factoryDeps ← rlpResult (R.listAt rlp 13)
    let paymasterParams ← decodePaymasterParams R rlp
    let chainId ← rlpResult (R.u64At rlp 10)
    let fromAddress ← rlpResult (R.addressAt rlp 11)
    let fields ← rlpResult (decodeEip1559Fields R rlp 0)
    pure
      { fields with
        v := some v, r := some r, s := some s
        eip712Meta := some
          { gasPerPubdata, factoryDeps, paymasterParams
            customSignature := (R.dataAt rlp 14).toOption }
        chainId := some chainId, transactionType := some eip712TxType
        fromAddress := some fromAddress }

/-- The first byte tells the type of a transaction; a list is a legacy one. -/
def decode : Bytes → Result TransactionRequest
  | [] => .err .unknownTransactionFormat
  | x :: rest =>
    if 0x80 ≤ x then decodeLegacy R (x :: rest)
    else if x.toUInt64 = eip1559TxType then decodeEip1559 R rest
    else if x.toUInt64 = eip712TxType then decodeEip712 R rest
    else if x.toUInt64 = eip2930TxType then .err .accessListsNotSupported
    else .err .unknownTransactionFormat

/-- The fields that the bytes give, before anything is hashed. -/
def decodeValidated (bytes : Bytes) : Result TransactionRequest := do
  let tx ← decode R bytes
  validateFactoryDeps tx.getFactoryDeps
  pure { tx with raw := some bytes }

variable (C : Crypto) (overflowChecks : Bool)

/-- A sender that is not part of the bytes is recovered from the signature. -/
def recoverSender (tx : TransactionRequest) (defaultSignedMessage : H256) :
    Result TransactionRequest :=
  match tx.fromAddress with
  | some _ => pure tx
  | none => do
    let fromAddress ← okOrNone (tx.recoverDefaultSigner C overflowChecks defaultSignedMessage)
    pure { tx with fromAddress }

def fromBytesUnverified (bytes : Bytes) : Result (TransactionRequest × H256) := do
  let tx ← decodeValidated R bytes
  let defaultSignedMessage ← tx.getDefaultSignedMessage C
  let tx ← recoverSender C overflowChecks tx defaultSignedMessage
  let hash ← tx.getTxHashWithSignedMessage C overflowChecks defaultSignedMessage
  let hash ← Outcome.unwrap hash
  pure (tx, hash)

/-- A chain in the bytes has to be the chain of the node. -/
def checkChainId (tx : TransactionRequest) (chainId : L2ChainId) : Result Unit :=
  if tx.chainId.isSome ∧ tx.chainId ≠ some chainId.asU64 then .err (.wrongChainId tx.chainId)
  else .ok ()

def fromBytes (bytes : Bytes) (chainId : L2ChainId) : Result (TransactionRequest × H256) := do
  let (tx, hash) ← fromBytesUnverified R C overflowChecks bytes
  tx.checkChainId chainId
  pure (tx, hash)

end TransactionRequest

/-! ### L2 transactions -/

inductive TransactionType where
  | legacyTransaction
  | eip2930Transaction
  | eip1559Transaction
  | eip712Transaction
  | priorityOpTransaction
  | protocolUpgradeTransaction
  deriving DecidableEq

structure Fee where
  gasLimit : U256
  maxFeePerGas : U256
  maxPriorityFeePerGas : U256
  gasPerPubdataLimit : U256

structure Execute where
  contractAddress : EVMAddress
  calldata : Bytes
  value : U256
  factoryDeps : List Bytes

structure InputData where
  hash : H256
  data : Bytes

structure L2TxCommonData where
  nonce : UInt32
  fee : Fee
  initiatorAddress : EVMAddress
  signature : Bytes
  transactionType : TransactionType
  input : Option InputData
  paymasterParams : PaymasterParams

structure L2Tx where
  execute : Execute
  commonData : L2TxCommonData
  rawBytes : Option Bytes

def u64Max : U256 := 18446744073709551615

def defaultL2TxGasPerPubdataByte : U256 := 50000

/-- The limit on the price of published data is not part of other transactions. -/
def TransactionRequest.gasPerPubdataLimit (self : TransactionRequest) : Result U256 :=
  match self.eip712Meta with
  | some params =>
    if u64Max < params.gasPerPubdata then .err .maxFeePerPubdataByteNotU64
    else if params.gasPerPubdata = 0 then .err .gasPerPubDataLimitZero
    else pure params.gasPerPubdata
  | none => pure defaultL2TxGasPerPubdataByte

def TransactionRequest.getFeeDataChecked (self : TransactionRequest) : Result Fee :=
  if u64Max < self.gasPrice then .err .maxFeePerGasNotU64
  else do
    let gasPerPubdataLimit ← self.gasPerPubdataLimit
    let maxPriorityFeePerGas := self.maxPriorityFeePerGas.getD self.gasPrice
    if u64Max < maxPriorityFeePerGas then .err .maxPriorityFeePerGasNotU64
    else
      pure
        { gasLimit := self.gas, maxFeePerGas := self.gasPrice, maxPriorityFeePerGas
          gasPerPubdataLimit }

/-- `as_u32` panics on a number that does not fit. -/
def asU32 {ε : Type} (x : U256) : Outcome ε UInt32 :=
  if x.toNat < 2 ^ 32 then .ok (UInt32.ofNat x.toNat) else .panic

def TransactionRequest.getNonceChecked (self : TransactionRequest) : Result UInt32 :=
  if self.nonce ≤ 4294967295 then asU32 self.nonce else .err .tooBigNonce

def TransactionType.ofRequest (transactionType : Option UInt64) : TransactionType :=
  match transactionType.map fun t => t.toUInt8.toNat with
  | some 0x71 => .eip712Transaction
  | some 2 => .eip1559Transaction
  | some 1 => .eip2930Transaction
  | _ => .legacyTransaction

def ceilDiv (a b : ℕ) : ℕ := if a = 0 then a else (a - 1) / b + 1

/-- The number of words of a transaction in the memory of the bootloader. -/
def encodingLen (dataLen signatureLen factoryDepsLen paymasterInputLen reservedDynamicLen : ℕ) :
    ℕ :=
  let baseLen := 1 + 19 + 5
  let dynamicLen := ceilDiv dataLen 32 + ceilDiv signatureLen 32 + ceilDiv paymasterInputLen 32 +
    ceilDiv reservedDynamicLen 32 + factoryDepsLen
  baseLen + dynamicLen

namespace L2Tx

def abiEncodingLen (self : L2Tx) : ℕ :=
  encodingLen self.execute.calldata.length self.commonData.signature.length
    self.execute.factoryDeps.length self.commonData.paymasterParams.paymasterInput.length 0

/-- The transaction of a request; missing parameters of a paymaster and a missing sender are
zero. -/
def ofRequest (value : TransactionRequest) (fee : Fee) (nonce : UInt32) (signature : Bytes)
    (contractAddress : EVMAddress) : L2Tx where
  execute :=
    { contractAddress, calldata := value.input, value := value.value
      factoryDeps := value.getFactoryDeps }
  commonData :=
    { nonce, fee, signature
      initiatorAddress := value.fromAddress.getD (FixedBytes.replicate 20 0)
      transactionType := TransactionType.ofRequest value.transactionType
      input := none
      paymasterParams := (value.eip712Meta.bind Eip712Meta.paymasterParams).getD default }
  rawBytes := value.raw

/-- A signature that cannot be built is empty. -/
def fromRequestUnverified (overflowChecks : Bool) (value : TransactionRequest) : Result L2Tx := do
  let fee ← value.getFeeDataChecked
  let nonce ← value.getNonceChecked
  let rawSignature ← okOrNone (value.getSignature overflowChecks)
  validateFactoryDeps value.getFactoryDeps
  let contractAddress ← okOr .toAddressIsNull value.toAddress
  pure (ofRequest value fee nonce (rawSignature.getD []) contractAddress)

def checkEncodedSize (self : L2Tx) (maxTxSize : ℕ) : Result Unit :=
  if maxTxSize < self.abiEncodingLen * 32 then
    .err (.oversizedData maxTxSize (self.abiEncodingLen * 32))
  else .ok ()

def fromRequest (overflowChecks : Bool) (value : TransactionRequest) (maxTxSize : ℕ) :
    Result L2Tx := do
  let tx ← fromRequestUnverified overflowChecks value
  tx.checkEncodedSize maxTxSize
  pure tx

/-- The bytes that were received, and the hash under which the transaction is kept. -/
def setInput (self : L2Tx) (data : Bytes) (hash : H256) : L2Tx :=
  { self with commonData := { self.commonData with input := some { hash, data } } }

end L2Tx

def parseTransactionBytes (R : RlpReader) (C : Crypto) (overflowChecks : Bool) (bytes : Bytes)
    (chainId : L2ChainId) (maxTxSize : ℕ) : Result (L2Tx × H256) := do
  let (request, hash) ← TransactionRequest.fromBytes R C overflowChecks bytes chainId
  let tx ← L2Tx.fromRequest overflowChecks request maxTxSize
  pure (tx, hash)

end Web3
