/-
The transactions table.

Deposits become priority operations (`L1Tx`) and are stored as rows of the `transactions` table,
keyed by the canonical hash of the operation.  The column `signature` holds the id of the Bitcoin
transaction.

The hash is keccak over an encoding; it enters as a function `canonicalHash` into an arbitrary type,
and results that need it assume that it has no collisions among the operations at hand.
-/
import ViaCore.Inscription
import ViaCore.Tables

structure L2CanonicalTransaction where
  txType : ℕ
  fromAddress : ℕ
  toAddress : ℕ
  gasLimit : ℕ
  gasPerPubdataByteLimit : ℕ
  maxFeePerGas : ℕ
  maxPriorityFeePerGas : ℕ
  paymaster : ℕ
  nonce : ℕ
  value : ℕ
  reserved : ℕ × ℕ × ℕ × ℕ
  data : Bytes
  signature : Bytes
  factoryDeps : List ℕ
  paymasterInput : Bytes
  reservedDynamic : Bytes
  deriving DecidableEq

structure Execute where
  contractAddress : EVMAddress
  calldata : Bytes
  value : ℕ
  deriving DecidableEq

structure L1TxCommonData (Hash : Type) where
  sender : EVMAddress
  serialId : ℕ
  layer2TipFee : ℕ
  fullFee : ℕ
  maxFeePerGas : ℕ
  gasLimit : ℕ
  gasPerPubdataLimit : ℕ
  canonicalTxHash : Hash
  toMint : ℕ
  refundRecipient : EVMAddress
  ethBlock : ℕ
  deriving DecidableEq

structure L1Tx (Hash : Type) where
  execute : Execute
  commonData : L1TxCommonData Hash
  deriving DecidableEq

/-- A row of the table; the columns of deposits. -/
structure TransactionRow (Hash : Type) where
  hash : Hash
  isPriority : Bool
  initiatorAddress : EVMAddress
  gasLimit : ℕ
  maxFeePerGas : ℕ
  gasPerPubdataLimit : ℕ
  data : Execute
  priorityOpId : Option ℕ
  fullFee : ℕ
  layer2TipFee : ℕ
  contractAddress : EVMAddress
  l1BlockNumber : Option ℕ
  value : ℕ
  l1TxMint : ℕ
  l1TxRefundRecipient : EVMAddress
  signature : Bytes
  deriving DecidableEq

section Dal

variable {Hash : Type}

def L1Tx.toRow (tx : L1Tx Hash) (l1BlockNumber : ℕ) (txId : H256) : TransactionRow Hash :=
  { hash := tx.commonData.canonicalTxHash
    isPriority := true
    initiatorAddress := tx.commonData.sender
    gasLimit := tx.commonData.gasLimit
    maxFeePerGas := tx.commonData.maxFeePerGas
    gasPerPubdataLimit := tx.commonData.gasPerPubdataLimit
    data := tx.execute
    priorityOpId := some tx.commonData.serialId
    fullFee := tx.commonData.fullFee
    layer2TipFee := tx.commonData.layer2TipFee
    contractAddress := tx.execute.contractAddress
    l1BlockNumber := some l1BlockNumber
    value := tx.execute.value
    l1TxMint := tx.commonData.toMint
    l1TxRefundRecipient := tx.commonData.refundRecipient
    -- the signature column keeps the Bitcoin transaction id
    signature := txId.bytes }

def TransactionRow.toL1Tx (row : TransactionRow Hash) : Option (L1Tx Hash) :=
  row.priorityOpId.map fun serialId =>
    { execute := row.data
      commonData :=
        { sender := row.initiatorAddress
          serialId
          layer2TipFee := row.layer2TipFee
          fullFee := row.fullFee
          maxFeePerGas := row.maxFeePerGas
          gasLimit := row.gasLimit
          gasPerPubdataLimit := row.gasPerPubdataLimit
          canonicalTxHash := row.hash
          toMint := row.l1TxMint
          refundRecipient := row.l1TxRefundRecipient
          ethBlock := row.l1BlockNumber.getD 0 } }

def insertTransactionL1 [DecidableEq Hash] (table : List (TransactionRow Hash)) (tx : L1Tx Hash)
    (l1BlockNumber : ℕ) (txId : H256) : List (TransactionRow Hash) :=
  insertIfAbsent TransactionRow.hash table (tx.toRow l1BlockNumber txId)

def getLastProcessedL1Block (table : List (TransactionRow Hash)) : Option ℕ :=
  ((table.filter fun row => row.priorityOpId.isSome).argmax fun row =>
    row.priorityOpId.getD 0).bind TransactionRow.l1BlockNumber

def lastPriorityId (table : List (TransactionRow Hash)) : Option ℕ :=
  ((table.filter TransactionRow.isPriority).filterMap TransactionRow.priorityOpId).max?

def transactionExistsWithTxid (table : List (TransactionRow Hash)) (txId : H256) : Bool :=
  table.any fun row => row.signature = txId.bytes

end Dal
