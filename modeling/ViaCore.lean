import ViaCore.Outcome
import ViaCore.Runs
import ViaCore.Bytes
import ViaCore.Script
import ViaCore.Bitcoin
import ViaCore.Inscription
import ViaCore.Parser
import ViaCore.ScriptBuilder
import ViaCore.Bootstrap
import ViaCore.ParserTotality
import ViaCore.Indexer
import ViaCore.Tables
import ViaCore.TransactionsDal
import ViaCore.L1ToL2
import ViaCore.BtcWatch
import ViaCore.PriorityIds
import ViaCore.BlockCoverage
import ViaCore.DoubleSpend
import ViaCore.Query
import ViaCore.SenderDb
import ViaCore.Aggregator
import ViaCore.CommitOrder
import ViaCore.ProofOrder
import ViaCore.BroadcastRecord
import ViaCore.ProofMessage
import ViaCore.Resend
import ViaCore.DaDispatcher
import ViaCore.ProofBlob
import ViaCore.MempoolSync
import ViaCore.FiniteMap
import ViaCore.Mempool
import ViaCore.MempoolOrder
import ViaCore.Deduplicator
import ViaCore.SealCriteria
import ViaCore.EmptyBatch
import ViaCore.FullTree
import ViaCore.Nibbles
import ViaCore.MerkleNodes
import ViaCore.TreeDatabase
import ViaCore.TreeStorage
import ViaCore.TreeView
import ViaCore.TreeInsert
import ViaCore.TreeLoad
import ViaCore.TreeExtend
import ViaCore.DepositInclusion
import ViaCore.MerkleProofs
import ViaCore.NodeCache
import ViaCore.TreeProof
import ViaCore.TreeGetters
import ViaCore.RangeDigest
import ViaCore.StorageTables
import ViaCore.EnumerationIndices
import ViaCore.KeeperChain
import ViaCore.KeeperHashes
import ViaCore.BigEndian
import ViaCore.Rlp
import ViaCore.TransactionRequest
import ViaCore.TransactionTotality
import ViaCore.SignedMessage
import ViaCore.Abi
import ViaCore.TransactionData
import ViaCore.ContextSync
import ViaCore.FeeEstimates
import ViaCore.ResendFees
import ViaCore.Availability
import ViaCore.ProofPublishing
import ViaCore.VmRunner
import ViaCore.BatchExecutor
import ViaCore.NetChange
import ViaCore.PubdataPrice
import ViaCore.GasEstimate
import ViaCore.OperatorRefund
import ViaCore.EventSink
import ViaCore.RocksDb
import ViaCore.TreeSerialization
