/-
From deposit messages to priority operations.

`processMessages` turns the deposits among a list of messages into priority operations: it skips a
deposit whose transaction does not pay the bridge or is already in the table, numbers the others
from an in-memory counter, and then inserts them one by one.

* `processBlocks_conserves_iff` — for which transactions the operations mint what was paid to the
  bridge.
-/
import ViaCore.Indexer
import ViaCore.TransactionsDal

open FullInscriptionMessage (toL1ToL2Message)

/-! ### The processor -/

inductive MessageProcessorError where
  | internal
  | databaseError
  deriving DecidableEq

structure L1ToL2MessageProcessor (Address : Type) where
  bridgeAddress : Address
  nextExpectedPriorityId : ℕ
  deriving DecidableEq

def priorityOperationL2TxType : ℕ := 255

def addressToU256 (address : EVMAddress) : ℕ := address.bytes.foldl (fun n b => 256 * n + b.toNat) 0

section Processor

variable {Address Hash : Type} (canonicalHash : L2CanonicalTransaction → Hash)
  (B : RustBitcoin Address)

def l2CanonicalTransaction (msg : L1ToL2Message Address) (serialId : ℕ) : L2CanonicalTransaction :=
  { txType := priorityOperationL2TxType
    fromAddress := addressToU256 msg.input.receiverL2Address
    toAddress := addressToU256 msg.input.receiverL2Address
    gasLimit := 1000000
    gasPerPubdataByteLimit := 800
    maxFeePerGas := 100000000000 / 10000000000
    maxPriorityFeePerGas := 0
    paymaster := 0
    nonce := serialId
    value := 0
    reserved := (msg.amount, addressToU256 msg.input.receiverL2Address, 0, 0)
    data := msg.input.callData
    signature := []
    factoryDeps := []
    paymasterInput := []
    reservedDynamic := [] }

def createL1TxFromMessage (msg : L1ToL2Message Address) (serialId : ℕ) : L1Tx Hash :=
  { execute :=
      { contractAddress := msg.input.receiverL2Address
        calldata := msg.input.callData
        value := 0 }
    commonData :=
      { sender := msg.input.receiverL2Address
        serialId
        layer2TipFee := 0
        fullFee := 0
        -- Ether has 18 decimals and Bitcoin 8
        maxFeePerGas := 100000000000 / 10000000000
        gasLimit := 1000000
        gasPerPubdataLimit := 800
        canonicalTxHash := canonicalHash (l2CanonicalTransaction msg serialId)
        toMint := msg.amount
        refundRecipient := msg.input.receiverL2Address
        ethBlock := msg.common.blockHeight } }

/-- The id of a transaction as the database keeps it: the bytes of the hash in reverse. -/
def databaseTxId (txid : Txid) : H256 :=
  ⟨txid.bytes.reverse, by rw [List.length_reverse, txid.size]⟩

def anyPaysBridge (bridge : Address) (outputs : List TxOut) : Bool :=
  outputs.any fun output => output.scriptPubkey = B.scriptPubkey bridge

/-- The first loop: a deposit is looked up, numbered and kept. -/
def collectPriorityOps (table : List (TransactionRow Hash)) :
    L1ToL2MessageProcessor Address → Option DbFault → List (FullInscriptionMessage Address) →
      L1ToL2MessageProcessor Address
        × Outcome MessageProcessorError (List (L1Tx Hash × H256) × Option DbFault)
  | self, fault, [] => (self, .ok ([], fault))
  | self, fault, .l1ToL2Message msg :: rest =>
    if anyPaysBridge B self.bridgeAddress msg.txOutputs then
      match nextStatement fault with
      | (.failed _, _) => (self, .err .databaseError)
      | (.done, fault) =>
        let txId := databaseTxId msg.common.txId
        if transactionExistsWithTxid table txId then collectPriorityOps table self fault rest
        else
          let op := createL1TxFromMessage canonicalHash msg self.nextExpectedPriorityId
          let r := collectPriorityOps table
            { self with nextExpectedPriorityId := self.nextExpectedPriorityId + 1 } fault rest
          (r.1, r.2 >>= fun ops => .ok ((op, txId) :: ops.1, ops.2))
    else collectPriorityOps table self fault rest
  | self, fault, _ :: rest => collectPriorityOps table self fault rest

def insertPriorityOp [DecidableEq Hash] (table : List (TransactionRow Hash))
    (op : L1Tx Hash × H256) : List (TransactionRow Hash) :=
  insertTransactionL1 table op.1 op.1.commonData.ethBlock op.2

def L1ToL2MessageProcessor.processMessages [DecidableEq Hash]
    (self : L1ToL2MessageProcessor Address) (table : List (TransactionRow Hash))
    (fault : Option DbFault) (msgs : List (FullInscriptionMessage Address)) :
    L1ToL2MessageProcessor Address × List (TransactionRow Hash)
      × Outcome MessageProcessorError Unit :=
  match collectPriorityOps canonicalHash B table self fault msgs with
  | (self, .ok (ops, fault)) =>
    match executeAll insertPriorityOp table fault ops with
    | (table, true) => (self, table, .ok ())
    | (table, false) => (self, table, .err .databaseError)
  | (self, .err e) => (self, table, .err e)
  | (self, .panic) => (self, table, .panic)

end Processor

section Specs

variable {Address Hash : Type} {canonicalHash : L2CanonicalTransaction → Hash}
  {B : RustBitcoin Address} {table : List (TransactionRow Hash)}
  {self : L1ToL2MessageProcessor Address} {fault : Option DbFault}
  {msgs : List (FullInscriptionMessage Address)}

variable (B table) in
def newDeposits (bridge : Address) (msgs : List (FullInscriptionMessage Address)) :
    List (L1ToL2Message Address) :=
  (msgs.filterMap toL1ToL2Message).filter fun d =>
    anyPaysBridge B bridge d.txOutputs
      && !transactionExistsWithTxid table (databaseTxId d.common.txId)

variable (canonicalHash) in
def numberedOps (next : ℕ) (ds : List (L1ToL2Message Address)) : List (L1Tx Hash × H256) :=
  ds.mapIdx fun i d =>
    (createL1TxFromMessage canonicalHash d (next + i), databaseTxId d.common.txId)

theorem numberedOps_length (next : ℕ) (ds : List (L1ToL2Message Address)) :
    (numberedOps canonicalHash next ds).length = ds.length :=
  List.length_mapIdx

theorem numberedOps_cons (next : ℕ) (d : L1ToL2Message Address)
    (ds : List (L1ToL2Message Address)) :
    numberedOps canonicalHash next (d :: ds)
      = (createL1TxFromMessage canonicalHash d next, databaseTxId d.common.txId)
        :: numberedOps canonicalHash (next + 1) ds := by
  unfold numberedOps
  rw [List.mapIdx_cons, Nat.add_zero]
  congr 2
  funext i d'
  rw [show next + (i + 1) = next + 1 + i by omega]

/-- **The first loop** numbers the new deposits, or stops at the lookup that fails with the counter
already moved. -/
theorem collectPriorityOps_spec :
    (∃ fault', collectPriorityOps canonicalHash B table self fault msgs
        = ({ self with nextExpectedPriorityId :=
              self.nextExpectedPriorityId + (newDeposits B table self.bridgeAddress msgs).length },
            .ok (numberedOps canonicalHash self.nextExpectedPriorityId
              (newDeposits B table self.bridgeAddress msgs), fault'))
      ∧ (fault = none → fault' = none)) ∨
    (fault ≠ none ∧ ∃ i ≤ (newDeposits B table self.bridgeAddress msgs).length,
      collectPriorityOps canonicalHash B table self fault msgs
        = ({ self with nextExpectedPriorityId := self.nextExpectedPriorityId + i },
            .err .databaseError)) := by
  induction msgs generalizing self fault with
  | nil => exact .inl ⟨fault, rfl, fun h => h⟩
  | cons m rest ih =>
    cases m with
    | l1ToL2Message d =>
      unfold collectPriorityOps
      by_cases hpays : anyPaysBridge B self.bridgeAddress d.txOutputs = true
      · rw [if_pos hpays]
        rcases hnext : nextStatement fault with ⟨_ | applied, fault'⟩
        · have hnone : fault = none → fault' = none := by
            rintro rfl
            exact (congrArg Prod.snd hnext).symm
          simp only
          by_cases hexists : transactionExistsWithTxid table (databaseTxId d.common.txId) = true
          · -- already recorded
            have hnew : newDeposits B table self.bridgeAddress (.l1ToL2Message d :: rest)
                = newDeposits B table self.bridgeAddress rest := by
              simp [newDeposits, toL1ToL2Message, hexists]
            rw [if_pos hexists, hnew]
            rcases @ih self fault' with ⟨f, hr, hf⟩ | ⟨hf, i, hi, hr⟩
            · exact .inl ⟨f, hr, fun h => hf (hnone h)⟩
            · exact .inr ⟨fun h => hf (hnone h), i, hi, hr⟩
          · have hnew : newDeposits B table self.bridgeAddress (.l1ToL2Message d :: rest)
                = d :: newDeposits B table self.bridgeAddress rest := by
              simp [newDeposits, toL1ToL2Message, hexists, hpays]
            rw [if_neg hexists, hnew, numberedOps_cons, List.length_cons]
            -- the rest of the loop runs with the counter one further
            rcases @ih { self with nextExpectedPriorityId := self.nextExpectedPriorityId + 1 }
              fault'
              with ⟨f, hr, hf⟩ | ⟨hf, i, hi, hr⟩
            · refine .inl ⟨f, ?_, fun h => hf (hnone h)⟩
              rw [hr]
              simp only [Outcome.ok_bind]
              rw [Nat.add_right_comm, Nat.add_assoc]
            · refine .inr ⟨fun h => hf (hnone h), i + 1, Nat.succ_le_succ hi, ?_⟩
              rw [hr]
              simp only [Outcome.err_bind]
              rw [Nat.add_right_comm, Nat.add_assoc]
        · refine .inr ⟨?_, 0, Nat.zero_le _, rfl⟩
          rintro rfl
          cases hnext
      · have hnew : newDeposits B table self.bridgeAddress (.l1ToL2Message d :: rest)
            = newDeposits B table self.bridgeAddress rest := by
          simp [newDeposits, toL1ToL2Message, hpays]
        rw [if_neg hpays, hnew]
        exact ih
    | _ => exact ih

def priorityOpRow (op : L1Tx Hash × H256) : TransactionRow Hash :=
  op.1.toRow op.1.commonData.ethBlock op.2

def operationsOf (next : ℕ) (ds : List (L1ToL2Message Address)) : List L2CanonicalTransaction :=
  ds.mapIdx fun i d => l2CanonicalTransaction d (next + i)

variable (canonicalHash table) in
/-- The hash tells the operations from each other and from the rows of the table. -/
structure HashesDistinct (ops : List L2CanonicalTransaction) : Prop where
  injOn : Set.InjOn canonicalHash {c | c ∈ ops}
  fresh : ∀ row ∈ table, ∀ c ∈ ops, row.hash ≠ canonicalHash c

theorem numberedOps_serialIds (next : ℕ) (ds : List (L1ToL2Message Address)) :
    (numberedOps canonicalHash next ds).map (fun op => op.1.commonData.serialId)
      = List.range' next ds.length :=
  List.ext_getElem (by simp [numberedOps]) (by simp [numberedOps, createL1TxFromMessage])

theorem operationsOf_nonces (next : ℕ) (ds : List (L1ToL2Message Address)) :
    (operationsOf next ds).map L2CanonicalTransaction.nonce = List.range' next ds.length :=
  List.ext_getElem (by simp [operationsOf]) (by simp [operationsOf, l2CanonicalTransaction])

theorem nonce_of_mem_operationsOf {next : ℕ} {ds : List (L1ToL2Message Address)}
    {c : L2CanonicalTransaction} (h : c ∈ operationsOf next ds) :
    next ≤ c.nonce ∧ c.nonce < next + ds.length := by
  have hmem := List.mem_map_of_mem (f := L2CanonicalTransaction.nonce) h
  rw [operationsOf_nonces] at hmem
  exact List.mem_range'_1.1 hmem

theorem numberedOps_hashes (next : ℕ) (ds : List (L1ToL2Message Address)) :
    ((numberedOps canonicalHash next ds).map priorityOpRow).map TransactionRow.hash
      = (operationsOf next ds).map canonicalHash :=
  List.ext_getElem (by simp [numberedOps, operationsOf]) (by
    simp [numberedOps, operationsOf, priorityOpRow, L1Tx.toRow, createL1TxFromMessage])

theorem mem_numberedOps {next : ℕ} {ds : List (L1ToL2Message Address)} {op : L1Tx Hash × H256}
    (h : op ∈ numberedOps canonicalHash next ds) :
    ∃ d ∈ ds, ∃ n, op = (createL1TxFromMessage canonicalHash d n, databaseTxId d.common.txId) := by
  obtain ⟨i, hi, rfl⟩ := List.mem_mapIdx.1 h
  exact ⟨_, List.getElem_mem hi, _, rfl⟩

theorem numberedOps_take (next : ℕ) (ds : List (L1ToL2Message Address)) (j : ℕ) :
    (numberedOps canonicalHash next ds).take j = numberedOps canonicalHash next (ds.take j) := by
  induction ds generalizing next j with
  | nil => simp [numberedOps]
  | cons d rest ih =>
    cases j with
    | zero => simp [numberedOps]
    | succ j => rw [numberedOps_cons, List.take_succ_cons, List.take_succ_cons, numberedOps_cons,
      ih]

theorem operationsOf_take_subset (next : ℕ) (ds : List (L1ToL2Message Address)) (j : ℕ) :
    operationsOf next (ds.take j) ⊆ operationsOf next ds := by
  intro c hc
  obtain ⟨i, hi, rfl⟩ := List.mem_mapIdx.1 hc
  rw [List.length_take] at hi
  exact List.mem_mapIdx.2 ⟨i, by omega, by rw [List.getElem_take]⟩

variable [DecidableEq Hash]

/-- **A call** moves the counter over some of the new deposits and stores an initial part of them;
without a failing statement it is all of them. -/
theorem processMessages_spec :
    ∃ i j, j ≤ i ∧ i ≤ (newDeposits B table self.bridgeAddress msgs).length
      ∧ (self.processMessages canonicalHash B table fault msgs).1
          = { self with nextExpectedPriorityId := self.nextExpectedPriorityId + i }
      ∧ (self.processMessages canonicalHash B table fault msgs).2.1
          = ((numberedOps canonicalHash self.nextExpectedPriorityId
              (newDeposits B table self.bridgeAddress msgs)).take j).foldl insertPriorityOp table
      ∧ (((self.processMessages canonicalHash B table fault msgs).2.2 = .ok ()
            ∧ j = (newDeposits B table self.bridgeAddress msgs).length)
          ∨ (fault ≠ none
            ∧ (self.processMessages canonicalHash B table fault msgs).2.2 =
              .err .databaseError)) := by
  unfold L1ToL2MessageProcessor.processMessages
  rcases @collectPriorityOps_spec _ _ canonicalHash B table self fault msgs
    with ⟨fault', hcollect, hnone⟩ | ⟨hfault, i, hi, hcollect⟩
  -- everything is collected, and an initial part is stored
  · rw [hcollect]
    obtain ⟨j, hj, htable, hall⟩ := executeAll_take insertPriorityOp table fault'
      (numberedOps canonicalHash self.nextExpectedPriorityId
        (newDeposits B table self.bridgeAddress msgs))
    rw [numberedOps_length] at hj hall
    refine ⟨_, j, hj, le_rfl, ?_⟩
    simp only
    split
    · rename_i table' hexec
      rw [hexec] at htable hall
      exact ⟨rfl, htable, .inl ⟨rfl, hall rfl⟩⟩
    · rename_i table' hexec
      rw [hexec] at htable
      refine ⟨rfl, htable, .inr ⟨?_, rfl⟩⟩
      intro hfault
      rw [hnone hfault, executeAll_none] at hexec
      cases hexec
  -- a lookup fails before anything is stored
  · rw [hcollect]
    exact ⟨i, 0, Nat.zero_le _, hi, rfl, rfl, .inr ⟨hfault, rfl⟩⟩

theorem foldl_insertPriorityOp_eq (ops : List (L1Tx Hash × H256)) :
    ops.foldl insertPriorityOp table
      = (ops.map priorityOpRow).foldl (insertIfAbsent TransactionRow.hash) table := by
  rw [List.foldl_map]
  rfl

theorem foldl_insertPriorityOp {next : ℕ} {ds : List (L1ToL2Message Address)}
    (h : HashesDistinct canonicalHash table (operationsOf next ds)) :
    (numberedOps canonicalHash next ds).foldl insertPriorityOp table
      = table ++ (numberedOps canonicalHash next ds).map priorityOpRow := by
  rw [foldl_insertPriorityOp_eq, foldl_insertIfAbsent_of_fresh]
  · intro row hrow r hr
    have hhash := List.mem_map_of_mem (f := TransactionRow.hash) hrow
    rw [numberedOps_hashes] at hhash
    obtain ⟨c, hc, hrow⟩ := List.mem_map.1 hhash
    exact hrow ▸ h.fresh r hr c hc
  · -- the nonces differ, so the operations do, and with them their hashes
    rw [numberedOps_hashes]
    have hnonces : ((operationsOf next ds).map L2CanonicalTransaction.nonce).Nodup := by
      rw [operationsOf_nonces]
      exact List.nodup_range'
    exact (List.Nodup.of_map _ hnonces).map_on fun c hc c' hc' => h.injOn hc hc'

end Specs

section Conservation

variable {Address : Type} (B : RustBitcoin Address)

def carriesDeposit (input : TxIn) : Bool :=
  (revealedInscription B input).any fun r =>
    messageKind r.instructions = some .l1ToL2Message
      && (readL1ToL2Input r.instructions).toOption.isSome

def depositCount (network : Network) (tx : Transaction) : ℕ :=
  if (senderAddress B network tx).isSome then tx.input.countP (carriesDeposit B) else 0

def bridgePayments (bridge : Address) (tx : Transaction) : List ℕ :=
  (tx.output.filter fun output => output.scriptPubkey = B.scriptPubkey bridge).map TxOut.value

section Condition

variable {Hash : Type} (table : List (TransactionRow Hash))

def mintedFor (tx : Transaction) : ℕ :=
  ((table.filter fun row =>
    row.isPriority ∧ row.signature = (databaseTxId (B.computeNtxid tx)).bytes).map
      TransactionRow.l1TxMint).sum

/-- The deposits that are minted correctly: nothing of value goes to the bridge, or no row carries
the id, and the payments after the first are as often the first as there are deposits beyond one. -/
def DepositsBalanced (network : Network) (bridge : Address) (tx : Transaction) : Prop :=
  (bridgePayments B bridge tx).sum = 0 ∨
    (transactionExistsWithTxid table (databaseTxId (B.computeNtxid tx)) = false
      ∧ B.isP2wpkh (B.scriptPubkey bridge) = true ∧ 1 ≤ depositCount B network tx
      ∧ (bridgePayments B bridge tx).tail.sum
        = (depositCount B network tx - 1) * (bridgePayments B bridge tx).headD 0)

instance (network : Network) (bridge : Address) (tx : Transaction) :
    Decidable (DepositsBalanced B table network bridge tx) :=
  inferInstanceAs (Decidable (_ ∨ _))

end Condition

variable {B}

theorem depositAmount_eq (bridge : Address) (tx : Transaction) :
    depositAmount B (some bridge) tx.output
      = if B.isP2wpkh (B.scriptPubkey bridge) then (bridgePayments B bridge tx).headD 0 else 0 := by
  unfold depositAmount bridgePayments
  split
  · rename_i hkind
    have hpays : paysBridge B (some bridge)
        = fun output => decide (output.scriptPubkey = B.scriptPubkey bridge) := by
      funext output
      by_cases h : output.scriptPubkey = B.scriptPubkey bridge
      · simp [paysBridge, h, hkind]
      · simp [paysBridge, h]
    rw [hpays, ← List.head?_filter]
    cases tx.output.filter fun output => output.scriptPubkey = B.scriptPubkey bridge with
    | nil => rfl
    | cons o rest => rfl
  · rename_i hkind
    have hnone : tx.output.find? (paysBridge B (some bridge)) = none := by
      refine List.find?_eq_none.2 fun output _ h => ?_
      simp only [paysBridge, Bool.and_eq_true, decide_eq_true_eq] at h
      exact hkind (h.2 ▸ h.1)
    rw [hnone]
    rfl

/-- Minting the first payment once for each deposit, or nothing where a row carries the id, is right
in the balanced cases only. -/
theorem balanced_iff {Hash : Type} (table : List (TransactionRow Hash)) (network : Network)
    (bridge : Address) (tx : Transaction) :
    (if transactionExistsWithTxid table (databaseTxId (B.computeNtxid tx)) then 0
      else depositCount B network tx * depositAmount B (some bridge) tx.output)
        = (bridgePayments B bridge tx).sum
      ↔ DepositsBalanced B table network bridge tx := by
  rw [depositAmount_eq]
  unfold DepositsBalanced
  by_cases hexists : transactionExistsWithTxid table (databaseTxId (B.computeNtxid tx)) = true
  · simp only [hexists, if_true, Bool.true_eq_false, false_and, or_false]
    exact eq_comm
  rw [if_neg hexists]
  simp only [Bool.not_eq_true] at hexists
  simp only [hexists, true_and]
  -- from here on this is about `k * first = first + rest.sum`
  generalize bridgePayments B bridge tx = payments
  generalize depositCount B network tx = k
  by_cases hkind : B.isP2wpkh (B.scriptPubkey bridge) = true
  · rw [if_pos hkind]
    cases payments with
    | nil => simp
    | cons first rest =>
      simp only [List.headD_cons, List.sum_cons, List.tail_cons, hkind, true_and]
      cases k with
      | zero =>
        constructor
        · intro h
          omega
        · rintro (h | ⟨h, -⟩)
          · omega
          · omega
      | succ m =>
        rw [Nat.succ_mul, Nat.add_sub_cancel]
        constructor
        · intro h
          exact .inr ⟨by omega, by omega⟩
        · rintro (h | ⟨-, h⟩)
          · have hfirst : first = 0 := by omega
            rw [hfirst, Nat.mul_zero]
            omega
          · omega
  · rw [if_neg hkind]
    simp [hkind, eq_comm]

section Deposits

variable {self : MessageParser Address} {tx : Transaction} {blockHeight : ℕ} {address : Address}
  {input : TxIn}

theorem carriesDeposit_iff :
    carriesDeposit B input = true
      ↔ ∃ d, (parseInput B self tx blockHeight address input).2 = .ok (.l1ToL2Message d) := by
  constructor
  · intro h
    unfold carriesDeposit at h
    cases hr : revealedInscription B input with
    | none =>
      rw [hr] at h
      cases h
    | some r =>
      simp only [hr, Option.any_some, Bool.and_eq_true, decide_eq_true_eq] at h
      obtain ⟨hkind, hread⟩ := h
      obtain ⟨fields, hfields⟩ := Option.isSome_iff_exists.1 hread
      rw [Outcome.toOption_eq_some] at hfields
      simp [parseInput, hr, parseMessage, hkind, parseL1ToL2Message, hfields]
  · rintro ⟨d, hd⟩
    obtain ⟨r, hr, hparse, hkind, -⟩ := parseInput_ok hd
    unfold parseMessage at hparse
    rw [hkind] at hparse
    obtain ⟨fields, hfields, -⟩ := Outcome.bind_eq_ok.1 hparse
    simp [carriesDeposit, hr, hkind, hfields, FullInscriptionMessage.toInput,
      InscriptionMessage.kind]

theorem readInput_deposits {ε : Type} :
    (((readInput (ε := ε) B tx blockHeight address self input).2.toOption.getD []).filterMap
      toL1ToL2Message).length = if carriesDeposit B input then 1 else 0 := by
  have hiff := @carriesDeposit_iff _ B self tx blockHeight address input
  have hother (h : ∀ d, (parseInput B self tx blockHeight address input).2
      ≠ .ok (.l1ToL2Message d)) : (if carriesDeposit B input then 1 else 0) = 0 :=
    if_neg fun hcarries => (hiff.1 hcarries).elim h
  unfold readInput
  split
  · rename_i self' m hp
    rw [hp] at hiff hother
    cases m with
    | l1ToL2Message d =>
      rw [if_pos (hiff.2 ⟨d, rfl⟩)]
      rfl
    | _ => exact (hother (by rintro d ⟨⟩)).symm
  · rename_i self' e hp
    exact (hother (by rw [hp]; rintro d ⟨⟩)).symm
  · rename_i self' hp
    exact (hother (by rw [hp]; rintro d ⟨⟩)).symm

def depositsOf (B : RustBitcoin Address) (self : MessageParser Address) (t : ℕ × Transaction) :
    List (L1ToL2Message Address) :=
  (messagesOf B self t).filterMap toL1ToL2Message

theorem exists_parsed_of_mem_messagesOf {t : ℕ × Transaction} {m : FullInscriptionMessage Address}
    (hm : m ∈ messagesOf B self t) :
    ∃ ms, (parseTransaction (ε := IndexerError) B self t.2 t.1).2 = .ok ms ∧ m ∈ ms := by
  unfold messagesOf at hm
  cases hparse : (parseTransaction (ε := IndexerError) B self t.2 t.1).2 with
  | ok ms => exact ⟨ms, rfl, by simpa [hparse] using hm⟩
  | err e | panic => simp [hparse] at hm

theorem depositsOf_length
    (hstable : ∀ a ∈ storedBridges B self.network tx, self.store (some a) = self)
    (hret : ∃ ms, (parseTransaction (ε := IndexerError) B self tx blockHeight).2 = .ok ms) :
    (depositsOf B self (blockHeight, tx)).length = depositCount B self.network tx := by
  obtain ⟨ms, hms⟩ := hret
  have hmessages : messagesOf B self (blockHeight, tx) = ms := by
    rw [messagesOf, hms]
    rfl
  rw [depositsOf, hmessages, depositCount]
  unfold parseTransaction at hms
  cases hsender : senderAddress B self.network tx with
  | none =>
    rw [hsender] at hms
    cases hms
    rfl
  | some address =>
    rw [hsender] at hms
    -- the parser stays as it is, so the inputs can be counted one by one
    have hleaves : ∀ input ∈ tx.input,
        (readInput (ε := IndexerError) B tx blockHeight address self input).1 = self := by
      intro input hinput
      rw [readInput_fst]
      cases hwrite : bridgeWrite B self.network input with
      | none => rfl
      | some a =>
        refine hstable a ?_
        rw [storedBridges, hsender]
        exact List.mem_filterMap.2 ⟨input, hinput, hwrite⟩
    obtain ⟨-, hflat, -⟩ := collect_of_stable hleaves hms
    rw [hflat]
    simp only [Option.isSome_some, if_true]
    generalize tx.input = inputs
    induction inputs with
    | nil => rfl
    | cons input rest ih =>
      rw [List.flatMap_cons, List.filterMap_append, List.length_append, ih, readInput_deposits,
        List.countP_cons, Nat.add_comm]

theorem depositsOf_mem {bridge : Address} (hbridge : self.bridgeAddress = some bridge)
    (hstable : ∀ a ∈ storedBridges B self.network tx, self.store (some a) = self)
    {d : L1ToL2Message Address} (hd : d ∈ depositsOf B self (blockHeight, tx)) :
    d.amount = depositAmount B (some bridge) tx.output ∧ d.txOutputs = tx.output
      ∧ d.common.txId = B.computeNtxid tx := by
  obtain ⟨m, hm, hmd⟩ := List.mem_filterMap.1 hd
  obtain ⟨ms, hms, hmem⟩ := exists_parsed_of_mem_messagesOf hm
  have hkeep : ∀ p : MessageParser Address, p = self →
      ∀ a ∈ storedBridges B self.network tx, p.store (some a) = self := by
    rintro p rfl a ha
    exact hstable a ha
  obtain ⟨-, -, hread⟩ := parseTransaction_invariant (ε := IndexerError) hkeep rfl
  obtain ⟨p, rfl, input, -, address, hok⟩ := hread ms hms m hmem
  cases m with
  | l1ToL2Message d' =>
    obtain rfl : d' = d := Option.some.inj hmd
    obtain ⟨hamount, houtputs⟩ := parseInput_amount hok
    obtain ⟨-, -, -, -, -, htxid, -⟩ := parseInput_ok hok
    exact ⟨by rw [hamount, hbridge], houtputs, htxid⟩
  | _ => cases hmd

end Deposits

section Minting

variable {Hash : Type} {canonicalHash : L2CanonicalTransaction → Hash}
  {table : List (TransactionRow Hash)} {tx : Transaction}

theorem databaseTxId_bytes_inj {a b : Txid} :
    (databaseTxId a).bytes = (databaseTxId b).bytes ↔ a = b :=
  ⟨fun h => FixedBytes.eq_of_bytes (List.reverse_injective h), fun h => by rw [h]⟩

theorem mintedFor_numberedOps (next : ℕ) (ds : List (L1ToL2Message Address)) :
    mintedFor B ((numberedOps canonicalHash next ds).map priorityOpRow) tx
      = ((ds.filter fun d => d.common.txId = B.computeNtxid tx).map L1ToL2Message.amount).sum := by
  induction ds generalizing next with
  | nil => rfl
  | cons d rest ih =>
    have hrest := ih (next + 1)
    unfold mintedFor at hrest ⊢
    rw [numberedOps_cons, List.map_cons]
    by_cases htx : d.common.txId = B.computeNtxid tx
    · rw [List.filter_cons_of_pos (by
          simpa [priorityOpRow, L1Tx.toRow, databaseTxId_bytes_inj] using htx),
        List.filter_cons_of_pos (by simpa using htx), List.map_cons, List.map_cons, List.sum_cons,
        List.sum_cons, hrest]
      rfl
    · rw [List.filter_cons_of_neg (by
          simpa [priorityOpRow, L1Tx.toRow, databaseTxId_bytes_inj] using htx),
        List.filter_cons_of_neg (by simpa using htx), hrest]

theorem deposits_of_others (self : MessageParser Address) {ts : List (ℕ × Transaction)}
    (h : ∀ t ∈ ts, B.computeNtxid t.2 ≠ B.computeNtxid tx) :
    (((ts.flatMap (messagesOf B self)).filterMap toL1ToL2Message).filter
      fun d => d.common.txId = B.computeNtxid tx) = [] := by
  refine List.filter_eq_nil_iff.2 fun d hd hid => ?_
  obtain ⟨m, hm, hmd⟩ := List.mem_filterMap.1 hd
  obtain ⟨t, ht, hm⟩ := List.mem_flatMap.1 hm
  obtain ⟨ms, hms, hmem⟩ := exists_parsed_of_mem_messagesOf hm
  refine h t ht ?_
  rw [← (parseTransaction_common hms hmem).2, ← FullInscriptionMessage.common_toL1ToL2Message hmd]
  exact of_decide_eq_true hid

variable {bridge : Address}

theorem newDeposits_filter {msgs : List (FullInscriptionMessage Address)} :
    (newDeposits B table bridge msgs).filter (fun d => d.common.txId = B.computeNtxid tx)
      = if transactionExistsWithTxid table (databaseTxId (B.computeNtxid tx)) then []
        else ((msgs.filterMap toL1ToL2Message).filter
          fun d => d.common.txId = B.computeNtxid tx).filter
            fun d => anyPaysBridge B bridge d.txOutputs := by
  unfold newDeposits
  rw [List.filter_filter]
  split <;> rename_i hexists
  · refine List.filter_eq_nil_iff.2 fun d _ => ?_
    by_cases hid : d.common.txId = B.computeNtxid tx <;> simp [hid, hexists]
  · rw [List.filter_filter]
    refine List.filter_congr fun d _ => ?_
    by_cases hid : d.common.txId = B.computeNtxid tx <;> simp [hid, hexists]

theorem sum_depositsOf {self : MessageParser Address} {blockHeight : ℕ}
    (hbridge : self.bridgeAddress = some bridge)
    (hstable : ∀ a ∈ storedBridges B self.network tx, self.store (some a) = self)
    (hret : ∃ ms, (parseTransaction (ε := IndexerError) B self tx blockHeight).2 = .ok ms) :
    (((depositsOf B self (blockHeight, tx)).filter fun d => anyPaysBridge B bridge d.txOutputs).map
        L1ToL2Message.amount).sum
      = depositCount B self.network tx * depositAmount B (some bridge) tx.output := by
  by_cases hpays : anyPaysBridge B bridge tx.output = true
  · have hall : (depositsOf B self (blockHeight, tx)).filter
        (fun d => anyPaysBridge B bridge d.txOutputs) = depositsOf B self (blockHeight, tx) := by
      refine List.filter_eq_self.2 fun d hd => ?_
      rw [(depositsOf_mem hbridge hstable hd).2.1]
      exact hpays
    have hamounts : ∀ x ∈ (depositsOf B self (blockHeight, tx)).map L1ToL2Message.amount,
        x = depositAmount B (some bridge) tx.output := by
      intro x hx
      obtain ⟨d, hd, rfl⟩ := List.mem_map.1 hx
      exact (depositsOf_mem hbridge hstable hd).1
    rw [hall, List.sum_eq_card_nsmul _ _ hamounts, List.length_map, depositsOf_length hstable hret,
      smul_eq_mul]
  -- a transaction that does not pay the bridge is skipped
  · have hnone : (depositsOf B self (blockHeight, tx)).filter
        (fun d => anyPaysBridge B bridge d.txOutputs) = [] := by
      refine List.filter_eq_nil_iff.2 fun d hd => ?_
      rw [(depositsOf_mem hbridge hstable hd).2.1]
      exact hpays
    have hpayments : bridgePayments B bridge tx = [] := by
      simp only [anyPaysBridge, List.any_eq_true, not_exists, not_and, decide_eq_true_eq] at hpays
      simpa [bridgePayments] using hpays
    rw [hnone, depositAmount_eq, hpayments]
    simp

variable [DecidableEq Hash] {indexer : BitcoinInscriptionIndexer Address}
  {processor : L1ToL2MessageProcessor Address} {fetchBlock : ℕ → Option (List Transaction)}
  {startingBlock endingBlock height : ℕ} {pre post : List (ℕ × Transaction)}
  {msgs : List (FullInscriptionMessage Address)}

theorem mintedFor_processMessages
    (hnew : ∀ row ∈ table, row.isPriority = true →
      row.signature ≠ (databaseTxId (B.computeNtxid tx)).bytes)
    (hhashes : HashesDistinct canonicalHash table (operationsOf processor.nextExpectedPriorityId
      (newDeposits B table processor.bridgeAddress msgs))) :
    mintedFor B (processor.processMessages canonicalHash B table none msgs).2.1 tx
      = (((newDeposits B table processor.bridgeAddress msgs).filter
          fun d => d.common.txId = B.computeNtxid tx).map L1ToL2Message.amount).sum := by
  obtain ⟨i, j, -, -, -, htable, hout⟩ :=
    @processMessages_spec _ _ canonicalHash B table processor none msgs _
  have hj : j = (newDeposits B table processor.bridgeAddress msgs).length := by
    rcases hout with ⟨-, hj⟩ | ⟨hfault, -⟩
    · exact hj
    · exact absurd rfl hfault
  rw [htable, hj, List.take_of_length_le (numberedOps_length ..).le, foldl_insertPriorityOp hhashes,
    mintedFor, List.filter_append,
    List.filter_eq_nil_iff.2 (by simpa using hnew), List.nil_append]
  exact mintedFor_numberedOps _ _

/-- **Deposit conservation.**  When a range of blocks is read with the parser on the bridge, the
operations of a new transaction mint what it pays to the bridge exactly when it is balanced. -/
theorem processBlocks_conserves_iff
    (hbridge : indexer.parser.bridgeAddress = some processor.bridgeAddress)
    (htxs : blockTransactions fetchBlock startingBlock endingBlock = pre ++ (height, tx) :: post)
    (hothers : ∀ t ∈ pre ++ post, B.computeNtxid t.2 ≠ B.computeNtxid tx)
    (hstored : ∀ t ∈ pre ++ (height, tx) :: post,
      ∀ a ∈ storedBridges B indexer.parser.network t.2, a = processor.bridgeAddress)
    (hmsgs : (indexer.processBlocks B fetchBlock startingBlock endingBlock).2 = .ok msgs)
    (hnew : ∀ row ∈ table, row.isPriority = true →
      row.signature ≠ (databaseTxId (B.computeNtxid tx)).bytes)
    (hhashes : HashesDistinct canonicalHash table (operationsOf processor.nextExpectedPriorityId
      (newDeposits B table processor.bridgeAddress msgs))) :
    mintedFor B (processor.processMessages canonicalHash B table none msgs).2.1 tx
        = (bridgePayments B processor.bridgeAddress tx).sum
      ↔ DepositsBalanced B table indexer.parser.network processor.bridgeAddress tx := by
  have hstable : ∀ t ∈ pre ++ (height, tx) :: post,
      ∀ a ∈ storedBridges B indexer.parser.network t.2,
        indexer.parser.store (some a) = indexer.parser := by
    intro t ht a ha
    rw [hstored t ht a ha, MessageParser.store, ← hbridge]
    simp
  have htx : (height, tx) ∈ pre ++ (height, tx) :: post :=
    List.mem_append_right _ List.mem_cons_self
  -- the messages are those of the transactions, each on its own
  obtain ⟨hflat, hret⟩ := BitcoinInscriptionIndexer.processBlocks_of_stable
    (by rw [htxs]; exact hstable) hmsgs
  rw [htxs] at hflat hret
  -- the deposits with this id are those of the transaction
  have hdeposits : ((msgs.filterMap toL1ToL2Message).filter
      fun d => d.common.txId = B.computeNtxid tx) = depositsOf B indexer.parser (height, tx) := by
    have hpre := deposits_of_others indexer.parser
      fun t ht => hothers t (List.mem_append_left _ ht)
    have hpost := deposits_of_others indexer.parser
      fun t ht => hothers t (List.mem_append_right _ ht)
    have hown : (depositsOf B indexer.parser (height, tx)).filter
        (fun d => d.common.txId = B.computeNtxid tx)
          = depositsOf B indexer.parser (height, tx) := by
      refine List.filter_eq_self.2 fun d hd => ?_
      simpa using (depositsOf_mem hbridge (hstable _ htx) hd).2.2
    rw [hflat, List.flatMap_append, List.flatMap_cons, List.filterMap_append, List.filterMap_append,
      List.filter_append, List.filter_append, hpre, hpost, List.nil_append, List.append_nil]
    exact hown
  have hminted : (((newDeposits B table processor.bridgeAddress msgs).filter
        fun d => d.common.txId = B.computeNtxid tx).map L1ToL2Message.amount).sum
      = if transactionExistsWithTxid table (databaseTxId (B.computeNtxid tx)) then 0
        else depositCount B indexer.parser.network tx
          * depositAmount B (some processor.bridgeAddress) tx.output := by
    rw [newDeposits_filter, hdeposits, ← sum_depositsOf hbridge (hstable _ htx) (hret _ htx)]
    split <;> rfl
  rw [mintedFor_processMessages hnew hhashes, hminted]
  exact balanced_iff table _ _ _

end Minting

/-- A transaction like `sampleDeposit`, with two deposit inscriptions and one payment. -/
def sampleDoubleDeposit : Txid × Transaction :=
  (.ofNat 32 0x113ada944223817481e30e433e52a6b11d8eb17643e4a8f3a40caae786a1e232,
    SampleAddress.key1.inscribe (.replicate 32 9)
      [.l1ToL2Message
        { receiverL2Address := .replicate 20 0x11
          l2ContractAddress := .replicate 20 0x22
          callData := [] },
        .l1ToL2Message
        { receiverL2Address := .replicate 20 0x33
          l2ContractAddress := .replicate 20 0x22
          callData := [] }]
      [{ value := 50000, scriptPubkey := SampleAddress.key3.script }])

def depositBitcoin : RustBitcoin SampleAddress := tableBitcoin [sampleDeposit, sampleDoubleDeposit]

def blockTen (tx : Transaction) (height : ℕ) : Option (List Transaction) :=
  if height = 10 then some [tx] else none

def sampleProcessor : L1ToL2MessageProcessor SampleAddress :=
  { bridgeAddress := .key3, nextExpectedPriorityId := 0 }

/-- The single deposit meets the premises; operations stand for their own hashes here. -/
theorem processBlocks_conserves_single :
    ∃ msgs, (sampleIndexer.processBlocks depositBitcoin (blockTen sampleDeposit.2) 10 10).2
        = .ok msgs
      ∧ (mintedFor depositBitcoin
            (sampleProcessor.processMessages id depositBitcoin [] none msgs).2.1 sampleDeposit.2
          = (bridgePayments depositBitcoin sampleProcessor.bridgeAddress sampleDeposit.2).sum
        ↔ DepositsBalanced depositBitcoin ([] : List (TransactionRow L2CanonicalTransaction))
            sampleIndexer.parser.network sampleProcessor.bridgeAddress sampleDeposit.2) := by
  have hreturns : ((sampleIndexer.processBlocks depositBitcoin (blockTen sampleDeposit.2) 10
      10).2.toOption).isSome = true := by
    decide +kernel
  obtain ⟨msgs, hmsgs⟩ := Option.isSome_iff_exists.1 hreturns
  rw [Outcome.toOption_eq_some] at hmsgs
  have hbridge : sampleIndexer.parser.bridgeAddress = some sampleProcessor.bridgeAddress := rfl
  have htxs : blockTransactions (blockTen sampleDeposit.2) 10 10
      = [] ++ (10, sampleDeposit.2) :: [] := by
    decide +kernel
  have hstored : ∀ t ∈ [] ++ ((10 : ℕ), sampleDeposit.2) :: [],
      ∀ a ∈ storedBridges depositBitcoin sampleIndexer.parser.network t.2,
        a = sampleProcessor.bridgeAddress := by
    decide +kernel
  have hothers : ∀ t ∈ ([] ++ [] : List (ℕ × Transaction)),
      depositBitcoin.computeNtxid t.2 ≠ depositBitcoin.computeNtxid sampleDeposit.2 :=
    nofun
  exact ⟨msgs, hmsgs, processBlocks_conserves_iff hbridge htxs hothers hstored hmsgs nofun
    ⟨Set.injOn_id _, nofun⟩⟩

/-- **A payment can be minted twice.**  Two inscriptions in one transaction that is not recorded yet
mint 100000 for a payment of 50000. -/
theorem processBlocks_mints_twice :
    ∃ msgs, (sampleIndexer.processBlocks depositBitcoin (blockTen sampleDoubleDeposit.2) 10 10).2
        = .ok msgs
      ∧ mintedFor depositBitcoin
          (sampleProcessor.processMessages id depositBitcoin [] none msgs).2.1 sampleDoubleDeposit.2
          = 100000
      ∧ (bridgePayments depositBitcoin sampleIndexer.bridgeAddress sampleDoubleDeposit.2).sum
          = 50000 := by
  have hcomputed : ((sampleIndexer.processBlocks depositBitcoin (blockTen sampleDoubleDeposit.2) 10
      10).2.toOption.map fun msgs => mintedFor depositBitcoin
        (sampleProcessor.processMessages id depositBitcoin [] none msgs).2.1 sampleDoubleDeposit.2)
      = some 100000 := by
    decide +kernel
  obtain ⟨msgs, hmsgs, hminted⟩ := Option.map_eq_some_iff.1 hcomputed
  rw [Outcome.toOption_eq_some] at hmsgs
  exact ⟨msgs, hmsgs, hminted, by decide +kernel⟩

end Conservation
