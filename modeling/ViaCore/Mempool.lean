/-
The mempool.

Transactions wait in three structures: priority operations by their ids, transactions of the second
layer by account and nonce, and a queue with a pointer for each account whose next transaction is
there.  Taking a transaction removes the accounts in front of it that do not pay enough (they are
stashed), and when the store is full, accounts without a pointer are purged.

A transaction that was taken can be rolled back.  The code then looks for the account of the
transaction and takes its state for the one right after the transaction was taken.  In between, the
account may have been purged, and may have been made again with another nonce.

* `mempool_represents` — they agree as long as a rollback finds the account as it was.
-/
import ViaCore.FiniteMap
import ViaCore.OrderedSet
import ViaCore.Runs
import ViaCore.TransactionsDal

namespace Mempool

structure Fee where
  gasLimit : ℕ
  maxFeePerGas : ℕ
  maxPriorityFeePerGas : ℕ
  gasPerPubdataLimit : ℕ
  deriving DecidableEq

structure L2Tx (Account : Type) where
  initiatorAccount : Account
  nonce : UInt32
  receivedTimestampMs : ℕ
  fee : Fee
  deriving DecidableEq

inductive Transaction (Hash Account : Type) where
  | l1 (tx : L1Tx Hash)
  | l2 (tx : L2Tx Account)
  | protocolUpgrade
  deriving DecidableEq

structure L2TxFilter where
  feePerGas : ℕ
  gasPerPubdata : ℕ

/-- A pointer to the next transaction of an account. -/
structure MempoolScore (Account : Type) where
  account : Account
  receivedAtMs : ℕ
  feeData : Fee
  deriving DecidableEq

/-- The texts of `expect`, and of the panic for protocol upgrades. -/
inductive MempoolPanic where
  | danglingPointer
  | missingTransaction
  | negativeSize
  | accountNotAvailable
  | protocolUpgrade
  deriving DecidableEq

abbrev Map (κ V : Type) := AList fun _ : κ => V

structure AccountTransactions (Account : Type) where
  transactions : Map UInt32 (L2Tx Account)
  nonce : UInt32

structure InsertionMetadata (Account : Type) where
  newScore : Option (MempoolScore Account)
  previousScore : Option (MempoolScore Account)
  isNew : Bool

section Model

variable {Hash Account : Type}

def MempoolScore.matchesFilter (score : MempoolScore Account) (filter : L2TxFilter) : Bool :=
  filter.feePerGas ≤ score.feeData.maxFeePerGas
    && filter.gasPerPubdata ≤ score.feeData.gasPerPubdataLimit

def scoreForTransaction (transaction : L2Tx Account) : MempoolScore Account :=
  { account := transaction.initiatorAccount
    receivedAtMs := transaction.receivedTimestampMs
    feeData := transaction.fee }

namespace AccountTransactions

def new (nonce : UInt32) : AccountTransactions Account := ⟨∅, nonce⟩

def insert (self : AccountTransactions Account) (transaction : L2Tx Account) :
    AccountTransactions Account × InsertionMetadata Account :=
  let nonce := transaction.nonce
  -- old transactions are skipped
  if nonce < self.nonce then (self, ⟨none, none, false⟩)
  else
    let previousScore := (self.transactions.lookup nonce).map scoreForTransaction
    ({ self with transactions := self.transactions.insert nonce transaction },
      if nonce = self.nonce then
        ⟨some (scoreForTransaction transaction), previousScore, previousScore.isNone⟩
      else ⟨none, none, previousScore.isNone⟩)

/-- `none` is the panic when there is no transaction at the nonce. -/
def next (self : AccountTransactions Account) :
    Option (L2Tx Account × Option (MempoolScore Account) × AccountTransactions Account) :=
  (self.transactions.lookup self.nonce).map fun transaction =>
    let transactions := self.transactions.erase self.nonce
    -- the nonce wraps around
    let nonce := self.nonce + 1
    (transaction, (transactions.lookup nonce).map scoreForTransaction, { transactions, nonce })

def reset (self : AccountTransactions Account) (transaction : L2Tx Account) :
    AccountTransactions Account × Option (MempoolScore Account) :=
  ({ self with
      nonce := if transaction.nonce ≤ self.nonce then transaction.nonce else self.nonce },
    (self.transactions.lookup (transaction.nonce + 1)).map scoreForTransaction)

def len (self : AccountTransactions Account) : ℕ := self.transactions.entries.length

end AccountTransactions

variable [LinearOrder Account]

/-- The order of pointers: older ones are greater, and then the account decides. -/
def MempoolScore.key (score : MempoolScore Account) : ℕᵒᵈ ×ₗ Account :=
  toLex (OrderDual.toDual score.receivedAtMs, score.account)

/-! ### The store -/

structure MempoolInfo (Account : Type) where
  stashedAccounts : List Account
  purgedAccounts : List Account

structure MempoolStore (Hash Account : Type) where
  l1Transactions : Map ℕ (L1Tx Hash)
  l2TransactionsPerAccount : Map Account (AccountTransactions Account)
  l2PriorityQueue : List (MempoolScore Account)
  nextPriorityId : ℕ
  stashedAccounts : List Account
  size : ℕ
  capacity : ℕ

namespace MempoolStore

variable (self : MempoolStore Hash Account)

def new (nextPriorityId capacity : ℕ) : MempoolStore Hash Account :=
  ⟨∅, ∅, [], nextPriorityId, [], 0, capacity⟩

def insertL2Transaction (transaction : L2Tx Account) (initialNonces : Account → Option UInt32) :
    MempoolStore Hash Account :=
  let account := transaction.initiatorAccount
  let txs := (self.l2TransactionsPerAccount.lookup account).getD
    (.new ((initialNonces account).getD 0))
  let (txs, metadata) := txs.insert transaction
  let queue :=
    OrderedSet.removeOption MempoolScore.key metadata.previousScore self.l2PriorityQueue
  let queue := OrderedSet.insertOption MempoolScore.key metadata.newScore queue
  { self with
    l2TransactionsPerAccount := self.l2TransactionsPerAccount.insert account txs
    l2PriorityQueue := queue
    size := if metadata.isNew then self.size + 1 else self.size }

def insert (initialNonces : Account → Option UInt32) :
    MempoolStore Hash Account → List (Transaction Hash Account) →
      Except MempoolPanic (MempoolStore Hash Account)
  | self, [] => .ok self
  | self, .l1 tx :: rest =>
    insert initialNonces
      { self with l1Transactions := self.l1Transactions.insert tx.commonData.serialId tx } rest
  | self, .l2 tx :: rest => insert initialNonces (self.insertL2Transaction tx initialNonces) rest
  | _, .protocolUpgrade :: _ => .error .protocolUpgrade

def bestPointer (filter : L2TxFilter) : Option (MempoolScore Account) :=
  OrderedSet.rfind (fun score => score.matchesFilter filter) self.l2PriorityQueue

def hasNext (filter : L2TxFilter) : Bool :=
  (self.l1Transactions.lookup self.nextPriorityId).isSome || (self.bestPointer filter).isSome

def stash : List (MempoolScore Account) → MempoolStore Hash Account → ℕ →
    Except MempoolPanic (MempoolStore Hash Account × ℕ)
  | [], self, removed => .ok (self, removed)
  | pointer :: rest, self, removed =>
    match self.l2TransactionsPerAccount.lookup pointer.account with
    | none => .error .danglingPointer
    | some txs =>
      stash rest
        { self with
          l2TransactionsPerAccount := self.l2TransactionsPerAccount.erase pointer.account
          stashedAccounts := self.stashedAccounts ++ [pointer.account] }
        (removed + txs.len)

/-- The part of `next_transaction` after the pointers in front are stashed. -/
def takeFrom (pointer : MempoolScore Account) (removed : ℕ) :
    Except MempoolPanic (Option (Transaction Hash Account) × MempoolStore Hash Account) :=
  match self.l2TransactionsPerAccount.lookup pointer.account with
  | none => .error .danglingPointer
  | some txs =>
    match txs.next with
    | none => .error .missingTransaction
    | some (transaction, score, txs) =>
      if removed + 1 ≤ self.size then
        .ok (some (.l2 transaction),
          { self with
            l2TransactionsPerAccount := self.l2TransactionsPerAccount.insert pointer.account txs
            l2PriorityQueue :=
              OrderedSet.insertOption MempoolScore.key score self.l2PriorityQueue
            size := self.size - (removed + 1) })
      else .error .negativeSize

def nextTransaction (filter : L2TxFilter) :
    Except MempoolPanic (Option (Transaction Hash Account) × MempoolStore Hash Account) :=
  match self.l1Transactions.lookup self.nextPriorityId with
  | some transaction =>
    .ok (some (.l1 transaction),
      { self with
        l1Transactions := self.l1Transactions.erase self.nextPriorityId
        nextPriorityId := (self.nextPriorityId + 1) % 2 ^ 64 })
  | none =>
    match self.bestPointer filter with
    | none => .ok (none, self)
    | some pointer =>
      -- what is cut off begins with the pointer
      let (kept, cutOff) := OrderedSet.splitOff MempoolScore.key pointer self.l2PriorityQueue
      match stash (cutOff.drop 1) { self with l2PriorityQueue := kept } 0 with
      | .ok (self, removed) => self.takeFrom pointer removed
      | .error panic => .error panic

def rollback (tx : Transaction Hash Account) : Except MempoolPanic (MempoolStore Hash Account) :=
  match tx with
  | .l1 tx => .ok { self with nextPriorityId := min self.nextPriorityId tx.commonData.serialId }
  | .l2 tx =>
    match self.l2TransactionsPerAccount.lookup tx.initiatorAccount with
    | none => .error .accountNotAvailable
    | some txs =>
      let (txs, score) := txs.reset tx
      .ok { self with
        l2TransactionsPerAccount := self.l2TransactionsPerAccount.insert tx.initiatorAccount txs
        l2PriorityQueue := OrderedSet.removeOption MempoolScore.key score self.l2PriorityQueue }
  | .protocolUpgrade => .error .protocolUpgrade

/-- When the store is full, accounts without a pointer are dropped. -/
def gc : List Account × MempoolStore Hash Account :=
  if self.capacity ≤ self.size then
    let indexed := fun account => self.l2PriorityQueue.any fun pointer => pointer.account = account
    let kept := self.l2TransactionsPerAccount.filterKeys indexed
    let drained := self.l2TransactionsPerAccount.filterKeys fun account => !indexed account
    (drained.keys, { self with
      l2TransactionsPerAccount := kept
      size := kept.total AccountTransactions.len })
  else ([], self)

def getMempoolInfo : MempoolInfo Account × MempoolStore Hash Account :=
  let (purgedAccounts, store) := { self with stashedAccounts := [] }.gc
  (⟨self.stashedAccounts, purgedAccounts⟩, store)

end MempoolStore

end Model

/-! ### What one account keeps -/

namespace AccountTransactions

variable {Account : Type}

def score (self : AccountTransactions Account) : Option (MempoolScore Account) :=
  (self.transactions.lookup self.nonce).map scoreForTransaction

def Filed (account : Account) (self : AccountTransactions Account) : Prop :=
  ∀ nonce tx, self.transactions.lookup nonce = some tx →
    tx.initiatorAccount = account ∧ tx.nonce = nonce ∧ self.nonce ≤ nonce

variable {account : Account} {self : AccountTransactions Account}

theorem filed_new (nonce : UInt32) : (new nonce).Filed account := by
  intro n tx h
  cases h

variable {score : MempoolScore Account}

theorem Filed.account_of_lookup (h : self.Filed account) {nonce : UInt32}
    (hscore : (self.transactions.lookup nonce).map scoreForTransaction = some score) :
    score.account = account := by
  obtain ⟨tx, htx, rfl⟩ := Option.map_eq_some_iff.1 hscore
  exact (h nonce tx htx).1

theorem Filed.lookup_of_lt (h : self.Filed account) {nonce : UInt32} (hlt : nonce < self.nonce) :
    self.transactions.lookup nonce = none := by
  rw [Option.eq_none_iff_forall_ne_some]
  intro tx htx
  exact absurd (h nonce tx htx).2.2 (UInt32.not_le.2 hlt)

variable {tx : L2Tx Account}

theorem insert_of_lt (h : tx.nonce < self.nonce) : self.insert tx = (self, ⟨none, none, false⟩) :=
  if_pos h

theorem length_insert (transactions : Map UInt32 (L2Tx Account)) (tx : L2Tx Account) :
    (transactions.insert tx.nonce tx).entries.length =
      transactions.entries.length + if (transactions.lookup tx.nonce).isNone then 1 else 0 := by
  have htotal := AList.total_insert_add (fun _ => 1) transactions tx.nonce tx
  rw [AList.length_entries, AList.length_entries]
  cases hlookup : transactions.lookup tx.nonce with
  | none | some old => simpa [hlookup] using htotal

/-- What inserting into an account returns: the pointers are the old and the new one of the account,
or none when the pointer stays. -/
structure Inserted (account : Account) (old txs : AccountTransactions Account)
    (metadata : InsertionMetadata Account) : Prop where
  filed : txs.Filed account
  nonce : txs.nonce = old.nonce
  len : txs.len = old.len + if metadata.isNew then 1 else 0
  scores : metadata.newScore = none ∧ metadata.previousScore = none ∧ txs.score = old.score ∨
    metadata.newScore = txs.score ∧ metadata.previousScore = old.score

theorem Filed.insert (h : self.Filed account) (htx : tx.initiatorAccount = account) :
    Inserted account self (self.insert tx).1 (self.insert tx).2 := by
  by_cases hold : tx.nonce < self.nonce
  · rw [insert_of_lt hold]
    exact ⟨h, rfl, rfl, .inl ⟨rfl, rfl, rfl⟩⟩
  have hle : self.nonce ≤ tx.nonce := UInt32.not_lt.1 hold
  have hfiled : ({ self with transactions := self.transactions.insert tx.nonce tx } :
      AccountTransactions Account).Filed account := by
    intro nonce stored hstored
    by_cases hn : nonce = tx.nonce
    · rw [hn, AList.lookup_insert] at hstored
      cases hstored
      exact ⟨htx, hn.symm, hn ▸ hle⟩
    · rw [AList.lookup_insert_ne hn] at hstored
      exact h nonce stored hstored
  rw [AccountTransactions.insert, if_neg hold]
  -- only a transaction at the nonce of the account moves the pointer
  by_cases hn : tx.nonce = self.nonce
  · simp only [if_pos hn, Option.isNone_map]
    refine ⟨hfiled, rfl, length_insert self.transactions tx, .inr ⟨?_, by rw [hn, score]⟩⟩
    show _ = ((self.transactions.insert tx.nonce tx).lookup self.nonce).map _
    rw [← hn, AList.lookup_insert, Option.map_some]
  · simp only [if_neg hn, Option.isNone_map]
    refine ⟨hfiled, rfl, length_insert self.transactions tx, .inl ⟨rfl, rfl, ?_⟩⟩
    show ((self.transactions.insert tx.nonce tx).lookup self.nonce).map _ = _
    rw [AList.lookup_insert_ne (Ne.symm hn), score]

theorem Filed.next (h : self.Filed account) (hscore : self.score = some score) :
    ∃ tx txs, self.next = some (tx, txs.score, txs) ∧ txs.Filed account ∧
      scoreForTransaction tx = score ∧ self.transactions.lookup self.nonce = some tx ∧
      txs.nonce = self.nonce + 1 ∧ self.len = txs.len + 1 := by
  obtain ⟨tx, htx, hscore⟩ := Option.map_eq_some_iff.1 hscore
  refine ⟨tx, ⟨self.transactions.erase self.nonce, self.nonce + 1⟩, ?_, ?_, hscore, htx, rfl, ?_⟩
  · rw [AccountTransactions.next, htx]
    rfl
  · intro nonce stored hstored
    have hne : nonce ≠ self.nonce := by
      rintro rfl
      rw [AList.lookup_erase] at hstored
      cases hstored
    have hstored : self.transactions.lookup nonce = some stored :=
      (AList.lookup_erase_ne hne).symm.trans hstored
    obtain ⟨haccount, hnonce, hle⟩ := h nonce stored hstored
    refine ⟨haccount, hnonce, ?_⟩
    -- the nonce does not wrap around when a greater one is stored
    have hne' : nonce.toNat ≠ self.nonce.toNat := fun heq => hne (UInt32.toNat_inj.1 heq)
    rw [UInt32.le_iff_toNat_le] at hle ⊢
    rw [UInt32.toNat_add, UInt32.toNat_one]
    omega
  · rw [len, len, AList.length_entries, AList.length_entries, AList.total_erase htx]
    exact Nat.add_comm _ _

end AccountTransactions

section Invariant

variable {Hash Account : Type} [LinearOrder Account]

def currentScore (accounts : Map Account (AccountTransactions Account)) (account : Account) :
    Option (MempoolScore Account) :=
  (accounts.lookup account).bind AccountTransactions.score

/-- The queue points to the current transaction of each account that has one, transactions are filed
where they belong, and the counter counts them. -/
structure MempoolInv (s : MempoolStore Hash Account) : Prop where
  index : OrderedSet.Indexes MempoolScore.key MempoolScore.account s.l2PriorityQueue
    (currentScore s.l2TransactionsPerAccount)
  filed : ∀ account txs, s.l2TransactionsPerAccount.lookup account = some txs → txs.Filed account
  size : s.size = s.l2TransactionsPerAccount.total AccountTransactions.len

omit [LinearOrder Account] in
theorem account_eq_of_key_eq (p q : MempoolScore Account) (h : p.key = q.key) :
    p.account = q.account :=
  congrArg (fun k => (ofLex k).2) h

section Accounts

variable {accounts : Map Account (AccountTransactions Account)} {account : Account}
  {txs : AccountTransactions Account}

theorem currentScore_insert_self (accounts : Map Account (AccountTransactions Account)) :
    currentScore (accounts.insert account txs) account = txs.score := by
  rw [currentScore, AList.lookup_insert, Option.bind_some]

theorem currentScore_insert_ne (accounts : Map Account (AccountTransactions Account))
    {other : Account} (h : other ≠ account) :
    currentScore (accounts.insert account txs) other = currentScore accounts other := by
  rw [currentScore, AList.lookup_insert_ne h, currentScore]

theorem filed_insert (h : ∀ account txs, accounts.lookup account = some txs → txs.Filed account)
    (htxs : txs.Filed account) (other : Account) (txs' : AccountTransactions Account)
    (hlookup : (accounts.insert account txs).lookup other = some txs') : txs'.Filed other := by
  by_cases hother : other = account
  · rw [hother, AList.lookup_insert] at hlookup
    rw [hother, ← Option.some.inj hlookup]
    exact htxs
  · rw [AList.lookup_insert_ne hother] at hlookup
    exact h other txs' hlookup

end Accounts

/-! ### Inserting -/

namespace MempoolInv

variable {s : MempoolStore Hash Account}

theorem new (nextPriorityId capacity : ℕ) :
    MempoolInv (.new nextPriorityId capacity : MempoolStore Hash Account) := by
  refine ⟨⟨List.Pairwise.nil, fun p => ?_⟩, fun account txs h => ?_, rfl⟩
  · constructor
    · nofun
    · nofun
  · cases h

theorem account_of_currentScore (h : MempoolInv s) {account : Account} {p : MempoolScore Account}
    (hp : currentScore s.l2TransactionsPerAccount account = some p) : p.account = account := by
  obtain ⟨txs, htxs, hp⟩ := Option.bind_eq_some_iff.1 hp
  exact (h.filed account txs htxs).account_of_lookup hp

theorem entry (h : MempoolInv s) (account : Account) (nonce : UInt32) :
    let txs := (s.l2TransactionsPerAccount.lookup account).getD (.new nonce)
    txs.Filed account ∧ currentScore s.l2TransactionsPerAccount account = txs.score ∧
      ((s.l2TransactionsPerAccount.lookup account).map AccountTransactions.len).getD
        0 = txs.len := by
  cases hlookup : s.l2TransactionsPerAccount.lookup account with
  | none =>
    refine ⟨AccountTransactions.filed_new nonce, ?_, rfl⟩
    rw [currentScore, hlookup]
    rfl
  | some txs =>
    refine ⟨h.filed account txs hlookup, ?_, rfl⟩
    rw [currentScore, hlookup]
    rfl

theorem insertL2Transaction (h : MempoolInv s) (tx : L2Tx Account)
    (initialNonces : Account → Option UInt32) :
    MempoolInv (s.insertL2Transaction tx initialNonces) := by
  obtain ⟨hfiled, hscore, hlen⟩ :=
    h.entry tx.initiatorAccount ((initialNonces tx.initiatorAccount).getD 0)
  rw [MempoolStore.insertL2Transaction]
  generalize (s.l2TransactionsPerAccount.lookup tx.initiatorAccount).getD
    (.new ((initialNonces tx.initiatorAccount).getD 0)) = txs at hfiled hscore hlen ⊢
  have hinserted : AccountTransactions.Inserted tx.initiatorAccount txs (txs.insert tx).1
      (txs.insert tx).2 := hfiled.insert rfl
  generalize txs.insert tx = inserted at hinserted ⊢
  obtain ⟨txs', metadata⟩ := inserted
  replace hinserted : AccountTransactions.Inserted tx.initiatorAccount txs txs' metadata :=
    hinserted
  refine ⟨?_, filed_insert h.filed hinserted.filed, ?_⟩
  · rcases hinserted.scores with ⟨hnew, hprevious, hsame⟩ | ⟨hnew, hprevious⟩
    · simp only [hnew, hprevious]
      refine h.index.congr fun b => ?_
      by_cases hb : b = tx.initiatorAccount
      · rw [hb, currentScore_insert_self, hscore]
        exact hsame
      · exact currentScore_insert_ne _ hb
    · -- the old pointer of the account is taken out before the new one is put in
      simp only [hnew, hprevious]
      have hremoved : OrderedSet.Indexes MempoolScore.key MempoolScore.account
          (OrderedSet.removeOption MempoolScore.key txs.score s.l2PriorityQueue)
          (Function.update (currentScore s.l2TransactionsPerAccount) tx.initiatorAccount none) :=
        h.index.removeOption account_eq_of_key_eq (fun p hp => hfiled.account_of_lookup hp)
          (.inl hscore) (Function.update_self ..) fun b hb => Function.update_of_ne hb ..
      refine hremoved.insertOption account_eq_of_key_eq
        (fun p hp => hinserted.filed.account_of_lookup hp)
        (Function.update_self ..) (currentScore_insert_self _) fun b hb => ?_
      rw [currentScore_insert_ne _ hb, Function.update_of_ne hb]
  · show (if metadata.isNew then s.size + 1 else s.size) =
      (s.l2TransactionsPerAccount.insert tx.initiatorAccount txs').total AccountTransactions.len
    have htotal := AList.total_insert_add AccountTransactions.len s.l2TransactionsPerAccount
      tx.initiatorAccount txs'
    have hlen' := hinserted.len
    rw [hlen, ← h.size, hlen'] at htotal
    by_cases hnew : metadata.isNew = true
    · rw [if_pos hnew] at htotal ⊢
      omega
    · rw [if_neg hnew] at htotal ⊢
      omega

end MempoolInv

/-! ### Taking -/

structure Stashed (pointers : List (MempoolScore Account)) (s : MempoolStore Hash Account)
    (removed : ℕ) (s' : MempoolStore Hash Account) (removed' : ℕ) : Prop where
  l1Transactions : s'.l1Transactions = s.l1Transactions
  nextPriorityId : s'.nextPriorityId = s.nextPriorityId
  queue : s'.l2PriorityQueue = s.l2PriorityQueue
  size : s'.size = s.size
  lookup : ∀ account, s'.l2TransactionsPerAccount.lookup account =
    if account ∈ pointers.map MempoolScore.account then none
    else s.l2TransactionsPerAccount.lookup account
  total : s'.l2TransactionsPerAccount.total AccountTransactions.len + removed' =
    s.l2TransactionsPerAccount.total AccountTransactions.len + removed

theorem stash_ok {pointers : List (MempoolScore Account)} {s : MempoolStore Hash Account}
    {removed : ℕ} (hnodup : (pointers.map MempoolScore.account).Nodup)
    (hstored : ∀ p ∈ pointers, (s.l2TransactionsPerAccount.lookup p.account).isSome) :
    ∃ s' removed', MempoolStore.stash pointers s removed = .ok (s', removed') ∧
      Stashed pointers s removed s' removed' := by
  induction pointers generalizing s removed with
  | nil =>
    exact ⟨s, removed, rfl, rfl, rfl, rfl, rfl, fun _ => (if_neg List.not_mem_nil).symm, rfl⟩
  | cons p rest ih =>
    obtain ⟨hp, hrest⟩ := List.nodup_cons.1 hnodup
    obtain ⟨txs, htxs⟩ := Option.isSome_iff_exists.1 (hstored p List.mem_cons_self)
    -- the accounts of the other pointers are still there
    obtain ⟨s', removed', hok, hstashed⟩ := @ih
      { s with
        l2TransactionsPerAccount := s.l2TransactionsPerAccount.erase p.account
        stashedAccounts := s.stashedAccounts ++ [p.account] } (removed + txs.len) hrest (by
      intro q hq
      have hne : q.account ≠ p.account := fun heq => hp (heq ▸ List.mem_map_of_mem hq)
      rw [AList.lookup_erase_ne hne]
      exact hstored q (List.mem_cons_of_mem _ hq))
    refine ⟨s', removed', ?_, hstashed.l1Transactions, hstashed.nextPriorityId, hstashed.queue,
      hstashed.size, fun account => ?_, ?_⟩
    · rw [MempoolStore.stash, htxs]
      exact hok
    · rw [hstashed.lookup account]
      by_cases haccount : account = p.account
      · subst haccount
        rw [AList.lookup_erase, ite_self, if_pos (List.mem_map_of_mem List.mem_cons_self)]
      · rw [AList.lookup_erase_ne haccount]
        simp only [List.map_cons, List.mem_cons, haccount, false_or]
    · rw [hstashed.total]
      show (s.l2TransactionsPerAccount.erase p.account).total _ + _ = _
      rw [AList.total_erase htxs]
      omega

structure TakenL2 (s : MempoolStore Hash Account) (pointer : MempoolScore Account)
    (tx : L2Tx Account) (s' : MempoolStore Hash Account) : Prop where
  inv : MempoolInv s'
  l1Transactions : s'.l1Transactions = s.l1Transactions
  nextPriorityId : s'.nextPriorityId = s.nextPriorityId
  score : scoreForTransaction tx = pointer
  entry : ∃ txs txs', s.l2TransactionsPerAccount.lookup pointer.account = some txs ∧
    s'.l2TransactionsPerAccount.lookup pointer.account = some txs' ∧
    txs.transactions.lookup txs.nonce = some tx ∧ txs'.nonce = txs.nonce + 1
  others : ∀ account, account ≠ pointer.account →
    s'.l2TransactionsPerAccount.lookup account = none ∨
      s'.l2TransactionsPerAccount.lookup account = s.l2TransactionsPerAccount.lookup account

namespace MempoolInv

variable {s : MempoolStore Hash Account}

theorem not_mem_stashed (h : MempoolInv s) {pointer q : MempoolScore Account}
    (hq : q ∈ s.l2PriorityQueue) (hle : ¬ pointer.key < q.key) :
    q.account ∉ (s.l2PriorityQueue.filter fun q => pointer.key < q.key).map
      MempoolScore.account := by
  intro hmem
  obtain ⟨q', hq', haccount⟩ := List.mem_map.1 hmem
  obtain ⟨hqueue, hlt⟩ := List.mem_filter.1 hq'
  have hsame := (h.index.mem_iff q').1 hqueue
  rw [haccount, (h.index.mem_iff q).1 hq] at hsame
  cases hsame
  exact hle (of_decide_eq_true hlt)

/-- After stashing, the pointers of the accounts are those below the one at which the queue is cut,
apart from the account of that one. -/
theorem currentScore_stashed (h : MempoolInv s) {pointer : MempoolScore Account}
    {removed removed' : ℕ} {s₀ s' : MempoolStore Hash Account}
    (hstashed : Stashed (s.l2PriorityQueue.filter fun q => pointer.key < q.key) s₀ removed s'
      removed') (hs₀ : s₀.l2TransactionsPerAccount = s.l2TransactionsPerAccount)
    {account : Account} (haccount : account ≠ pointer.account) :
    currentScore s'.l2TransactionsPerAccount account =
      (currentScore s.l2TransactionsPerAccount account).filter fun q => q.key < pointer.key := by
  have hlookup := hstashed.lookup account
  rw [hs₀] at hlookup
  cases hscore : currentScore s.l2TransactionsPerAccount account with
  | none =>
    rw [Option.filter_none, currentScore, hlookup]
    split
    · rfl
    · exact hscore
  | some q =>
    have hq : q.account = account := h.account_of_currentScore hscore
    have hqueue : q ∈ s.l2PriorityQueue := (h.index.mem_iff q).2 (hq.symm ▸ hscore)
    -- below the cut the account stays, above it it is stashed
    by_cases hlt : q.key < pointer.key
    · rw [if_neg (hq ▸ h.not_mem_stashed hqueue hlt.asymm)] at hlookup
      rw [currentScore, hlookup, Option.filter_some, if_pos (decide_eq_true hlt)]
      exact hscore
    · have hgt : pointer.key < q.key :=
        lt_of_le_of_ne (not_lt.1 hlt) fun heq =>
          haccount (hq.symm.trans (account_eq_of_key_eq _ _ heq.symm))
      have hmem : account ∈ (s.l2PriorityQueue.filter fun q => pointer.key < q.key).map
          MempoolScore.account :=
        hq ▸ List.mem_map_of_mem (List.mem_filter.2 ⟨hqueue, decide_eq_true hgt⟩)
      rw [if_pos hmem] at hlookup
      rw [currentScore, hlookup, Option.filter_some, if_neg (by simpa using hlt)]
      rfl

end MempoolInv

/-- Taking from an account, when the queue has the right pointers of the other accounts and none of
this one. -/
theorem takeFrom_ok {s : MempoolStore Hash Account} {f : Account → Option (MempoolScore Account)}
    {pointer : MempoolScore Account} {txs : AccountTransactions Account} {removed : ℕ}
    (hindex : OrderedSet.Indexes MempoolScore.key MempoolScore.account s.l2PriorityQueue f)
    (hnone : f pointer.account = none)
    (hf : ∀ account, account ≠ pointer.account →
      currentScore s.l2TransactionsPerAccount account = f account)
    (hfiled : ∀ account txs, s.l2TransactionsPerAccount.lookup account = some txs →
      txs.Filed account)
    (hsize : s.size = s.l2TransactionsPerAccount.total AccountTransactions.len + removed)
    (htxs : s.l2TransactionsPerAccount.lookup pointer.account = some txs)
    (hscore : txs.score = some pointer) :
    ∃ tx s', s.takeFrom pointer removed = .ok (some (.l2 tx), s') ∧ TakenL2 s pointer tx s' := by
  obtain ⟨tx, txs', hnext, hfiled', htx, hcurrent, hnonce, hlen⟩ :=
    (hfiled _ txs htxs).next hscore
  have htotal := AList.total_insert_add AccountTransactions.len s.l2TransactionsPerAccount
    pointer.account txs'
  rw [htxs, Option.map_some, Option.getD_some] at htotal
  -- the subtraction of the source does not wrap around
  have hle : removed + 1 ≤ s.size := by
    have herase := AList.total_erase (f := AccountTransactions.len) htxs
    omega
  refine ⟨tx, { s with
      l2TransactionsPerAccount := s.l2TransactionsPerAccount.insert pointer.account txs'
      l2PriorityQueue := OrderedSet.insertOption MempoolScore.key txs'.score s.l2PriorityQueue
      size := s.size - (removed + 1) }, ?_, ⟨?_, filed_insert hfiled hfiled', ?_⟩, rfl, rfl, htx,
    ⟨txs, txs', htxs, AList.lookup_insert _, hcurrent, hnonce⟩,
    fun account hother => .inr (AList.lookup_insert_ne hother)⟩
  · rw [MempoolStore.takeFrom, htxs]
    simp only [hnext, if_pos hle]
  · refine hindex.insertOption account_eq_of_key_eq
      (fun p hp => hfiled'.account_of_lookup hp) hnone (currentScore_insert_self _)
      fun account hother => ?_
    rw [currentScore_insert_ne _ hother, hf account hother]
  · show s.size - (removed + 1) =
      (s.l2TransactionsPerAccount.insert pointer.account txs').total AccountTransactions.len
    omega

namespace MempoolInv

variable {s : MempoolStore Hash Account}

/-- **Taking the transaction at the best pointer.**  The accounts in front of it are stashed. -/
theorem nextTransaction_of_pointer (h : MempoolInv s) {filter : L2TxFilter}
    (hl1 : s.l1Transactions.lookup s.nextPriorityId = none) {pointer : MempoolScore Account}
    (hpointer : s.bestPointer filter = some pointer) :
    ∃ tx s', s.nextTransaction filter = .ok (some (.l2 tx), s') ∧ TakenL2 s pointer tx s' := by
  have hqueue : pointer ∈ s.l2PriorityQueue :=
    (OrderedSet.rfind_eq_some h.index.sorted hpointer).1
  have hcurrent := (h.index.mem_iff pointer).1 hqueue
  obtain ⟨txs, htxs, hscore⟩ := Option.bind_eq_some_iff.1 hcurrent
  -- each account in front is there, once
  have hnodup : ((s.l2PriorityQueue.filter fun q => pointer.key < q.key).map
      MempoolScore.account).Nodup :=
    List.pairwise_map.2 (h.index.pairwise_owner_ne.sublist List.filter_sublist)
  obtain ⟨s₁, removed, hstash, hstashed⟩ := @stash_ok _ _ _
    (s.l2PriorityQueue.filter fun q => pointer.key < q.key)
    { s with l2PriorityQueue := s.l2PriorityQueue.filter fun q => q.key < pointer.key } 0 hnodup
    (fun q hq => by
      obtain ⟨txs, htxs, _⟩ := Option.bind_eq_some_iff.1
        ((h.index.mem_iff q).1 (List.mem_of_mem_filter hq))
      exact Option.isSome_of_eq_some htxs)
  have hkept : ∀ account, s₁.l2TransactionsPerAccount.lookup account = none ∨
      s₁.l2TransactionsPerAccount.lookup account = s.l2TransactionsPerAccount.lookup account := by
    intro account
    rw [hstashed.lookup account]
    split
    · exact .inl rfl
    · exact .inr rfl
  have htxs₁ : s₁.l2TransactionsPerAccount.lookup pointer.account = some txs := by
    rw [hstashed.lookup, if_neg (h.not_mem_stashed hqueue (lt_irrefl _))]
    exact htxs
  obtain ⟨tx, s', htake, htaken⟩ := @takeFrom_ok _ _ _ s₁
    (fun account => (currentScore s.l2TransactionsPerAccount account).filter
      fun q => q.key < pointer.key) pointer txs removed
    (hstashed.queue ▸ h.index.restrict _ fun _ => rfl)
    (by rw [hcurrent, Option.filter_some, if_neg (by simp)])
    (fun account haccount => h.currentScore_stashed hstashed rfl haccount)
    (fun account txs hlookup => by
      rcases hkept account with hkept | hkept
      · cases hkept.symm.trans hlookup
      · exact h.filed account txs (hkept ▸ hlookup))
    (hstashed.size.trans (h.size.trans hstashed.total.symm))
    htxs₁ hscore
  refine ⟨tx, s', ?_, htaken.inv, htaken.l1Transactions.trans hstashed.l1Transactions,
    htaken.nextPriorityId.trans hstashed.nextPriorityId, htaken.score, ?_, fun account hother => ?_⟩
  · rw [MempoolStore.nextTransaction, hl1]
    simp only [hpointer, OrderedSet.drop_splitOff h.index.sorted hqueue]
    rw [OrderedSet.splitOff, hstash]
    exact htake
  · obtain ⟨txs₁, txs', hlookup, hrest⟩ := htaken.entry
    cases htxs₁.symm.trans hlookup
    exact ⟨txs, txs', htxs, hrest⟩
  · rcases htaken.others account hother with hnone | hsame
    · exact .inl hnone
    · rw [hsame]
      exact hkept account

theorem nextTransaction_ok (h : MempoolInv s) (filter : L2TxFilter) :
    ∃ tx s', s.nextTransaction filter = .ok (tx, s') ∧ MempoolInv s' := by
  cases hl1 : s.l1Transactions.lookup s.nextPriorityId with
  | some tx =>
    refine ⟨some (.l1 tx), _, by rw [MempoolStore.nextTransaction, hl1], ?_⟩
    exact ⟨h.index, h.filed, h.size⟩
  | none =>
    cases hpointer : s.bestPointer filter with
    | none => exact ⟨none, s, by rw [MempoolStore.nextTransaction, hl1, hpointer], h⟩
    | some pointer =>
      obtain ⟨tx, s', hok, htaken⟩ := h.nextTransaction_of_pointer hl1 hpointer
      exact ⟨some (.l2 tx), s', hok, htaken.inv⟩

/-! ### Rolling back, and dropping accounts -/

/-- **A rollback that finds the account as it was.**  The pointer to the successor is taken out, and
the account has no transaction at its nonce any more. -/
theorem rollback_l2 (h : MempoolInv s) {tx : L2Tx Account} {txs : AccountTransactions Account}
    (htxs : s.l2TransactionsPerAccount.lookup tx.initiatorAccount = some txs)
    (hlt : tx.nonce < txs.nonce)
    (hnext : txs.nonce = tx.nonce + 1 ∨ txs.transactions.lookup txs.nonce = none) :
    ∃ s', s.rollback (.l2 tx) = .ok s' ∧ MempoolInv s' ∧
      s'.l2TransactionsPerAccount.lookup tx.initiatorAccount =
        some { txs with nonce := tx.nonce } := by
  have hfiled := h.filed _ txs htxs
  have hscore : currentScore s.l2TransactionsPerAccount tx.initiatorAccount = txs.score := by
    rw [currentScore, htxs, Option.bind_some]
  have hreset : (txs.reset tx).1 = { txs with nonce := tx.nonce } := by
    rw [AccountTransactions.reset, if_pos (UInt32.le_of_lt hlt)]
  have hfiled' : (txs.reset tx).1.Filed tx.initiatorAccount := by
    intro nonce stored hstored
    rw [hreset] at hstored ⊢
    obtain ⟨haccount, hnonce, hle⟩ := hfiled nonce stored hstored
    exact ⟨haccount, hnonce, UInt32.le_trans (UInt32.le_of_lt hlt) hle⟩
  refine ⟨_, by rw [MempoolStore.rollback, htxs], ⟨?_, filed_insert h.filed hfiled', ?_⟩, ?_⟩
  · refine h.index.removeOption account_eq_of_key_eq (fun p hp => hfiled.account_of_lookup hp) ?_ ?_
      fun account hother => currentScore_insert_ne _ hother
    -- the pointer that is removed is the one there is, if there is one
    · rcases hnext with hnext | hnone
      · left
        rw [hscore, AccountTransactions.score, hnext]
        rfl
      · right
        rw [hscore, AccountTransactions.score, hnone, Option.map_none]
    · rw [currentScore_insert_self, AccountTransactions.score, hreset, hfiled.lookup_of_lt hlt,
        Option.map_none]
  · have htotal := AList.total_insert_add AccountTransactions.len s.l2TransactionsPerAccount
      tx.initiatorAccount (txs.reset tx).1
    have hlen : (txs.reset tx).1.len = txs.len := rfl
    rw [htxs, Option.map_some, Option.getD_some, hlen, ← h.size] at htotal
    show s.size = (s.l2TransactionsPerAccount.insert tx.initiatorAccount (txs.reset tx).1).total _
    omega
  · rw [← hreset]
    exact AList.lookup_insert _

theorem gc (h : MempoolInv s) : MempoolInv s.gc.2 := by
  rw [MempoolStore.gc]
  by_cases hfull : s.capacity ≤ s.size
  · rw [if_pos hfull]
    refine ⟨h.index.congr fun account => ?_, fun account txs hlookup => ?_, rfl⟩
    · rw [currentScore, AList.lookup_filterKeys, currentScore]
      split
      · rfl
      · -- an account without a pointer has no current transaction
        rename_i hindexed
        rw [Option.bind_none, eq_comm, Option.eq_none_iff_forall_ne_some]
        intro q hq
        have haccount : q.account = account := h.account_of_currentScore hq
        have hqueue : q ∈ s.l2PriorityQueue := (h.index.mem_iff q).2 (haccount.symm ▸ hq)
        exact hindexed (List.any_eq_true.2 ⟨q, hqueue, decide_eq_true haccount⟩)
    · replace hlookup : (s.l2TransactionsPerAccount.filterKeys _).lookup account = some txs :=
        hlookup
      rw [AList.lookup_filterKeys] at hlookup
      split at hlookup
      · exact h.filed account txs hlookup
      · cases hlookup
  · rw [if_neg hfull]
    exact h

theorem getMempoolInfo (h : MempoolInv s) : MempoolInv s.getMempoolInfo.2 :=
  gc (s := { s with stashedAccounts := [] }) ⟨h.index, h.filed, h.size⟩

theorem insert {initialNonces : Account → Option UInt32}
    {transactions : List (Transaction Hash Account)} (h : MempoolInv s) :
    (∃ s', s.insert initialNonces transactions = .ok s' ∧ MempoolInv s') ∨
      s.insert initialNonces transactions = .error .protocolUpgrade := by
  induction transactions generalizing s with
  | nil => exact .inl ⟨s, rfl, h⟩
  | cons tx rest ih =>
    cases tx with
    | l1 tx => exact ih ⟨h.index, h.filed, h.size⟩
    | l2 tx => exact ih (h.insertL2Transaction tx initialNonces)
    | protocolUpgrade => exact .inr rfl

end MempoolInv

/-! ### Sequences of operations -/

inductive Operation (Hash Account : Type) where
  | insert (transactions : List (Transaction Hash Account))
      (initialNonces : Account → Option UInt32)
  | nextTransaction (filter : L2TxFilter)
  | rollback (tx : Transaction Hash Account)
  | getMempoolInfo

structure Session (Hash Account : Type) where
  store : MempoolStore Hash Account
  taken : List (Transaction Hash Account)

namespace Session

def start (nextPriorityId capacity : ℕ) : Session Hash Account := ⟨.new nextPriorityId capacity, []⟩

def apply (s : Session Hash Account) :
    Operation Hash Account → Except MempoolPanic (Session Hash Account)
  | .insert transactions initialNonces =>
    (s.store.insert initialNonces transactions).map fun store => { s with store }
  | .nextTransaction filter =>
    (s.store.nextTransaction filter).map fun (tx, store) => ⟨store, s.taken ++ tx.toList⟩
  | .rollback tx => (s.store.rollback tx).map fun store => { s with store }
  | .getMempoolInfo => .ok { s with store := s.store.getMempoolInfo.2 }

def step (s : Session Hash Account) (op : Operation Hash Account) : Option (Session Hash Account) :=
  (s.apply op).toOption

/-- A rollback finds the account of the transaction behind the transaction, and either right behind
it or without a transaction at its nonce. -/
def RollbackFinds (s : Session Hash Account) : Operation Hash Account → Prop
  | .rollback (.l2 tx) =>
    match s.store.l2TransactionsPerAccount.lookup tx.initiatorAccount with
    | some txs =>
      tx.nonce < txs.nonce ∧ (txs.nonce = tx.nonce + 1 ∨ (txs.transactions.lookup txs.nonce).isNone)
    | none => False
  | _ => True

instance decidableRollbackFinds (s : Session Hash Account) (op : Operation Hash Account) :
    Decidable (s.RollbackFinds op) := by
  unfold RollbackFinds
  split
  · split <;> infer_instance
  · infer_instance

variable {s : Session Hash Account} {op : Operation Hash Account}

/-- Under the condition an operation keeps the invariant, and only a protocol upgrade panics. -/
theorem apply_of_inv (h : MempoolInv s.store) (hop : s.RollbackFinds op) :
    (∃ s', s.apply op = .ok s' ∧ MempoolInv s'.store) ∨ s.apply op = .error .protocolUpgrade := by
  cases op with
  | insert transactions initialNonces =>
    rw [apply]
    rcases h.insert with ⟨store, hok, hinv⟩ | herror
    · exact .inl ⟨{ s with store }, by rw [hok]; rfl, hinv⟩
    · exact .inr (by rw [herror]; rfl)
  | nextTransaction filter =>
    obtain ⟨tx, store, hok, hinv⟩ := h.nextTransaction_ok filter
    exact .inl ⟨⟨store, s.taken ++ tx.toList⟩, by rw [apply, hok]; rfl, hinv⟩
  | rollback tx =>
    cases tx with
    | l1 tx => exact .inl ⟨_, rfl, h.index, h.filed, h.size⟩
    | l2 tx =>
      rw [RollbackFinds] at hop
      cases htxs : s.store.l2TransactionsPerAccount.lookup tx.initiatorAccount with
      | none =>
        rw [htxs] at hop
        exact hop.elim
      | some txs =>
        rw [htxs] at hop
        obtain ⟨store, hok, hinv, _⟩ :=
          h.rollback_l2 htxs hop.1 (hop.2.imp_right Option.isNone_iff_eq_none.1)
        exact .inl ⟨{ s with store }, by rw [apply, hok]; rfl, hinv⟩
    | protocolUpgrade => exact .inr rfl
  | getMempoolInfo => exact .inl ⟨_, rfl, h.getMempoolInfo⟩

theorem step_inv {s' : Session Hash Account} (h : MempoolInv s.store)
    (hstep : ((StepRel.ofPartial step).under RollbackFinds) s op s') : MempoolInv s'.store := by
  obtain ⟨hstep, hop⟩ := hstep
  replace hstep : (s.apply op).toOption = some s' := hstep
  rcases apply_of_inv h hop with ⟨t, hok, hinv⟩ | herror
  · rw [hok] at hstep
    exact Option.some.inj hstep ▸ hinv
  · rw [herror] at hstep
    cases hstep

end Session

/-- **The structures of the mempool agree.**  When each rollback finds its account, the queue points
to exactly the current transactions, and no operation panics, protocol upgrades apart. -/
theorem mempool_represents {nextPriorityId capacity : ℕ} {ops : List (Operation Hash Account)}
    {s : Session Hash Account}
    (hrun : Run ((StepRel.ofPartial Session.step).under Session.RollbackFinds)
      (Session.start nextPriorityId capacity) ops s) :
    MempoolInv s.store ∧ ∀ op panic, s.RollbackFinds op → s.apply op = .error panic →
      panic = .protocolUpgrade := by
  have hinv := hrun.invariant (I := fun s => MempoolInv s.store) (fun _ _ _ => Session.step_inv)
    (MempoolInv.new nextPriorityId capacity)
  refine ⟨hinv, fun op panic hop hpanic => ?_⟩
  rcases Session.apply_of_inv hinv hop with ⟨s', hok, _⟩ | herror
  · cases hok.symm.trans hpanic
  · rw [herror] at hpanic
    exact (Except.error.inj hpanic).symm

end Invariant

/-! ### Accounts that are purged before the rollback -/

def sampleTx (account : ℕ) (nonce : UInt32) (receivedTimestampMs : ℕ) : L2Tx ℕ :=
  ⟨account, nonce, receivedTimestampMs, ⟨0, 100, 0, 100⟩⟩

def sampleFilter : L2TxFilter := ⟨1, 1⟩

/-- Two accounts send, the older transaction is taken and rolled back, and comes again. -/
def sampleOperations : List (Operation ℕ ℕ) :=
  [.insert [.l2 (sampleTx 1 0 10), .l2 (sampleTx 1 1 11), .l2 (sampleTx 2 0 20)] fun _ => none,
    .nextTransaction sampleFilter, .rollback (.l2 (sampleTx 1 0 10)),
    .insert [.l2 (sampleTx 1 0 10)] fun _ => none]

theorem mempool_represents_sample :
    ∃ s : Session ℕ ℕ, s.taken = [.l2 (sampleTx 1 0 10)] ∧
      s.store.l2PriorityQueue.map MempoolScore.account = [2, 1] ∧ MempoolInv s.store := by
  obtain ⟨s, hrun, htaken, hqueue⟩ : ∃ s, Run ((StepRel.ofPartial Session.step).under
      Session.RollbackFinds) (Session.start 0 10) sampleOperations s ∧
      s.taken = [.l2 (sampleTx 1 0 10)] ∧
      s.store.l2PriorityQueue.map MempoolScore.account = [2, 1] :=
    Run.witnessUnder (fun _ _ h => h) (by decide +kernel)
  exact ⟨s, htaken, hqueue, (mempool_represents hrun).1⟩

/-- The account of the transaction that was taken is purged, and is made again with nonce five. -/
def purgedOperations : List (Operation ℕ ℕ) :=
  [.insert [.l2 (sampleTx 1 0 10), .l2 (sampleTx 2 0 20)] fun _ => none,
    .nextTransaction sampleFilter, .getMempoolInfo,
    .insert [.l2 (sampleTx 1 5 11)] fun account => if account = 1 then some 5 else none,
    .rollback (.l2 (sampleTx 1 0 10))]

/-- **A rollback that does not find the account as it was.**  The pointer of the account stays
although there is no transaction at its nonce, and taking the next transaction panics. -/
theorem mempool_dangling_pointer :
    ∃ s : Session ℕ ℕ,
      Run (StepRel.ofPartial Session.step) (Session.start 0 1) purgedOperations s ∧
      s.taken = [.l2 (sampleTx 1 0 10)] ∧ ¬ MempoolInv s.store ∧
      s.store.nextTransaction sampleFilter = .error .missingTransaction := by
  refine Run.witness (P := fun s => s.taken = [.l2 (sampleTx 1 0 10)] ∧
    s.store.l2PriorityQueue
      = [scoreForTransaction (sampleTx 2 0 20), scoreForTransaction (sampleTx 1 5 11)] ∧
    currentScore s.store.l2TransactionsPerAccount 1 = none ∧
    (match s.store.nextTransaction sampleFilter with
      | .error panic => some panic
      | .ok _ => none) = some .missingTransaction) ?_ (by decide +kernel)
  rintro s - ⟨htaken, hqueue, hcurrent, hpanic⟩
  refine ⟨htaken, fun hinv => ?_, ?_⟩
  -- the queue has a pointer, and the account no transaction
  · have hmem := (hinv.index.mem_iff (scoreForTransaction (sampleTx 1 5 11))).1
      (hqueue ▸ List.mem_cons_of_mem _ List.mem_cons_self)
    have haccount : (scoreForTransaction (sampleTx 1 5 11)).account = 1 := rfl
    rw [haccount, hcurrent] at hmem
    cases hmem
  · cases hnext : s.store.nextTransaction sampleFilter with
    | ok result =>
      rw [hnext] at hpanic
      cases hpanic
    | error panic =>
      rw [hnext] at hpanic
      exact congrArg _ (Option.some.inj hpanic)

end Mempool
