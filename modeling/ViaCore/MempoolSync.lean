/-
Loading transactions into the mempool.

The mempool fetcher gives back accounts to the transactions table: the transactions of stashed
accounts may be loaded again, those of purged accounts are deleted.  Then it loads transactions that
are not in the mempool, priority operations first and in the order of their ids.

The initiator of a deposit is its receiver, so a deposit that waits in the mempool is deleted with
the transactions of that account.

* `syncMempool_keepsDeposits_iff` — when no waiting deposit is deleted.
-/
import ViaCore.L1ToL2
import ViaCore.Query

/-! ### The table -/

structure MempoolRow (Hash : Type) extends TransactionRow Hash where
  miniblockNumber : Option ℕ
  inMempool : Bool
  error : Option Utf8
  txFormat : ℕ
  receivedAt : ℕ
  deriving DecidableEq

/-- The table has one row for a hash. -/
structure TransactionsTable (Hash : Type) where
  rows : List (MempoolRow Hash)
  nodup : (rows.map fun row => row.hash).Nodup

def protocolUpgradeTxType : ℕ := 0xfe

section Statements

variable {Hash : Type} [DecidableEq Hash]

/-- The row with another flag, if it is selected. -/
def MempoolRow.mark (inMempool : Bool) (p : MempoolRow Hash → Bool) (row : MempoolRow Hash) :
    MempoolRow Hash :=
  if p row then { row with inMempool } else row

omit [DecidableEq Hash] in
theorem MempoolRow.toTransactionRow_mark (inMempool : Bool) (p : MempoolRow Hash → Bool)
    (row : MempoolRow Hash) : (row.mark inMempool p).toTransactionRow = row.toTransactionRow := by
  unfold MempoolRow.mark
  split <;> rfl

def TransactionsTable.setInMempool (t : TransactionsTable Hash) (inMempool : Bool)
    (p : MempoolRow Hash → Bool) : TransactionsTable Hash where
  rows := t.rows.map (MempoolRow.mark inMempool p)
  nodup := nodup_map_update
    (fun row => congrArg TransactionRow.hash (row.toTransactionRow_mark inMempool p)) t.nodup

def TransactionsTable.updateStashed (t : TransactionsTable Hash) (stashed : List EVMAddress) :
    TransactionsTable Hash :=
  t.setInMempool false fun row => row.inMempool ∧ row.initiatorAddress ∈ stashed

def TransactionsTable.deletePurged (t : TransactionsTable Hash) (purged : List EVMAddress) :
    TransactionsTable Hash where
  rows := t.rows.filter fun row => ¬ (row.inMempool ∧ row.initiatorAddress ∈ purged)
  nodup := t.nodup.sublist (List.filter_sublist.map _)

/-- The `WHERE` clause of the last statement. -/
def MempoolRow.IsLoadable (gasPerPubdata feePerGas : ℕ) (row : MempoolRow Hash) : Prop :=
  row.miniblockNumber = none ∧ row.inMempool = false ∧ row.error = none
    ∧ (row.isPriority = true
      ∨ feePerGas ≤ row.maxFeePerGas ∧ gasPerPubdata ≤ row.gasPerPubdataLimit)
    ∧ row.txFormat ≠ protocolUpgradeTxType
deriving Decidable

/-- The `ORDER BY` clause: priority operations first, by their ids (a missing id is last), then by
the time of arrival. -/
def MempoolRow.loadKey (row : MempoolRow Hash) : Bool ×ₗ WithTop ℕ ×ₗ ℕ :=
  toLex (!row.isPriority, toLex (row.priorityOpId.elim ⊤ (↑), row.receivedAt))

def TransactionsTable.selected (t : TransactionsTable Hash) (gasPerPubdata feePerGas limit : ℕ) :
    List (MempoolRow Hash) :=
  selectFirst (fun row row' => row.loadKey ≤ row'.loadKey) limit
    (t.rows.filter fun row => row.IsLoadable gasPerPubdata feePerGas)

/-- The last statement: the selected rows are in the mempool, and are returned. -/
def TransactionsTable.load (t : TransactionsTable Hash) (gasPerPubdata feePerGas limit : ℕ) :
    TransactionsTable Hash × List (MempoolRow Hash) :=
  let selected := t.selected gasPerPubdata feePerGas limit
  (t.setInMempool true fun row => row.hash ∈ selected.map fun row => row.hash,
    selected.map fun row => { row with inMempool := true })

def syncMempool (t : TransactionsTable Hash) (stashed purged : List EVMAddress)
    (gasPerPubdata feePerGas limit : ℕ) : TransactionsTable Hash × List (MempoolRow Hash) :=
  ((t.updateStashed stashed).deletePurged purged).load gasPerPubdata feePerGas limit

end Statements

section Deposits

variable {Hash : Type} [DecidableEq Hash] {t : TransactionsTable Hash}
  {stashed purged : List EVMAddress} {gasPerPubdata feePerGas limit : ℕ}

def MempoolRow.IsPurged (stashed purged : List EVMAddress) (row : MempoolRow Hash) : Prop :=
  row.inMempool = true ∧ row.initiatorAddress ∈ purged ∧ row.initiatorAddress ∉ stashed

variable {row : TransactionRow Hash}

omit [DecidableEq Hash] in
theorem TransactionsTable.mem_setInMempool {inMempool : Bool} {p : MempoolRow Hash → Bool} :
    (∃ row' ∈ (t.setInMempool inMempool p).rows, row'.toTransactionRow = row)
      ↔ ∃ row' ∈ t.rows, row'.toTransactionRow = row := by
  constructor
  · rintro ⟨row', hrow', rfl⟩
    obtain ⟨old, hold, rfl⟩ := List.mem_map.1 hrow'
    exact ⟨old, hold, (old.toTransactionRow_mark _ _).symm⟩
  · rintro ⟨old, hold, rfl⟩
    exact ⟨_, List.mem_map_of_mem hold, old.toTransactionRow_mark _ _⟩

theorem TransactionsTable.mem_syncMempool :
    (∃ row' ∈ (syncMempool t stashed purged gasPerPubdata feePerGas limit).1.rows,
        row'.toTransactionRow = row)
      ↔ ∃ row' ∈ t.rows, row'.toTransactionRow = row ∧ ¬ row'.IsPurged stashed purged := by
  rw [syncMempool, load, mem_setInMempool]
  constructor
  · rintro ⟨row', hrow', rfl⟩
    obtain ⟨hmem, hkept⟩ := List.mem_filter.1 hrow'
    obtain ⟨old, hold, rfl⟩ := List.mem_map.1 hmem
    refine ⟨old, hold, (old.toTransactionRow_mark _ _).symm, ?_⟩
    rintro ⟨hin, hpurged, hstashed⟩
    rw [MempoolRow.mark, if_neg (by simp [hstashed])] at hkept
    exact of_decide_eq_true hkept ⟨hin, hpurged⟩
  · rintro ⟨old, hold, rfl, hnot⟩
    refine ⟨_, List.mem_filter.2 ⟨List.mem_map_of_mem hold, ?_⟩, old.toTransactionRow_mark _ _⟩
    by_cases hstashed : old.inMempool = true ∧ old.initiatorAddress ∈ stashed
    · rw [MempoolRow.mark, if_pos (decide_eq_true hstashed)]
      simp
    · rw [MempoolRow.mark, if_neg (by simpa using hstashed)]
      exact decide_eq_true fun hboth => hnot ⟨hboth.1, hboth.2, fun hs => hstashed ⟨hboth.1, hs⟩⟩

section Loading

variable (t gasPerPubdata feePerGas limit)

def TransactionsTable.loadable : List (MempoolRow Hash) :=
  t.rows.filter fun row => row.IsLoadable gasPerPubdata feePerGas

/-- The hashes that the `n`-th of a series of calls returns, when no accounts are given back. -/
def TransactionsTable.loads : TransactionsTable Hash → ℕ → List Hash
  | t, 0 => (syncMempool t [] [] gasPerPubdata feePerGas limit).2.map fun row => row.hash
  | t, n + 1 => (syncMempool t [] [] gasPerPubdata feePerGas limit).1.loads n

end Loading

omit [DecidableEq Hash] in
theorem TransactionsTable.eq_of_rows {t t' : TransactionsTable Hash} (h : t.rows = t'.rows) :
    t = t' := by
  cases t
  cases t'
  cases h
  rfl

theorem syncMempool_nil : syncMempool t [] [] gasPerPubdata feePerGas limit
    = t.load gasPerPubdata feePerGas limit := by
  have hsame : (t.updateStashed []).deletePurged [] = t := by
    have hmark : (MempoolRow.mark false fun _ => false : MempoolRow Hash → _) = id := rfl
    refine TransactionsTable.eq_of_rows ?_
    simp [TransactionsTable.updateStashed, TransactionsTable.setInMempool,
      TransactionsTable.deletePurged, hmark]
  rw [syncMempool, hsame]

theorem TransactionsTable.loads_zero : t.loads gasPerPubdata feePerGas limit 0
    = (t.selected gasPerPubdata feePerGas limit).map fun row => row.hash := by
  rw [loads, syncMempool_nil, load, List.map_map]
  rfl

theorem TransactionsTable.loadable_load : (t.load gasPerPubdata feePerGas limit).1.loadable
      gasPerPubdata feePerGas
    = (t.loadable gasPerPubdata feePerGas).filter fun row =>
        row.hash ∉ (t.selected gasPerPubdata feePerGas limit).map fun row => row.hash := by
  unfold loadable load setInMempool
  rw [List.filter_map, List.filter_filter]
  set hashes := (t.selected gasPerPubdata feePerGas limit).map fun row => row.hash
  have hfilter : ((fun row : MempoolRow Hash => decide (row.IsLoadable gasPerPubdata feePerGas))
        ∘ MempoolRow.mark true fun row => row.hash ∈ hashes)
      = fun row => decide (row.hash ∉ hashes) && decide
        (row.IsLoadable gasPerPubdata feePerGas) := by
    funext row
    by_cases hrow : row.hash ∈ hashes
    · simp [MempoolRow.mark, hrow, MempoolRow.IsLoadable]
    · simp [MempoolRow.mark, hrow]
  rw [hfilter]
  -- rows that are not selected are not changed
  refine (List.map_congr_left fun row hrow => ?_).trans (List.map_id _)
  obtain ⟨-, hkept⟩ := List.mem_filter.1 hrow
  rw [Bool.and_eq_true] at hkept
  rw [MempoolRow.mark, if_neg (by simpa using of_decide_eq_true hkept.1)]
  rfl

variable {row : MempoolRow Hash}

/-- **Rows are loaded in order.**  In a series of calls every row that may be loaded is, and no
later than the rows that come after it. -/
theorem TransactionsTable.loadedInOrder (hlimit : 0 < limit)
    (hrow : row ∈ t.loadable gasPerPubdata feePerGas) :
    ∃ n, row.hash ∈ t.loads gasPerPubdata feePerGas limit n
      ∧ ∀ row' ∈ t.loadable gasPerPubdata feePerGas, row'.loadKey < row.loadKey →
        ∃ m ≤ n, row'.hash ∈ t.loads gasPerPubdata feePerGas limit m := by
  -- every call that does not return the row returns others
  induction hsize : (t.loadable gasPerPubdata feePerGas).length using Nat.strong_induction_on
    generalizing t with
  | _ size ih =>
    subst hsize
    by_cases hnow : row.hash ∈ (t.selected gasPerPubdata feePerGas limit).map fun row => row.hash
    · refine ⟨0, by rw [loads_zero]; exact hnow, fun row' hrow' hlt => ⟨0, le_rfl, ?_⟩⟩
      rw [loads_zero]
      by_contra hnot
      obtain ⟨first, hfirst, hhash⟩ := List.mem_map.1 hnow
      obtain rfl : first = row := List.inj_on_of_nodup_map t.nodup
        (List.mem_filter.1 (mem_of_mem_selectFirst hfirst)).1 (List.mem_filter.1 hrow).1 hhash
      have hle := @le_of_not_mem_selectFirst _ (fun row row' : MempoolRow Hash =>
        row.loadKey ≤ row'.loadKey) _ limit _ first row' _ _ hfirst hrow'
        fun hmem => hnot (List.mem_map_of_mem hmem)
      exact absurd hlt (not_lt_of_ge hle)
    · obtain ⟨other, hother⟩ := List.exists_mem_of_ne_nil _
        (@selectFirst_ne_nil _ (fun row row' : MempoolRow Hash => row.loadKey ≤ row'.loadKey) _
          limit _ row hlimit hrow)
      have hafter := @loadable_load Hash _ t gasPerPubdata feePerGas limit
      have hsmaller : ((t.load gasPerPubdata feePerGas limit).1.loadable gasPerPubdata
          feePerGas).length < (t.loadable gasPerPubdata feePerGas).length := by
        rw [hafter, List.length_filter_lt_length_iff_exists]
        exact ⟨other, mem_of_mem_selectFirst hother, by
          simpa using ⟨other, hother, rfl⟩⟩
      obtain ⟨n, hn, hbefore⟩ := @ih _ hsmaller (t.load gasPerPubdata feePerGas limit).1
        (hafter ▸ List.mem_filter.2 ⟨hrow, decide_eq_true hnow⟩) rfl
      refine ⟨n + 1, by rw [loads, syncMempool_nil]; exact hn, fun row' hrow' hlt => ?_⟩
      by_cases hnow' : row'.hash
          ∈ (t.selected gasPerPubdata feePerGas limit).map fun row => row.hash
      · exact ⟨0, Nat.zero_le _, by rw [loads_zero]; exact hnow'⟩
      · obtain ⟨m, hm, hload⟩ := hbefore row'
          (hafter ▸ List.mem_filter.2 ⟨hrow', decide_eq_true hnow'⟩) hlt
        exact ⟨m + 1, Nat.succ_le_succ hm, by rw [loads, syncMempool_nil]; exact hload⟩

/-! ### Deposits -/

def MempoolRow.IsPending (row : MempoolRow Hash) : Prop :=
  row.isPriority = true ∧ row.miniblockNumber = none

/-- A pending priority operation that the mempool does not hold and that was not rejected. -/
def MempoolRow.IsWaiting (row : MempoolRow Hash) : Prop :=
  row.IsPending ∧ row.inMempool = false ∧ row.error = none
    ∧ row.txFormat ≠ protocolUpgradeTxType

omit [DecidableEq Hash] in
theorem MempoolRow.IsWaiting.mem_loadable (h : row.IsWaiting)
    (hrow : row ∈ t.rows) : row ∈ t.loadable gasPerPubdata feePerGas := by
  obtain ⟨⟨hpriority, hblock⟩, hmempool, herror, hformat⟩ := h
  exact List.mem_filter.2
    ⟨hrow, decide_eq_true ⟨hblock, hmempool, herror, .inl hpriority, hformat⟩⟩

/-- **Deposits and the mempool.**  No pending deposit is deleted exactly if each one in the mempool
whose initiator is purged has its initiator stashed too.  The others are loaded by further calls, in
order. -/
theorem syncMempool_keepsDeposits_iff (t : TransactionsTable Hash)
    (stashed purged : List EVMAddress) (gasPerPubdata feePerGas limit : ℕ) :
    ((∀ row ∈ t.rows, row.IsPending →
        ∃ row' ∈ (syncMempool t stashed purged gasPerPubdata feePerGas limit).1.rows,
          row'.toTransactionRow = row.toTransactionRow)
      ↔ ∀ row ∈ t.rows, row.IsPending → row.inMempool = true →
        row.initiatorAddress ∈ purged → row.initiatorAddress ∈ stashed)
    ∧ ∀ gasPerPubdata' feePerGas' limit', 0 < limit' →
      let after := (syncMempool t stashed purged gasPerPubdata feePerGas limit).1
      ∀ row ∈ after.rows, row.IsWaiting →
        ∃ n, row.hash ∈ after.loads gasPerPubdata' feePerGas' limit' n
          ∧ ∀ row' ∈ after.rows, row'.IsWaiting →
            ∀ id id', row.priorityOpId = some id → row'.priorityOpId = some id' → id' < id →
              ∃ m ≤ n, row'.hash ∈ after.loads gasPerPubdata' feePerGas' limit' m := by
  refine ⟨⟨fun hkept row hrow hpending hmempool hpurged => ?_, fun h row hrow hpending => ?_⟩, ?_⟩
  · by_contra hstashed
    -- the hash is that of one row, and this row is deleted
    obtain ⟨row', hrow', hsame, hnot⟩ :=
      TransactionsTable.mem_syncMempool.1 (hkept row hrow hpending)
    obtain rfl := List.inj_on_of_nodup_map t.nodup hrow' hrow (congrArg TransactionRow.hash hsame)
    exact hnot ⟨hmempool, hpurged, hstashed⟩
  · refine TransactionsTable.mem_syncMempool.2 ⟨row, hrow, rfl, fun hdeleted => ?_⟩
    exact hdeleted.2.2 (h row hrow hpending hdeleted.1 hdeleted.2.1)
  · intro gasPerPubdata' feePerGas' limit' hlimit after row hrow hwaiting
    obtain ⟨n, hn, hbefore⟩ :=
      TransactionsTable.loadedInOrder hlimit (hwaiting.mem_loadable hrow)
    refine ⟨n, hn, fun row' hrow' hwaiting' id id' hid hid' hlt => ?_⟩
    refine hbefore row' (hwaiting'.mem_loadable hrow') ?_
    unfold MempoolRow.loadKey
    rw [hwaiting.1.1, hwaiting'.1.1, hid, hid', Prod.Lex.toLex_lt_toLex]
    exact .inr ⟨rfl, Prod.Lex.toLex_lt_toLex.2 (.inl (WithTop.coe_lt_coe.2 hlt))⟩

def sampleDepositRow : TransactionRow L2CanonicalTransaction :=
  (createL1TxFromMessage id
    { common :=
        { schnorrSignature := ⟨List.replicate 64 1⟩
          encodedPublicKey := []
          blockHeight := 10
          txId := .replicate 32 7
          p2wpkhAddress := SampleAddress.key1 }
      amount := 50000
      input :=
        { receiverL2Address := .replicate 20 0x11
          l2ContractAddress := .replicate 20 0x22
          callData := [] }
      txOutputs := [] } 0).toRow 10 (.replicate 32 7)

def sampleDepositTable : TransactionsTable L2CanonicalTransaction where
  rows :=
    [{ toTransactionRow := sampleDepositRow
       miniblockNumber := none
       inMempool := false
       error := none
       txFormat := priorityOperationL2TxType
       receivedAt := 1000 }]
  nodup := List.nodup_singleton _

def sampleLoadedTable : TransactionsTable L2CanonicalTransaction :=
  (syncMempool sampleDepositTable [] [] 0 0 10).1

theorem syncMempool_keepsDeposits_other :
    (∀ row ∈ sampleLoadedTable.rows, row.IsPending → row.inMempool = true →
        row.initiatorAddress ∈ [FixedBytes.replicate 20 0x22] → row.initiatorAddress ∈ [])
      ∧ ∀ row ∈ sampleLoadedTable.rows, row.IsPending →
        ∃ row' ∈ (syncMempool sampleLoadedTable [] [.replicate 20 0x22] 0 0 10).1.rows,
          row'.toTransactionRow = row.toTransactionRow := by
  have hother : ∀ row ∈ sampleLoadedTable.rows,
      row.initiatorAddress ∉ [FixedBytes.replicate 20 0x22] := by
    decide +kernel
  have hcondition : ∀ row ∈ sampleLoadedTable.rows, row.IsPending → row.inMempool = true →
      row.initiatorAddress ∈ [FixedBytes.replicate 20 0x22] → row.initiatorAddress ∈ [] :=
    fun row hrow _ _ hpurged => absurd hpurged (hother row hrow)
  exact ⟨hcondition, (syncMempool_keepsDeposits_iff _ _ _ _ _ _).1.2 hcondition⟩

/-- **A deposit is deleted.**  It waits in the mempool for its block when the account of its
receiver is purged. -/
theorem syncMempool_deletes_deposit :
    (∃ row ∈ sampleLoadedTable.rows, row.toTransactionRow = sampleDepositRow
        ∧ row.IsPending ∧ row.inMempool = true)
      ∧ sampleDepositRow.initiatorAddress = .replicate 20 0x11
      ∧ (syncMempool sampleLoadedTable [] [.replicate 20 0x11] 0 0 10).1.rows = [] := by
  refine ⟨?_, rfl, by decide +kernel⟩
  have hloaded : ∃ row ∈ sampleLoadedTable.rows, row.toTransactionRow = sampleDepositRow
      ∧ (row.isPriority = true ∧ row.miniblockNumber = none) ∧ row.inMempool = true := by
    decide +kernel
  exact hloaded

end Deposits
