/-
Priority ids along runs of the watcher.

The mempool takes deposits in the order of their ids, one after the other, so an id that is missing
from the table blocks all deposits behind it.  Ids are given out from a counter in memory before the
insertions are tried.  As long as that counter is one past the highest stored id whenever an
iteration begins, the stored ids are `0, 1, ..., n - 1`; a database error breaks this, because the
recovery does not read the counter back.

* `watch_gapFree` — the ids of every run in which the counter is current.
-/
import ViaCore.BtcWatch
import ViaCore.MempoolOrder

/-! ### Stored ids and the mempool -/

section Draining

open Mempool

variable {Hash : Type}

def priorityIds (table : List (TransactionRow Hash)) : List ℕ :=
  table.filterMap TransactionRow.priorityOpId

def GapFree (table : List (TransactionRow Hash)) : Prop :=
  ∃ n, (priorityIds table).Perm (List.range n)

def drain {Account : Type} [LinearOrder Account] (filter : L2TxFilter) :
    ℕ → MempoolStore Hash Account → List (Transaction Hash Account)
  | 0, _ => []
  | k + 1, s =>
    match s.nextTransaction filter with
    | .ok (some tx, s) => tx :: drain filter k s
    | _ => []

/-- A node starts with the stored deposits in its mempool, and deposit `id` comes out at some
time. -/
def GetsTo (Account : Type) [LinearOrder Account] (capacity : ℕ) (filter : L2TxFilter)
    (table : List (TransactionRow Hash)) (id : ℕ) : Prop :=
  ∃ (s : MempoolStore Hash Account) (k : ℕ), (MempoolStore.new 0 capacity).insert (fun _ => none)
    ((table.filterMap TransactionRow.toL1Tx).map .l1) = .ok s ∧ id ∈ serialIds (drain filter k s)

variable {Account : Type} [LinearOrder Account] {s : MempoolStore Hash Account} {ids : List ℕ}
  {filter : L2TxFilter}

variable (s ids) in
/-- The mempool holds the deposits with these ids and nothing else. -/
structure Holds : Prop where
  queue : s.l2PriorityQueue = []
  waiting : ∀ i, (s.l1Transactions.lookup i).map (·.commonData.serialId)
    = if i ∈ ids then some i else none

theorem Holds.insert (h : Holds s ids) (initialNonces : Account → Option UInt32)
    (txs : List (L1Tx Hash)) : ∃ s', s.insert initialNonces (txs.map .l1) = .ok s'
      ∧ s'.nextPriorityId = s.nextPriorityId
      ∧ Holds s' (ids ++ txs.map (·.commonData.serialId)) := by
  induction txs generalizing s ids with
  | nil => exact ⟨s, rfl, rfl, by simpa using h⟩
  | cons tx rest ih =>
    have hs : Holds { s with l1Transactions := s.l1Transactions.insert tx.commonData.serialId tx }
        (ids ++ [tx.commonData.serialId]) := by
      refine ⟨h.queue, fun i => ?_⟩
      by_cases hi : i = tx.commonData.serialId
      · subst hi
        simp
      · simpa [AList.lookup_insert_ne hi, hi] using h.waiting i
    rw [List.map_cons, List.map_cons, List.append_cons]
    exact ih hs

theorem Holds.next (h : Holds s ids) (filter : L2TxFilter) :
    (s.nextPriorityId ∈ ids ∧ ∃ s' : MempoolStore Hash Account,
      s'.nextPriorityId = nextId s.nextPriorityId ∧ Holds s' (ids.filter (· ≠ s.nextPriorityId))
      ∧ ∀ k, serialIds (drain filter (k + 1) s)
        = s.nextPriorityId :: serialIds (drain filter k s'))
    ∨ s.nextPriorityId ∉ ids ∧ ∀ k, drain filter k s = [] := by
  have hwaiting := h.waiting s.nextPriorityId
  by_cases hn : s.nextPriorityId ∈ ids
  · rw [if_pos hn] at hwaiting
    obtain ⟨tx, htx, hid⟩ := Option.map_eq_some_iff.1 hwaiting
    refine .inl ⟨hn, { s with
      l1Transactions := s.l1Transactions.erase s.nextPriorityId
      nextPriorityId := nextId s.nextPriorityId }, rfl, ⟨h.queue, fun i => ?_⟩, fun k => ?_⟩
    · by_cases hi : i = s.nextPriorityId
      · subst hi
        simp
      · simpa [AList.lookup_erase_ne hi, hi] using h.waiting i
    · rw [drain, MempoolStore.nextTransaction, htx]
      exact congrArg (· :: _) hid
  · rw [if_neg hn, Option.map_eq_none_iff] at hwaiting
    refine .inr ⟨hn, fun k => ?_⟩
    -- without pointers there is nothing else to give out
    cases k with
    | zero => rfl
    | succ k =>
      rw [drain, MempoolStore.nextTransaction, hwaiting, MempoolStore.bestPointer, h.queue]
      rfl

theorem Holds.of_mem_drain (h : Holds s ids) {k id : ℕ} (hid : id ∈ serialIds (drain filter k s)) :
    ∀ i, s.nextPriorityId ≤ i → i ≤ id → i ∈ ids := by
  induction k generalizing s ids with
  | zero => cases hid
  | succ k ih =>
    intro i hle hi
    rcases h.next filter with ⟨hn, s', hnext, hs', hdrain⟩ | ⟨-, hdrain⟩
    · by_cases heq : i = s.nextPriorityId
      · exact heq ▸ hn
      rw [hdrain] at hid
      rcases List.mem_cons.1 hid with rfl | hid
      · omega
      -- the counter may wrap around, to a smaller one
      have hle' : s'.nextPriorityId ≤ i := by
        rw [hnext]
        exact (Nat.mod_le _ _).trans (by omega)
      exact (List.mem_filter.1 (ih hs' hid i hle' hi)).1
    · rw [hdrain] at hid
      cases hid

theorem Holds.mem_drain (h : Holds s ids) (filter : L2TxFilter) {id : ℕ} (hlt : id < 2 ^ 64)
    (hle : s.nextPriorityId ≤ id)
    (hids : ∀ i, s.nextPriorityId ≤ i → i ≤ id → i ∈ ids) :
    ∃ k, id ∈ serialIds (drain filter k s) := by
  induction hm : id + 1 - s.nextPriorityId generalizing s ids with
  | zero => omega
  | succ m ih =>
    rcases h.next filter with ⟨-, s', hnext, hs', hdrain⟩ | ⟨hn, -⟩
    · by_cases heq : id = s.nextPriorityId
      · exact ⟨1, by rw [hdrain, heq]; exact List.mem_cons_self⟩
      rw [nextId, Nat.mod_eq_of_lt (by omega)] at hnext
      obtain ⟨k, hk⟩ := ih hs' (by omega) (fun i hi hi' => List.mem_filter.2
        ⟨hids i (by omega) hi', decide_eq_true (by omega)⟩) (by omega)
      exact ⟨k + 1, by rw [hdrain]; exact List.mem_cons_of_mem _ hk⟩
    · exact absurd (hids _ le_rfl hle) hn

/-- **The mempool** gets to a deposit exactly when all deposits before it are stored.  Ids are
64-bit numbers. -/
theorem getsTo_iff {capacity id : ℕ} {table : List (TransactionRow Hash)} (hid : id < 2 ^ 64) :
    GetsTo Account capacity filter table id ↔ ∀ i ≤ id, i ∈ priorityIds table := by
  have hids : (table.filterMap TransactionRow.toL1Tx).map (·.commonData.serialId)
      = priorityIds table := by
    rw [List.map_filterMap]
    refine List.filterMap_congr fun row _ => ?_
    simp [TransactionRow.toL1Tx, Function.comp_def]
  have hnew : Holds (.new 0 capacity : MempoolStore Hash Account) [] := ⟨rfl, fun _ => by rfl⟩
  obtain ⟨s, hok, hnext, hs⟩ := hnew.insert (fun _ => none) (table.filterMap TransactionRow.toL1Tx)
  rw [hids, List.nil_append] at hs
  constructor
  · rintro ⟨s', k, hok', hmem⟩ i hi
    cases hok.symm.trans hok'
    exact hs.of_mem_drain hmem i (hnext ▸ Nat.zero_le i) hi
  · intro h
    obtain ⟨k, hk⟩ := hs.mem_drain filter hid (hnext ▸ Nat.zero_le id) fun i _ => h i
    exact ⟨s, k, hok, hk⟩

end Draining

section Invariant

variable {Address Hash : Type} {canonicalHash : L2CanonicalTransaction → Hash}
  {ops : List L2CanonicalTransaction} {table : List (TransactionRow Hash)} {n : ℕ}

variable (canonicalHash ops table n) in
/-- `n` deposits are stored, under the ids below `n`, and of the operations of the run only those
with such nonces. -/
structure IdsInv : Prop where
  ids : priorityIds table = List.range n
  flagged : ∀ row ∈ table, row.isPriority = row.priorityOpId.isSome
  hashes : ∀ row ∈ table, ∀ c ∈ ops, row.hash = canonicalHash c → c.nonce < n

theorem IdsInv.empty : IdsInv canonicalHash ops [] 0 where
  ids := rfl
  flagged _ hrow := absurd hrow List.not_mem_nil
  hashes _ hrow := absurd hrow List.not_mem_nil

theorem IdsInv.nextPriorityId_eq (h : IdsInv canonicalHash ops table n) :
    nextPriorityId table = n := by
  have hfilter : (table.filter TransactionRow.isPriority).filterMap TransactionRow.priorityOpId
      = List.range n := by
    rw [List.filterMap_filter, ← h.ids]
    refine List.filterMap_congr fun row hrow => ?_
    rw [h.flagged row hrow]
    cases row.priorityOpId with
    | none => rfl
    | some id => rfl
  unfold nextPriorityId lastPriorityId
  rw [hfilter]
  cases n with
  | zero => rfl
  | succ n =>
    have hmax : (List.range (n + 1)).max? = some n := by
      rw [List.max?_eq_some_iff]
      refine ⟨List.mem_range.2 (Nat.lt_succ_self n), fun i hi => ?_⟩
      have := List.mem_range.1 hi
      omega
    rw [hmax]
    rfl

theorem IdsInv.gapFree (h : IdsInv canonicalHash ops table n) : GapFree table :=
  ⟨n, h.ids ▸ List.Perm.refl _⟩

variable [DecidableEq Hash]

theorem IdsInv.other (h : IdsInv canonicalHash ops table n) (row : L2Row Hash)
    (hrow : ∀ c ∈ ops, row.row.hash ≠ canonicalHash c) :
    IdsInv canonicalHash ops (insertIfAbsent TransactionRow.hash table row.row) n := by
  unfold insertIfAbsent
  split
  · exact h
  · refine ⟨?_, ?_, ?_⟩
    · rw [priorityIds, List.filterMap_append, List.filterMap_cons_none row.priorityOpId]
      simpa [priorityIds] using h.ids
    · intro r hr
      rcases List.mem_append.1 hr with hr | hr
      · exact h.flagged r hr
      · rw [List.mem_singleton.1 hr, row.isPriority, row.priorityOpId]
        rfl
    · intro r hr c hmem hc
      rcases List.mem_append.1 hr with hr | hr
      · exact h.hashes r hr c hmem hc
      · rw [List.mem_singleton.1 hr] at hc
        exact absurd hc (hrow c hmem)

theorem IdsInv.store (hinj : Set.InjOn canonicalHash {c | c ∈ ops})
    (h : IdsInv canonicalHash ops table n) {ds : List (L1ToL2Message Address)}
    (hds : ∀ c ∈ operationsOf n ds, c ∈ ops) :
    IdsInv canonicalHash ops ((numberedOps canonicalHash n ds).foldl insertPriorityOp table)
      (n + ds.length) := by
  have hdistinct : HashesDistinct canonicalHash table (operationsOf n ds) := by
    refine ⟨hinj.mono hds, fun row hrow c hc heq => ?_⟩
    have hbelow := h.hashes row hrow c (hds c hc) heq
    have hfrom := (nonce_of_mem_operationsOf hc).1
    omega
  rw [foldl_insertPriorityOp hdistinct]
  refine ⟨?_, ?_, ?_⟩
  · have hnew : ((numberedOps canonicalHash n ds).map priorityOpRow).filterMap
        TransactionRow.priorityOpId = List.range' n ds.length := by
      rw [List.filterMap_map, ← @numberedOps_serialIds _ _ canonicalHash n ds]
      exact congrFun List.filterMap_eq_map' _
    rw [priorityIds, List.filterMap_append, hnew, ← priorityIds, h.ids, List.range_eq_range',
      List.range_eq_range']
    have happend := @List.range'_append 0 n ds.length 1
    rw [Nat.one_mul, Nat.zero_add] at happend
    exact happend
  · intro r hr
    rcases List.mem_append.1 hr with hr | hr
    · exact h.flagged r hr
    · obtain ⟨op, -, rfl⟩ := List.mem_map.1 hr
      rfl
  · intro r hr c hmem hc
    rcases List.mem_append.1 hr with hr | hr
    · have := h.hashes r hr c hmem hc
      omega
    · have hhash := List.mem_map_of_mem (f := TransactionRow.hash) hr
      rw [numberedOps_hashes] at hhash
      obtain ⟨c', hc', heq⟩ := List.mem_map.1 hhash
      -- the stored hash determines the operation, whose nonce is its id
      obtain rfl : c' = c := hinj (hds c' hc') hmem (heq.trans hc)
      exact (nonce_of_mem_operationsOf hc').2

end Invariant

section GapFreeRuns

variable {Address Hash : Type} [DecidableEq Hash] {canonicalHash : L2CanonicalTransaction → Hash}
  {B : RustBitcoin Address}

/-- An iteration begins with the counter one past the highest stored id. -/
def CounterCurrent (t : WatchTrace Address Hash) (e : WatchEvent Address Hash) : Prop :=
  match e, t.phase with
  | .iterate _ _, .running w => w.processor.nextExpectedPriorityId = nextPriorityId t.table
  | _, _ => True

variable (canonicalHash B) in
/-- An iteration makes operations of the list, and the row of another component has none of their
hashes. -/
def MakesOnly (ops : List L2CanonicalTransaction) (t : WatchTrace Address Hash)
    (e : WatchEvent Address Hash) : Prop :=
  match e, t.phase with
  | .iterate answers _, .running w => ∀ c ∈ w.operations B t.table answers, c ∈ ops
  | .other row, _ => ∀ c ∈ ops, row.row.hash ≠ canonicalHash c
  | _, _ => True

instance (t : WatchTrace Address Hash) (e : WatchEvent Address Hash) :
    Decidable (CounterCurrent t e) := by
  unfold CounterCurrent
  split <;> infer_instance

instance (ops : List L2CanonicalTransaction) (t : WatchTrace Address Hash)
    (e : WatchEvent Address Hash) : Decidable (MakesOnly canonicalHash B ops t e) := by
  unfold MakesOnly
  split <;> infer_instance

section

variable {ops : List L2CanonicalTransaction} (hinj : Set.InjOn canonicalHash {c | c ∈ ops})
include hinj

theorem IdsInv.iterate {table : List (TransactionRow Hash)} {n : ℕ}
    (h : IdsInv canonicalHash ops table n) (w : BtcWatch Address)
    (hcounter : w.processor.nextExpectedPriorityId = n) (answers : IterationAnswers)
    (hops : ∀ c ∈ w.operations B table answers, c ∈ ops) :
    ∃ m, IdsInv canonicalHash ops (w.loopIteration canonicalHash B table answers).2.1 m := by
  rcases @loopIteration_cases _ _ _ canonicalHash B table w answers
    with ⟨_, -, -, -, hresult⟩ | ⟨-, htable, -⟩ | ⟨_, msgs, moved, stored, hhands⟩
  · rw [hresult]
    exact ⟨n, h⟩
  · rw [htable]
    exact ⟨n, h⟩
  · rw [hhands.operations_eq, hcounter] at hops
    rw [hhands.rows, numberedOps_take, hcounter]
    exact ⟨_, h.store hinj fun c hc => hops c (operationsOf_take_subset _ _ _ hc)⟩

/-- **Every event** whose counter is current keeps the invariant. -/
theorem IdsInv.step {t t' : WatchTrace Address Hash}
    {e : WatchEvent Address Hash} (h : ∃ n, IdsInv canonicalHash ops t.table n)
    (hstep : (watchStep canonicalHash B).under
      (fun t e => CounterCurrent t e ∧ MakesOnly canonicalHash B ops t e) t e t') :
    ∃ n, IdsInv canonicalHash ops t'.table n := by
  obtain ⟨n, hn⟩ := h
  obtain ⟨hstep, hcounter, hmakes⟩ := hstep
  cases e with
  | start config indexer answers =>
    rw [WatchTrace.step_start hstep]
    exact ⟨n, hn⟩
  | iterate answers killed =>
    obtain ⟨w, hphase, rfl⟩ := WatchTrace.step_iterate hstep
    -- the counter is one past the stored ids
    have hcurrent : w.processor.nextExpectedPriorityId = n := by
      simp only [CounterCurrent, hphase] at hcounter
      rw [hcounter, hn.nextPriorityId_eq]
    simp only [MakesOnly, hphase] at hmakes
    exact hn.iterate hinj w hcurrent answers hmakes
  | recover answers =>
    obtain ⟨w, -, rfl⟩ := WatchTrace.step_recover hstep
    exact ⟨n, hn⟩
  | stop =>
    cases hstep
    exact ⟨n, hn⟩
  | other row =>
    cases hstep
    exact ⟨n, hn.other row hmakes⟩

/-- **Gap-free ids.**  In every run in which each iteration begins with a current counter, the
stored ids are `0, ..., n - 1`, and the mempool gets to every stored deposit. -/
theorem watch_gapFree {es : List (WatchEvent Address Hash)} {t : WatchTrace Address Hash}
    (hrun : Run ((watchStep canonicalHash B).under
      fun t e => CounterCurrent t e ∧ MakesOnly canonicalHash B ops t e)
        (.initial Address Hash) es t) (Account : Type) [LinearOrder Account] (capacity : ℕ)
    (filter : Mempool.L2TxFilter) :
    GapFree t.table ∧ ∀ id ∈ priorityIds t.table, id < 2 ^ 64 →
      GetsTo Account capacity filter t.table id := by
  obtain ⟨n, hn⟩ := hrun.invariant (fun _ _ _ h hstep => IdsInv.step hinj h hstep)
    ⟨0, IdsInv.empty⟩
  refine ⟨hn.gapFree, fun id hid hlt => (getsTo_iff hlt).2 fun i hi => ?_⟩
  rw [hn.ids, List.mem_range] at hid ⊢
  omega

end

def sampleSecondDeposit : Txid × Transaction :=
  (.ofNat 32 0x5971f666a538f02d88137e3eb182723b3ff8f8e7845acf2e3c0c0deb1f5b6532,
    SampleAddress.key2.inscribe (.replicate 32 10)
      [.l1ToL2Message
        { receiverL2Address := .replicate 20 0x33
          l2ContractAddress := .replicate 20 0x22
          callData := [] }]
      [{ value := 30000, scriptPubkey := SampleAddress.key3.script }])

def watchBitcoin : RustBitcoin SampleAddress := tableBitcoin [sampleDeposit, sampleSecondDeposit]

def sampleWatchConfig : WatchConfig :=
  { network := .testnet, confirmationsForBtcMsg := none, btcBlocksLag := 1 }

/-- The chain ends at block 10, which holds both deposits; statement number `fault` fails. -/
def sampleAnswers (fault : Option ℕ) : IterationAnswers where
  tip := some 10
  fetchBlock height := if height = 10 then some [sampleDeposit.2, sampleSecondDeposit.2] else none
  fault := fault.map fun n => ⟨n, false⟩

/-- The watcher is killed before the second insertion and started again. -/
def sampleRestartRun : List (WatchEvent SampleAddress L2CanonicalTransaction) :=
  [.start sampleWatchConfig sampleIndexer ⟨some 10, false⟩,
    .iterate (sampleAnswers (some 3)) true,
    .start sampleWatchConfig sampleIndexer ⟨some 10, false⟩,
    .iterate (sampleAnswers none) false]

def sampleOperations : List L2CanonicalTransaction :=
  operationsOf 0 (newDeposits watchBitcoin ([] : List (TransactionRow L2CanonicalTransaction)) .key3
    ((sampleIndexer.processBlocks watchBitcoin (sampleAnswers none).fetchBlock 10
      10).2.toOption.getD []))

theorem watch_gapFree_restart :
    ∃ t, Run ((watchStep id watchBitcoin).under
        fun t e => CounterCurrent t e ∧ MakesOnly id watchBitcoin sampleOperations t e)
          (.initial SampleAddress L2CanonicalTransaction) sampleRestartRun t
      ∧ priorityIds t.table = [0, 1]
      ∧ GapFree t.table
      ∧ ∀ i ∈ priorityIds t.table, i < 2 ^ 64 → GetsTo ℕ 10 Mempool.sampleFilter t.table i :=
  Run.witnessUnder (fun _ hrun hids => ⟨hids, watch_gapFree (Set.injOn_id _) hrun ℕ 10 _⟩)
    (by decide +kernel)

def sampleRecoveryRun : List (WatchEvent SampleAddress L2CanonicalTransaction) :=
  [.start sampleWatchConfig sampleIndexer ⟨some 10, false⟩,
    .iterate (sampleAnswers (some 3)) false,
    .recover ⟨some 10, false⟩,
    .iterate (sampleAnswers none) false]

/-- **A recovery leaves a gap.**  The counter has moved over both deposits when the second insertion
fails; it is stored under id 2 then, and the mempool stops before it. -/
theorem watch_recovery_gap :
    ∃ t, Run (watchStep id watchBitcoin) (.initial SampleAddress L2CanonicalTransaction)
        sampleRecoveryRun t
      ∧ priorityIds t.table = [0, 2]
      ∧ ¬ GapFree t.table
      ∧ ∀ filter, ¬ GetsTo ℕ 10 filter t.table 2 := by
  refine Run.witness (P := fun t => priorityIds t.table = [0, 2]) ?_ (by decide +kernel)
  intro t _ hids
  refine ⟨hids, ?_, ?_⟩
  · rintro ⟨n, hn⟩
    have hlength := hn.length_eq
    rw [hids, List.length_range] at hlength
    have htwo : 2 ∈ List.range n := hn.mem_iff.1 (hids ▸ by decide)
    have hlt := List.mem_range.1 htwo
    simp only [List.length_cons, List.length_nil] at hlength
    omega
  · intro filter h
    have hone : 1 ∈ priorityIds t.table := (getsTo_iff (by decide)).1 h 1 (by decide)
    rw [hids] at hone
    cases hone with
    | tail _ hone => cases hone with
      | tail _ hone => cases hone

end GapFreeRuns
