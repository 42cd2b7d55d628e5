/-
Net changes of the storage.

The deduplicator of a batch is fed with all storage logs of its transactions, the inverse logs of
reverted writes among them.  It should end up with the slots whose value has changed, however often
they went back and forth.  The storage logs of each second-layer block are deduplicated on their own
when the block is stored.

* `deduplicated_writes_netChange` — it does, and so do the blocks that are stored.
-/
import ViaCore.Deduplicator
import ViaCore.StorageTables

namespace StorageWritesDeduplicator

variable {Key Value : Type} [DecidableEq Key] {start storage : Key → Value} {key : Key}
  {log : StorageLogWithPreviousValue Key Value}
  {logs logs' : List (StorageLogWithPreviousValue Key Value)}

theorem replay_append (storage : Key → Value)
    (logs logs' : List (StorageLogWithPreviousValue Key Value)) :
    replay storage (logs ++ logs') = replay (replay storage logs) logs' := by
  induction logs generalizing storage with
  | nil => rfl
  | cons log logs ih =>
    rw [List.cons_append, replay, replay]
    split <;> exact ih _

theorem readsFrom_append :
    ReadsFrom storage (logs ++ logs') ↔
      ReadsFrom storage logs ∧ ReadsFrom (replay storage logs) logs' := by
  induction logs generalizing storage with
  | nil => simp [ReadsFrom, replay]
  | cons log logs ih =>
    rw [List.cons_append, ReadsFrom, ReadsFrom, replay]
    split
    · exact ih
    · rw [ih, and_assoc]

theorem replay_of_notMem (h : key ∉ logs.map StorageLogWithPreviousValue.key) :
    replay storage logs key = storage key := by
  induction logs generalizing storage with
  | nil => rfl
  | cons log logs ih =>
    rw [List.map_cons, List.mem_cons, not_or] at h
    rw [replay]
    split
    · exact ih h.2
    · rw [ih h.2, Function.update_of_ne h.1]

/-- Whether a write is an initial one is a property of the slot. -/
def KindsOf (isInitial : Key → Bool) (logs : List (StorageLogWithPreviousValue Key Value)) : Prop :=
  ∀ log ∈ logs, log.kind ≠ .read → decide (log.kind = .initialWrite) = isInitial log.key

variable [DecidableEq Value]

def changedKeys (start : Key → Value) (logs : List (StorageLogWithPreviousValue Key Value)) :
    Finset Key :=
  (logs.map StorageLogWithPreviousValue.key).toFinset.filter fun key =>
    replay start logs key ≠ start key

theorem mem_changedKeys : key ∈ changedKeys start logs ↔ replay start logs key ≠ start key := by
  rw [changedKeys, Finset.mem_filter, List.mem_toFinset, and_iff_right_iff_imp]
  intro hne
  by_contra hmem
  exact hne (replay_of_notMem hmem)

section Invariant

variable (compressedLen : Value → Value → UInt64) (isInitial : Key → Bool)

def countsOf (changed : Finset Key) (start storage : Key → Value) : DeduplicatedWritesMetrics where
  initialStorageWrites := ∑ key ∈ changed, if isInitial key then 1 else 0
  repeatedStorageWrites := ∑ key ∈ changed, if !isInitial key then 1 else 0
  totalUpdatedValuesSize := ∑ key ∈ changed, compressedLen (start key) (storage key)

/-- The deduplicator holds the slots that have changed, with the present value, and counts them. -/
structure NetChange (start storage : Key → Value) (changed : Finset Key)
    (dedup : StorageWritesDeduplicator Key Value) : Prop where
  learned : Learned start storage dedup.initialValues
  mem_changed : ∀ key, key ∈ changed ↔ storage key ≠ start key
  modified : ∀ key, dedup.modifiedKeyValues key =
    if storage key = start key then none
    else some ⟨storage key, compressedLen (start key) (storage key)⟩
  metrics : dedup.metrics = countsOf compressedLen isInitial changed start storage

variable {compressedLen isInitial} {changed : Finset Key}
  {dedup : StorageWritesDeduplicator Key Value}

omit [DecidableEq Value] in
theorem countsOf_insert (hkey : key ∉ changed) :
    countsOf compressedLen isInitial (insert key changed) start storage =
      (countsOf compressedLen isInitial changed start storage).change (isInitial key) 1
        (compressedLen (start key) (storage key)) := by
  simp only [countsOf, Finset.sum_insert hkey, DeduplicatedWritesMetrics.change]
  cases isInitial key <;> simp [add_comm]

omit [DecidableEq Value] in
theorem countsOf_update (hkey : key ∉ changed) (value : Value) :
    countsOf compressedLen isInitial changed start (Function.update storage key value) =
      countsOf compressedLen isInitial changed start storage := by
  simp only [countsOf, DeduplicatedWritesMetrics.mk.injEq, true_and]
  refine Finset.sum_congr rfl fun other hother => ?_
  rw [Function.update_of_ne (ne_of_mem_of_not_mem hother hkey)]

/-- **One write** keeps the invariant: the slot leaves the set and enters it again if the value that
is written is not the one at the start. -/
theorem NetChange.write (h : NetChange compressedLen isInitial start storage changed dedup)
    (hread : log.previousValue = storage log.key)
    (hkind : decide (log.kind = .initialWrite) = isInitial log.key) :
    NetChange compressedLen isInitial start (Function.update storage log.key log.value)
      (if log.value = start log.key then changed.erase log.key else insert log.key changed)
      (processWrite compressedLen dedup log).1 := by
  have hinitial : (dedup.initialValues log.key).getD log.previousValue = start log.key := by
    rw [hread, h.learned]
  have hslot := h.modified log.key
  refine ⟨h.learned.write compressedLen hread, fun key => ?_, fun key => ?_, ?_⟩
  · by_cases hkey : key = log.key
    · subst hkey
      by_cases hvalue : log.value = start log.key <;> simp [hvalue]
    · by_cases hvalue : log.value = start log.key <;> simp [hvalue, hkey, h.mem_changed]
  · have hother := h.modified key
    by_cases hkey : key = log.key
    · subst hkey
      by_cases hvalue : log.value = start log.key <;>
        by_cases hold : storage log.key = start log.key
        <;> simp [processWrite, hinitial, hslot, hold, hvalue, eq_comm]
    · by_cases hvalue : log.value = start log.key <;>
        by_cases hold : storage log.key = start log.key
        <;> simp [processWrite, hinitial, hslot, hold, hvalue, eq_comm, hkey, hother]
  · -- the counts of the other slots, to which the slot is added before and after the write
    have hrest : log.key ∉ changed.erase log.key := Finset.notMem_erase _ _
    by_cases hold : storage log.key = start log.key
    · rw [if_pos hold] at hslot
      have hmem : log.key ∉ changed := fun hmem => (h.mem_changed _).1 hmem hold
      by_cases hvalue : log.value = start log.key
      · rw [if_pos hvalue, Finset.erase_eq_of_notMem hmem, countsOf_update hmem, ← h.metrics]
        simp [processWrite, hinitial, hslot, hvalue]
      · rw [if_neg hvalue, countsOf_insert hmem, countsOf_update hmem, Function.update_self,
          ← h.metrics, ← hkind]
        simp [processWrite, hinitial, hslot, Ne.symm hvalue]
    · rw [if_neg hold] at hslot
      have hmem : log.key ∈ changed := (h.mem_changed _).2 hold
      have hbefore := h.metrics
      rw [← Finset.insert_erase hmem, countsOf_insert hrest, ← hkind] at hbefore
      by_cases hvalue : log.value = start log.key
      · rw [if_pos hvalue, countsOf_update hrest]
        simp only [processWrite, hinitial, hslot, hvalue, decide_true, hbefore]
        exact DeduplicatedWritesMetrics.change_change _ _ (by decide) (add_neg_cancel _)
      · rw [if_neg hvalue, Finset.insert_eq_of_mem hmem, ← Finset.insert_erase hmem,
          countsOf_insert hrest, countsOf_update hrest, Function.update_self, ← hkind]
        simp only [processWrite, hinitial, hslot, decide_eq_false (Ne.symm hvalue), hbefore]
        rw [DeduplicatedWritesMetrics.change_add]
        simp

theorem NetChange.run (h : NetChange compressedLen isInitial start storage changed dedup)
    (hlogs : ReadsFrom storage logs) (hkinds : KindsOf isInitial logs) :
    ∃ changed', NetChange compressedLen isInitial start (replay storage logs) changed'
      (processStorageLogs compressedLen dedup logs).1 := by
  induction logs generalizing dedup storage changed with
  | nil => exact ⟨changed, h⟩
  | cons log logs ih =>
    have hrest : KindsOf isInitial logs := fun other hother =>
      hkinds other (List.mem_cons_of_mem _ hother)
    rw [ReadsFrom] at hlogs
    rw [processStorageLogs, replay]
    by_cases hread : log.kind = .read
    · rw [if_pos hread] at hlogs
      rw [if_pos hread, if_pos hread]
      exact ih h hlogs hrest
    · rw [if_neg hread] at hlogs
      rw [if_neg hread, if_neg hread]
      exact ih (h.write hlogs.1 (hkinds log List.mem_cons_self hread)) hlogs.2 hrest

variable (compressedLen) in
theorem netChange_apply (hlogs : ReadsFrom start logs) (hkinds : KindsOf isInitial logs) :
    NetChange compressedLen isInitial start (replay start logs) (changedKeys start logs)
      (apply compressedLen StorageWritesDeduplicator.new logs) := by
  have hnew : NetChange compressedLen isInitial start start ∅ StorageWritesDeduplicator.new :=
    ⟨fun _ => rfl, fun key => by simp, fun key => (if_pos rfl).symm, rfl⟩
  obtain ⟨changed, h⟩ := hnew.run hlogs hkinds
  have heq : changed = changedKeys start logs := by
    ext key
    rw [h.mem_changed, mem_changedKeys]
  rw [← heq]
  exact h

end Invariant

omit [DecidableEq Key] [DecidableEq Value] in
theorem sum_eq_ofNat (keys : Finset Key) (size : Key → UInt64) :
    ∑ key ∈ keys, size key = UInt64.ofNat (∑ key ∈ keys, (size key).toNat) := by
  classical
  induction keys using Finset.induction with
  | empty => rfl
  | insert key keys hkey ih =>
    rw [Finset.sum_insert hkey, Finset.sum_insert hkey, ih, UInt64.ofNat_add, UInt64.ofNat_toNat]

omit [DecidableEq Key] [DecidableEq Value] in
theorem sum_ite_eq_card (keys : Finset Key) (p : Key → Bool) :
    ∑ key ∈ keys, (if p key then 1 else 0) = UInt64.ofNat (keys.filter fun key => p key).card := by
  rw [sum_eq_ofNat, Finset.card_filter]
  congr 1
  refine Finset.sum_congr rfl fun key _ => ?_
  cases p key <;> rfl

theorem apply_append (compressedLen : Value → Value → UInt64)
    (dedup : StorageWritesDeduplicator Key Value)
    (logs logs' : List (StorageLogWithPreviousValue Key Value)) :
    apply compressedLen dedup (logs ++ logs') =
      apply compressedLen (apply compressedLen dedup logs) logs' := by
  induction logs generalizing dedup with
  | nil => rfl
  | cons log logs ih =>
    simp only [apply, List.cons_append, processStorageLogs] at ih ⊢
    split <;> exact ih _

theorem foldl_apply (compressedLen : Value → Value → UInt64)
    (dedup : StorageWritesDeduplicator Key Value)
    (calls : List (List (StorageLogWithPreviousValue Key Value))) :
    calls.foldl (apply compressedLen) dedup = apply compressedLen dedup calls.flatten := by
  induction calls generalizing dedup with
  | nil => rfl
  | cons logs calls ih => rw [List.foldl_cons, ih, List.flatten_cons, apply_append]

section Underflow

variable (compressedLen : Value → Value → UInt64) {isInitial : Key → Bool}

/-- The number of slots that have changed, and the sum of the sizes, are machine words. -/
def Fits (start : Key → Value) (logs : List (StorageLogWithPreviousValue Key Value)) : Prop :=
  (changedKeys start logs).card < 2 ^ 64 ∧
    ∑ key ∈ changedKeys start logs,
      (compressedLen (start key) (replay start logs key)).toNat < 2 ^ 64

/-- What a write subtracts is there: the size of the slot that it replaces, and one slot. -/
def NoUnderflow (dedup : StorageWritesDeduplicator Key Value)
    (log : StorageLogWithPreviousValue Key Value) : Prop :=
  ∀ slot, dedup.modifiedKeyValues log.key = some slot →
    slot.size ≤ dedup.metrics.totalUpdatedValuesSize ∧
      1 ≤ if log.kind = .initialWrite then dedup.metrics.initialStorageWrites
        else dedup.metrics.repeatedStorageWrites

theorem metrics_eq_card (hlogs : ReadsFrom start logs) (hkinds : KindsOf isInitial logs) :
    (apply compressedLen new logs).metrics =
      ⟨UInt64.ofNat ((changedKeys start logs).filter fun key => isInitial key).card,
        UInt64.ofNat ((changedKeys start logs).filter fun key => !isInitial key).card,
        UInt64.ofNat (∑ key ∈ changedKeys start logs,
          (compressedLen (start key) (replay start logs key)).toNat)⟩ := by
  rw [(netChange_apply compressedLen hlogs hkinds).metrics, countsOf, sum_ite_eq_card,
    sum_ite_eq_card, sum_eq_ofNat]

theorem noUnderflow {done rest : List (StorageLogWithPreviousValue Key Value)}
    (hlogs : ReadsFrom start (done ++ log :: rest))
    (hkinds : KindsOf isInitial (done ++ log :: rest)) (hwrite : log.kind ≠ .read)
    (hfits : Fits compressedLen start done) : NoUnderflow (apply compressedLen new done) log := by
  intro slot hslot
  have hreads := (readsFrom_append.1 hlogs).1
  have hkinds' : KindsOf isInitial done := fun other hother =>
    hkinds other (List.mem_append_left _ hother)
  have h := netChange_apply compressedLen hreads hkinds'
  rw [h.modified] at hslot
  split at hslot
  · cases hslot
  rename_i hold
  cases hslot
  have hmem : log.key ∈ changedKeys start done := mem_changedKeys.2 hold
  -- the slot is among the changed ones, so no count of them is zero
  have hcount : ∀ p : Key → Bool, p log.key →
      1 ≤ UInt64.ofNat ((changedKeys start done).filter fun key => p key).card := by
    intro p hp
    have hpos : 0 < ((changedKeys start done).filter fun key => p key).card :=
      Finset.card_pos.2 ⟨log.key, Finset.mem_filter.2 ⟨hmem, hp⟩⟩
    have hle := Finset.card_filter_le (changedKeys start done) fun key => p key
    rw [UInt64.le_iff_toNat_le, UInt64.toNat_ofNat_of_lt' (hle.trans_lt hfits.1)]
    exact hpos
  rw [metrics_eq_card compressedLen hreads hkinds']
  refine ⟨?_, ?_⟩
  · rw [UInt64.le_iff_toNat_le, UInt64.toNat_ofNat_of_lt' hfits.2]
    exact Finset.single_le_sum
      (f := fun key => (compressedLen (start key) (replay start done key)).toNat)
      (fun _ _ => Nat.zero_le _) hmem
  · have hkind := hkinds log (by simp) hwrite
    by_cases hinitial : log.kind = .initialWrite
    · rw [if_pos hinitial]
      rw [decide_eq_true hinitial] at hkind
      exact hcount isInitial hkind.symm
    · rw [if_neg hinitial]
      rw [decide_eq_false hinitial] at hkind
      exact hcount (fun key => !isInitial key) (by rw [← hkind]; rfl)

end Underflow

end StorageWritesDeduplicator

open StorageWritesDeduplicator

/-! ### Blocks -/

/-- The net writes of a block.  The source lists a hash map, so the order is not fixed. -/
def extractDeduplicatedWriteLogs {Key Value : Type} [DecidableEq Key] [DecidableEq Value]
    (compressedLen : Value → Value → UInt64) (logs : List (StorageLogWithPreviousValue Key Value)) :
    List (Key × Value) :=
  let modified := (apply compressedLen new (logs.filter fun log =>
    log.kind ≠ .read)).modifiedKeyValues
  (logs.map StorageLogWithPreviousValue.key).dedup.filterMap fun key =>
    (modified key).map fun slot => (key, slot.value)

section Blocks

variable {Key Value : Type} [DecidableEq Key] [DecidableEq Value] {start : Key → Value}
  {logs : List (StorageLogWithPreviousValue Key Value)} {isInitial : Key → Bool}
  (compressedLen : Value → Value → UInt64)

theorem apply_filter_writes (dedup : StorageWritesDeduplicator Key Value)
    (logs : List (StorageLogWithPreviousValue Key Value)) :
    apply compressedLen dedup (logs.filter fun log => log.kind ≠ .read) =
      apply compressedLen dedup logs := by
  induction logs generalizing dedup with
  | nil => rfl
  | cons log logs ih =>
    by_cases hread : log.kind = .read
    · rw [List.filter_cons_of_neg (by simp [hread]), ih]
      simp [apply, processStorageLogs, hread]
    · rw [List.filter_cons_of_pos (by simp [hread])]
      simp only [apply, processStorageLogs, if_neg hread] at ih ⊢
      exact ih _

omit [DecidableEq Value] in
theorem filter_entries (f : Key → Option Value) {keys : List Key}
    (hnodup : keys.Nodup) (key : Key) :
    (keys.filterMap fun k => (f k).map fun value => (k, value)).filter (fun row => row.1 = key) =
      if key ∈ keys then ((f key).map fun value => (key, value)).toList else [] := by
  induction keys with
  | nil => rfl
  | cons k keys ih =>
    rw [List.nodup_cons] at hnodup
    by_cases hk : k = key
    · subst hk
      cases hvalue : f k <;> simp [hvalue, ih hnodup.2, hnodup.1]
    · cases hvalue : f k <;> simp [hvalue, ih hnodup.2, hk, Ne.symm hk]

theorem filter_extractDeduplicatedWriteLogs (hlogs : ReadsFrom start logs)
    (hkinds : KindsOf isInitial logs) (key : Key) :
    (extractDeduplicatedWriteLogs compressedLen logs).filter (fun row => row.1 = key) =
      if replay start logs key = start key then [] else [(key, replay start logs key)] := by
  have hmodified := (netChange_apply compressedLen hlogs hkinds).modified key
  have hentries := filter_entries
    (fun k => ((apply compressedLen new logs).modifiedKeyValues k).map ModifiedSlot.value)
    (List.nodup_dedup (logs.map StorageLogWithPreviousValue.key)) key
  simp only [Option.map_map, List.mem_dedup] at hentries
  rw [extractDeduplicatedWriteLogs, apply_filter_writes]
  refine hentries.trans ?_
  by_cases hsame : replay start logs key = start key
  · rw [if_pos hsame] at hmodified ⊢
    rw [hmodified]
    simp
  · rw [if_neg hsame] at hmodified ⊢
    have hmem : key ∈ logs.map StorageLogWithPreviousValue.key := by
      by_contra hmem
      exact hsame (replay_of_notMem hmem)
    rw [if_pos hmem, hmodified]
    rfl

end Blocks

namespace StateDb

def lastValue (db : StateDb) (key : H256) : H256 :=
  db.getHistoricalValueUnchecked key (db.nextL2Block - 1)

def NoPendingLogs (db : StateDb) : Prop := ∀ row ∈ db.storageLogs, row.l2Block < db.nextL2Block

def storeBlock (db : StateDb) (rows : List (H256 × H256)) : StateDb :=
  (db.insertStorageLogs db.nextL2Block rows).insertL2Block db.nextL2Block

theorem nextL2Block_storeBlock (db : StateDb) (rows : List (H256 × H256)) :
    (db.storeBlock rows).nextL2Block = db.nextL2Block + 1 := by
  simp only [nextL2Block, storeBlock, insertL2Block, insertStorageLogs, List.map_append,
    List.map_cons, List.map_nil]
  exact nextNumber_append _ _

variable {db : StateDb} {isInitial : H256 → Bool}

theorem NoPendingLogs.storeBlock (h : db.NoPendingLogs) (rows : List (H256 × H256)) :
    (db.storeBlock rows).NoPendingLogs := by
  intro row hrow
  rw [nextL2Block_storeBlock]
  rcases List.mem_append.1 hrow with hrow | hrow
  · exact (h row hrow).trans (Nat.lt_succ_self _)
  · obtain ⟨log, -, rfl⟩ := List.mem_map.1 hrow
    exact Nat.lt_succ_self _

theorem NoPendingLogs.lastValue_eq (h : db.NoPendingLogs) (key : H256) :
    db.lastValue key =
      ((db.storageLogs.filter fun row => row.hashedKey = key).getLast?.map StorageLog.value).getD
        .zero := by
  rw [lastValue, getHistoricalValueUnchecked, storageValue]
  congr 3
  refine List.filter_congr fun row hrow => ?_
  have hle : row.l2Block ≤ db.nextL2Block - 1 := Nat.le_sub_one_of_lt (h row hrow)
  simp [hle]

/-- **One block**: the net writes of its logs give the storage that the logs lead to. -/
theorem lastValue_storeBlock (compressedLen : H256 → H256 → UInt64) (h : db.NoPendingLogs)
    {logs : List (StorageLogWithPreviousValue H256 H256)} (hlogs : ReadsFrom db.lastValue logs)
    (hkinds : KindsOf isInitial logs) {rows : List (H256 × H256)}
    (hrows : rows.Perm (extractDeduplicatedWriteLogs compressedLen logs)) :
    (db.storeBlock rows).lastValue = replay db.lastValue logs := by
  funext key
  have hrow := hrows.filter fun row => row.1 = key
  rw [filter_extractDeduplicatedWriteLogs compressedLen hlogs hkinds] at hrow
  have hold := h.lastValue_eq key
  rw [(h.storeBlock rows).lastValue_eq]
  show ((List.filter _ (db.storageLogs ++ List.map _ rows)).getLast?.map _).getD _ = _
  rw [List.filter_append, List.filter_map, List.getLast?_append]
  simp only [Function.comp_def]
  -- the rows of the block for the slot are none or one
  by_cases hsame : replay db.lastValue logs key = db.lastValue key
  · rw [if_pos hsame] at hrow
    rw [hrow.eq_nil, hsame, hold]
    rfl
  · rw [if_neg hsame] at hrow
    rw [List.perm_singleton.1 hrow]
    rfl

/-- **Stored block by block**, the net writes give the storage that a replay of all logs gives. -/
theorem lastValue_storeBlocks (compressedLen : H256 → H256 → UInt64)
    {blocks : List (List (StorageLogWithPreviousValue H256 H256))}
    {stored : List (List (H256 × H256))} (h : db.NoPendingLogs)
    (hlogs : ReadsFrom db.lastValue blocks.flatten) (hkinds : KindsOf isInitial blocks.flatten)
    (hstored : List.Forall₂ (fun rows logs =>
      rows.Perm (extractDeduplicatedWriteLogs compressedLen logs)) stored blocks) :
    (stored.foldl storeBlock db).lastValue = replay db.lastValue blocks.flatten := by
  induction hstored generalizing db with
  | nil => rfl
  | cons hrows hrest ih =>
    rw [List.flatten_cons] at hlogs hkinds ⊢
    obtain ⟨hblock, hlater⟩ := readsFrom_append.1 hlogs
    have hnext := lastValue_storeBlock compressedLen h hblock
      (fun log hlog => hkinds log (List.mem_append_left _ hlog)) hrows
    rw [← hnext] at hlater
    rw [List.foldl_cons, ih (h.storeBlock _) hlater
      (fun log hlog => hkinds log (List.mem_append_right _ hlog)), hnext, replay_append]

end StateDb

/-- **The deduplication of writes computes the net change.**  After any calls, the modified slots
are those whose value has changed, the counts are theirs, and the blocks of the batch store the same
values. -/
theorem deduplicated_writes_netChange (compressedLen : H256 → H256 → UInt64)
    {isInitial : H256 → Bool}
    {start : H256 → H256} {calls : List (List (StorageLogWithPreviousValue H256 H256))}
    (hlogs : ReadsFrom start calls.flatten) (hkinds : KindsOf isInitial calls.flatten) :
    let dedup := calls.foldl (apply compressedLen) new
    let storage := replay start calls.flatten
    let changed := changedKeys start calls.flatten
    (∀ key, key ∈ changed ↔ storage key ≠ start key) ∧
    (∀ key, dedup.modifiedKeyValues key =
      if storage key = start key then none
      else some ⟨storage key, compressedLen (start key) (storage key)⟩) ∧
    dedup.metrics =
      ⟨UInt64.ofNat (changed.filter fun key => isInitial key).card,
        UInt64.ofNat (changed.filter fun key => !isInitial key).card,
        UInt64.ofNat (∑ key ∈ changed, (compressedLen (start key) (storage key)).toNat)⟩ ∧
    (∀ done log rest, calls.flatten = done ++ log :: rest → log.kind ≠ .read →
      Fits compressedLen start done → NoUnderflow (apply compressedLen new done) log) ∧
    ∀ (db : StateDb) blocks stored, db.NoPendingLogs → db.lastValue = start →
      blocks.flatten = calls.flatten →
      List.Forall₂ (fun rows logs =>
        rows.Perm (extractDeduplicatedWriteLogs compressedLen logs)) stored blocks →
      (stored.foldl StateDb.storeBlock db).lastValue = storage := by
  intro dedup storage changed
  have hdedup : dedup = apply compressedLen new calls.flatten := foldl_apply compressedLen _ calls
  rw [hdedup]
  refine ⟨fun key => mem_changedKeys, (netChange_apply compressedLen hlogs hkinds).modified,
    metrics_eq_card compressedLen hlogs hkinds, ?_, ?_⟩
  · intro done log rest heq hwrite hfits
    rw [heq] at hlogs hkinds
    exact noUnderflow compressedLen hlogs hkinds hwrite hfits
  -- blocks may divide the logs in another way than calls
  · intro db blocks stored hdb hstart hsplit hstored
    rw [← hstart, ← hsplit] at hlogs
    rw [← hsplit] at hkinds
    rw [StateDb.lastValue_storeBlocks compressedLen hdb hlogs hkinds hstored, hstart, hsplit]

theorem deduplicated_writes_netChange_reverted :
    let one : H256 := FixedBytes.replicate 32 1
    let calls : List (List (StorageLogWithPreviousValue H256 H256)) :=
      [[⟨.initialWrite, one, one, .zero⟩], [⟨.initialWrite, one, .zero, one⟩],
        [⟨.initialWrite, one, one, .zero⟩]]
    (calls.foldl (apply fun _ _ => 33) new).metrics = ⟨1, 0, 33⟩ := by
  intro one calls
  have hlogs : ReadsFrom (fun _ => .zero) calls.flatten := by simp [calls, ReadsFrom]
  have hkinds : KindsOf (fun _ => true) calls.flatten := by simp [calls, KindsOf]
  obtain ⟨-, -, hmetrics, -⟩ := deduplicated_writes_netChange (fun _ _ => 33) hlogs hkinds
  exact hmetrics.trans (by decide +kernel)
