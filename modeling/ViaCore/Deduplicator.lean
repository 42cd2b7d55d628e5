/-
Deduplicated storage writes.

The state keeper counts the storage slots that a batch changes.  A slot that is written back to its
initial value does not count.  To look at the counts that a transaction would lead to, its logs are
applied and rolled back: each write leaves an item that undoes it.  The initial values that were
learned on the way stay.

Counters are unsigned machine words that wrap around, so that an item undoes a write in every case.

* `applyAndRollback_no_trace` — later calls cannot tell whether logs have been tried.
-/
import Mathlib

inductive StorageLogKind where
  | read
  | initialWrite
  | repeatedWrite
  deriving DecidableEq

structure StorageLogWithPreviousValue (Key Value : Type) where
  kind : StorageLogKind
  key : Key
  value : Value
  previousValue : Value

structure ModifiedSlot (Value : Type) where
  value : Value
  size : UInt64

inductive UpdateType (Value : Type) where
  | remove (slot : ModifiedSlot Value)
  | update (slot : ModifiedSlot Value)
  | insert

structure UpdateItem (Key Value : Type) where
  key : Key
  updateType : UpdateType Value
  isWriteInitial : Bool

structure DeduplicatedWritesMetrics where
  initialStorageWrites : UInt64
  repeatedStorageWrites : UInt64
  totalUpdatedValuesSize : UInt64
  deriving DecidableEq

def DeduplicatedWritesMetrics.change (metrics : DeduplicatedWritesMetrics) (isWriteInitial : Bool)
    (writes size : UInt64) : DeduplicatedWritesMetrics :=
  if isWriteInitial then
    { metrics with
      initialStorageWrites := metrics.initialStorageWrites + writes
      totalUpdatedValuesSize := metrics.totalUpdatedValuesSize + size }
  else
    { metrics with
      repeatedStorageWrites := metrics.repeatedStorageWrites + writes
      totalUpdatedValuesSize := metrics.totalUpdatedValuesSize + size }

theorem DeduplicatedWritesMetrics.change_add (metrics : DeduplicatedWritesMetrics)
    (isWriteInitial : Bool) (writes size writes' size' : UInt64) :
    (metrics.change isWriteInitial writes size).change isWriteInitial writes' size' =
      metrics.change isWriteInitial (writes + writes') (size + size') := by
  cases isWriteInitial with
  | false | true => simp [change, add_assoc]

theorem DeduplicatedWritesMetrics.change_change (metrics : DeduplicatedWritesMetrics)
    (isWriteInitial : Bool) {writes size writes' size' : UInt64} (hwrites : writes + writes' = 0)
    (hsize : size + size' = 0) :
    (metrics.change isWriteInitial writes size).change isWriteInitial writes' size' = metrics := by
  rw [change_add, hwrites, hsize]
  cases isWriteInitial <;> simp [change]

/-! ### The deduplicator -/

structure StorageWritesDeduplicator (Key Value : Type) where
  initialValues : Key → Option Value
  modifiedKeyValues : Key → Option (ModifiedSlot Value)
  metrics : DeduplicatedWritesMetrics

namespace StorageWritesDeduplicator

variable {Key Value : Type} [DecidableEq Key] [DecidableEq Value]

def new : StorageWritesDeduplicator Key Value := ⟨fun _ => none, fun _ => none, ⟨0, 0, 0⟩⟩

section Model

-- the number of bytes that `compress_with_best_strategy` needs for a change of a value
variable (compressedLen : Value → Value → UInt64)

def processWrite (self : StorageWritesDeduplicator Key Value)
    (log : StorageLogWithPreviousValue Key Value) :
    StorageWritesDeduplicator Key Value × Option (UpdateItem Key Value) :=
  let initialValue := (self.initialValues log.key).getD log.previousValue
  let initialValues := Function.update self.initialValues log.key (some initialValue)
  let isWriteInitial := decide (log.kind = .initialWrite)
  match self.modifiedKeyValues log.key, decide (initialValue = log.value) with
  | some slot, true =>
    ({ initialValues
       modifiedKeyValues := Function.update self.modifiedKeyValues log.key none
       metrics := self.metrics.change isWriteInitial (-1) (-slot.size) },
      some ⟨log.key, .remove slot, isWriteInitial⟩)
  | some slot, false =>
    let size := compressedLen initialValue log.value
    ({ initialValues
       modifiedKeyValues := Function.update self.modifiedKeyValues log.key (some ⟨log.value, size⟩)
       metrics := self.metrics.change isWriteInitial 0 (-slot.size + size) },
      some ⟨log.key, .update slot, isWriteInitial⟩)
  | none, false =>
    let size := compressedLen initialValue log.value
    ({ initialValues
       modifiedKeyValues := Function.update self.modifiedKeyValues log.key (some ⟨log.value, size⟩)
       metrics := self.metrics.change isWriteInitial 1 size },
      some ⟨log.key, .insert, isWriteInitial⟩)
  | none, true => ({ self with initialValues }, none)

def processStorageLogs (self : StorageWritesDeduplicator Key Value) :
    List (StorageLogWithPreviousValue Key Value) →
      StorageWritesDeduplicator Key Value × List (UpdateItem Key Value)
  | [] => (self, [])
  | log :: logs =>
    if log.kind = .read then processStorageLogs self logs
    else
      let (next, item) := processWrite compressedLen self log
      let (last, items) := processStorageLogs next logs
      (last, item.toList ++ items)

/-- Undo one item.  `none` is the panic when the slot of the item is not modified. -/
def rollbackItem (self : StorageWritesDeduplicator Key Value) (item : UpdateItem Key Value) :
    Option (StorageWritesDeduplicator Key Value) :=
  match item.updateType with
  | .insert =>
    (self.modifiedKeyValues item.key).map fun value =>
      { self with
        modifiedKeyValues := Function.update self.modifiedKeyValues item.key none
        metrics := self.metrics.change item.isWriteInitial (-1) (-value.size) }
  | .update slot =>
    (self.modifiedKeyValues item.key).map fun old =>
      { self with
        modifiedKeyValues := Function.update self.modifiedKeyValues item.key (some slot)
        metrics := self.metrics.change item.isWriteInitial 0 (slot.size - old.size) }
  | .remove slot =>
    some { self with
      modifiedKeyValues := Function.update self.modifiedKeyValues item.key (some slot)
      metrics := self.metrics.change item.isWriteInitial 1 slot.size }

def rollback (self : StorageWritesDeduplicator Key Value) (updates : List (UpdateItem Key Value)) :
    Option (StorageWritesDeduplicator Key Value) :=
  updates.reverse.foldlM rollbackItem self

/-- The counts as if the logs were applied, and the deduplicator after looking at them. -/
def applyAndRollback (self : StorageWritesDeduplicator Key Value)
    (logs : List (StorageLogWithPreviousValue Key Value)) :
    Option (DeduplicatedWritesMetrics × StorageWritesDeduplicator Key Value) :=
  let (applied, updates) := processStorageLogs compressedLen self logs
  (rollback applied updates).map fun self => (applied.metrics, self)

def apply (self : StorageWritesDeduplicator Key Value)
    (logs : List (StorageLogWithPreviousValue Key Value)) : StorageWritesDeduplicator Key Value :=
  (processStorageLogs compressedLen self logs).1

def applyOnEmptyState (logs : List (StorageLogWithPreviousValue Key Value)) :
    DeduplicatedWritesMetrics :=
  (apply compressedLen (new : StorageWritesDeduplicator Key Value) logs).metrics

end Model

variable {compressedLen : Value → Value → UInt64}

/-- **An item undoes its write**, whatever initial values were learned since. -/
theorem rollback_processWrite (self : StorageWritesDeduplicator Key Value)
    (log : StorageLogWithPreviousValue Key Value) (initialValues : Key → Option Value) :
    rollback { (processWrite compressedLen self log).1 with initialValues }
      (processWrite compressedLen self log).2.toList = some { self with initialValues } := by
  rw [processWrite]
  cases hslot : self.modifiedKeyValues log.key <;>
    cases decide ((self.initialValues log.key).getD log.previousValue = log.value)
  case none.true => rfl
  -- the item of each other case writes the old slot back and takes back the change of the counts
  all_goals
    simp only [rollback, Option.toList_some, List.reverse_singleton, List.foldlM_cons,
      List.foldlM_nil, rollbackItem, Function.update_self, Option.map_some]
    rw [Function.update_idem, ← hslot, Function.update_eq_self,
      DeduplicatedWritesMetrics.change_change _ _ (by decide) (by abel)]
    rfl

theorem rollback_processStorageLogs (self : StorageWritesDeduplicator Key Value)
    (logs : List (StorageLogWithPreviousValue Key Value)) :
    rollback (processStorageLogs compressedLen self logs).1
        (processStorageLogs compressedLen self logs).2 =
      some { self with
        initialValues := (processStorageLogs compressedLen self logs).1.initialValues } := by
  induction logs generalizing self with
  | nil => rfl
  | cons log logs ih =>
    rw [processStorageLogs]
    by_cases hread : log.kind = .read
    · rw [if_pos hread]
      exact ih self
    · rw [if_neg hread]
      -- the later items are undone first, which leaves the state after the first write
      rw [rollback, List.reverse_append, List.foldlM_append]
      refine (congrArg (Option.bind · _) (ih _)).trans ?_
      exact rollback_processWrite self log _

theorem applyAndRollback_eq (self : StorageWritesDeduplicator Key Value)
    (logs : List (StorageLogWithPreviousValue Key Value)) :
    applyAndRollback compressedLen self logs =
      some ((processStorageLogs compressedLen self logs).1.metrics, { self with
        initialValues := (processStorageLogs compressedLen self logs).1.initialValues }) := by
  rw [applyAndRollback]
  show (rollback _ _).map _ = _
  rw [rollback_processStorageLogs, Option.map_some]

/-! ### Logs of one storage -/

/-- The logs tell the values of the storage before each write. -/
def ReadsFrom : (Key → Value) → List (StorageLogWithPreviousValue Key Value) → Prop
  | _, [] => True
  | storage, log :: logs =>
    if log.kind = .read then ReadsFrom storage logs
    else log.previousValue = storage log.key ∧
      ReadsFrom (Function.update storage log.key log.value) logs

def replay : (Key → Value) → List (StorageLogWithPreviousValue Key Value) → Key → Value
  | storage, [] => storage
  | storage, log :: logs =>
    if log.kind = .read then replay storage logs
    else replay (Function.update storage log.key log.value) logs

/-- The initial values are those of the storage at the start, for the slots that were written since
as well. -/
def Learned (start storage : Key → Value) (initialValues : Key → Option Value) : Prop :=
  ∀ key, (initialValues key).getD (storage key) = start key

variable (compressedLen) {start storage : Key → Value} {log : StorageLogWithPreviousValue Key Value}
  {logs : List (StorageLogWithPreviousValue Key Value)}
  {self other : StorageWritesDeduplicator Key Value}

theorem processWrite_initialValues (self : StorageWritesDeduplicator Key Value)
    (log : StorageLogWithPreviousValue Key Value) :
    (processWrite compressedLen self log).1.initialValues =
      Function.update self.initialValues log.key
        (some ((self.initialValues log.key).getD log.previousValue)) := by
  rw [processWrite]
  split <;> rfl

theorem Learned.write (h : Learned start storage self.initialValues)
    (hread : log.previousValue = storage log.key) :
    Learned start (Function.update storage log.key log.value)
      (processWrite compressedLen self log).1.initialValues := by
  intro key
  rw [processWrite_initialValues]
  by_cases hkey : key = log.key
  · subst hkey
    rw [Function.update_self, Option.getD_some, hread, h]
  · rw [Function.update_of_ne hkey, Function.update_of_ne hkey, h]

structure Alike (start storage : Key → Value) (one other : StorageWritesDeduplicator Key Value) :
    Prop where
  learned : Learned start storage one.initialValues
  learned' : Learned start storage other.initialValues
  modified : one.modifiedKeyValues = other.modifiedKeyValues
  metrics : one.metrics = other.metrics

theorem Alike.write (h : Alike start storage self other)
    (hread : log.previousValue = storage log.key) :
    Alike start (Function.update storage log.key log.value) (processWrite compressedLen self log).1
      (processWrite compressedLen other log).1 := by
  have hinitial : (self.initialValues log.key).getD log.previousValue = start log.key := by
    rw [hread, h.learned]
  have hinitial' : (other.initialValues log.key).getD log.previousValue = start log.key := by
    rw [hread, h.learned']
  refine ⟨h.learned.write compressedLen hread, h.learned'.write compressedLen hread, ?_, ?_⟩
  · rw [processWrite, processWrite]
    simp only [hinitial, hinitial', h.modified]
    split <;> rfl
  · rw [processWrite, processWrite]
    simp only [hinitial, hinitial', h.modified, h.metrics]
    split <;> rfl

/-- **The counts do not depend on the initial values that were learned before.** -/
theorem Alike.run (h : Alike start storage self other) (hlogs : ReadsFrom storage logs) :
    Alike start (replay storage logs) (processStorageLogs compressedLen self logs).1
      (processStorageLogs compressedLen other logs).1 := by
  induction logs generalizing self other storage with
  | nil => exact h
  | cons log logs ih =>
    rw [ReadsFrom] at hlogs
    rw [processStorageLogs, processStorageLogs, replay]
    by_cases hread : log.kind = .read
    · rw [if_pos hread] at hlogs
      rw [if_pos hread, if_pos hread, if_pos hread]
      exact ih h hlogs
    · rw [if_neg hread] at hlogs
      rw [if_neg hread, if_neg hread, if_neg hread]
      exact ih (h.write compressedLen hlogs.1) hlogs.2

theorem Learned.run (h : Learned start storage self.initialValues)
    (hlogs : ReadsFrom storage logs) :
    Learned start (replay storage logs)
      (processStorageLogs compressedLen self logs).1.initialValues :=
  (Alike.run compressedLen (⟨h, h, rfl, rfl⟩ : Alike start storage self self) hlogs).learned

theorem initialValues_eq_none {key : Key}
    (h : (processStorageLogs compressedLen self logs).1.initialValues key = none) :
    self.initialValues key = none := by
  induction logs generalizing self with
  | nil => exact h
  | cons log logs ih =>
    rw [processStorageLogs] at h
    by_cases hread : log.kind = .read
    · rw [if_pos hread] at h
      exact ih h
    · rw [if_neg hread] at h
      have hnext := ih h
      rw [processWrite_initialValues] at hnext
      by_cases hkey : key = log.key
      · subst hkey
        simp at hnext
      · rwa [Function.update_of_ne hkey] at hnext

theorem Learned.trial (h : Learned start storage self.initialValues)
    (hlogs : ReadsFrom storage logs) :
    Learned start storage
      (processStorageLogs compressedLen self logs).1.initialValues := by
  intro key
  have hafter := h.run compressedLen hlogs key
  cases hvalue : (processStorageLogs compressedLen self
      logs).1.initialValues key with
  | none =>
    have hbefore := h key
    rwa [initialValues_eq_none compressedLen hvalue] at hbefore
  | some value => rwa [hvalue] at hafter

/-! ### Calls after a trial -/

inductive Call (Key Value : Type) where
  | apply (logs : List (StorageLogWithPreviousValue Key Value))
  | applyAndRollback (logs : List (StorageLogWithPreviousValue Key Value))

def call (self : StorageWritesDeduplicator Key Value) :
    Call Key Value → Option (DeduplicatedWritesMetrics × StorageWritesDeduplicator Key Value)
  | .apply logs => some ((apply compressedLen self logs).metrics, apply compressedLen self logs)
  | .applyAndRollback logs => applyAndRollback compressedLen self logs

def callAll (self : StorageWritesDeduplicator Key Value) :
    List (Call Key Value) →
      Option (List DeduplicatedWritesMetrics × StorageWritesDeduplicator Key Value)
  | [] => some ([], self)
  | c :: calls => do
    let (metrics, next) ← call compressedLen self c
    let (results, last) ← callAll next calls
    some (metrics :: results, last)

/-- The logs of every call tell the values of the storage, which a trial does not change. -/
def CallsReadFrom : (Key → Value) → List (Call Key Value) → Prop
  | _, [] => True
  | storage, .apply logs :: calls =>
    ReadsFrom storage logs ∧ CallsReadFrom (replay storage logs) calls
  | storage, .applyAndRollback logs :: calls =>
    ReadsFrom storage logs ∧ CallsReadFrom storage calls

theorem Alike.trial (h : Alike start storage self other) (hlogs : ReadsFrom storage logs) :
    Alike start storage
      { self with
        initialValues := (processStorageLogs compressedLen self logs).1.initialValues }
      { other with
        initialValues := (processStorageLogs compressedLen other
          logs).1.initialValues } :=
  ⟨h.learned.trial compressedLen hlogs, h.learned'.trial compressedLen hlogs, h.modified, h.metrics⟩

theorem Alike.calls {calls : List (Call Key Value)} (h : Alike start storage self other)
    (hcalls : CallsReadFrom storage calls) :
    ∃ results last last', callAll compressedLen self calls = some (results, last) ∧
      callAll compressedLen other calls = some (results, last') ∧
      last.modifiedKeyValues = last'.modifiedKeyValues ∧ last.metrics = last'.metrics := by
  induction calls generalizing self other storage with
  | nil => exact ⟨[], self, other, rfl, rfl, h.modified, h.metrics⟩
  | cons c calls ih =>
    cases c with
    | apply logs =>
      have hafter := h.run compressedLen hcalls.1
      obtain ⟨results, last, last', hself, hother, hsame⟩ := ih hafter hcalls.2
      refine ⟨(processStorageLogs compressedLen self logs).1.metrics :: results, last, last',
        ?_, ?_, hsame⟩
      · simp only [callAll, call, apply, Option.bind_eq_bind, Option.bind_some, hself]
      · simp only [callAll, call, apply, Option.bind_eq_bind, Option.bind_some, hother,
          hafter.metrics]
    -- a trial is rolled back, and returns the metrics before that
    | applyAndRollback logs =>
      have hafter := h.run compressedLen hcalls.1
      obtain ⟨results, last, last', hself, hother, hsame⟩ :=
        ih (h.trial compressedLen hcalls.1) hcalls.2
      refine ⟨(processStorageLogs compressedLen self logs).1.metrics :: results, last, last',
        ?_, ?_, hsame⟩
      · simp only [callAll, call, applyAndRollback_eq, Option.bind_eq_bind, Option.bind_some, hself]
      · simp only [callAll, call, applyAndRollback_eq, Option.bind_eq_bind, Option.bind_some,
          hother, hafter.metrics]

/-- **A trial leaves no trace.**  It returns the metrics that the logs would lead to, and later
calls return what they would have returned without it. -/
theorem applyAndRollback_no_trace (self : StorageWritesDeduplicator Key Value)
    (hlogs : ReadsFrom storage logs) :
    ∃ after, applyAndRollback compressedLen self logs =
        some ((apply compressedLen self logs).metrics, after) ∧
      after.modifiedKeyValues = self.modifiedKeyValues ∧ after.metrics = self.metrics ∧
      ∀ calls, CallsReadFrom storage calls → ∃ results last last',
        callAll compressedLen self calls = some (results, last) ∧
        callAll compressedLen after calls = some (results, last') ∧
        last.modifiedKeyValues = last'.modifiedKeyValues ∧ last.metrics = last'.metrics := by
  refine ⟨_, applyAndRollback_eq self logs, rfl, rfl, ?_⟩
  intro calls hcalls
  -- the storage before the batch, as far as the deduplicator and the present storage tell it
  have hlearned : Learned (fun key => (self.initialValues key).getD (storage key)) storage
      self.initialValues := fun _ => rfl
  exact Alike.calls compressedLen ⟨hlearned, hlearned.trial compressedLen hlogs, rfl, rfl⟩ hcalls

theorem applyAndRollback_no_trace_twice :
    let first : StorageLogWithPreviousValue ℕ ℕ := ⟨.initialWrite, 1, 5, 0⟩
    let second : StorageLogWithPreviousValue ℕ ℕ := ⟨.initialWrite, 1, 0, 5⟩
    ∃ after, applyAndRollback (fun _ _ => 2) new [first, second] =
        some ((apply (fun _ _ => 2) new [first, second]).metrics, after) ∧
      ∃ results last last', callAll (fun _ _ => 2) new [.apply [first]] = some (results, last) ∧
        callAll (fun _ _ => 2) after [.apply [first]] = some (results, last') ∧
        last.modifiedKeyValues = last'.modifiedKeyValues ∧ last.metrics = last'.metrics := by
  intro first second
  have hlogs : ReadsFrom (fun _ => 0) [first, second] := by simp [ReadsFrom, first, second]
  obtain ⟨after, htrial, -, -, hlater⟩ := applyAndRollback_no_trace (fun _ _ => 2) new hlogs
  exact ⟨after, htrial, hlater [.apply [first]] (by simp [CallsReadFrom, ReadsFrom, first])⟩

end StorageWritesDeduplicator
