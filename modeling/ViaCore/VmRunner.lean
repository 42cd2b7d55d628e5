/-
Progress of a VM runner.

The runner starts a task for each batch, in order, and the tasks run at the same time.  A task that
has executed its batch starts the output handler in the background and hands its join handle over a
one-shot channel; the receivers wait in a shared map.  Another task takes them out in order, waits
for the handler to return, and marks the batch as completed.  After a restart both sides go on from
the last batch that is marked.

The state (`VmRunnerNode`) has the table of batches, the process with its tasks, if it is running,
and the statements whose answer was lost and which the server may still carry out.  `handled`
records the output handlers that have returned without an error.

* `vmRunner_progress` — the marked batches are an initial segment, in all runs.
-/
import ViaCore.Runs
import ViaCore.Tables

/-- `vm_runner_protective_reads` and `vm_runner_bwip`; `timeTaken` says that the column is set. -/
structure VmRunnerRow where
  l1BatchNumber : ℕ
  timeTaken : Bool
  deriving DecidableEq

structure VmRunnerIo where
  firstProcessedBatch : ℕ
  windowSize : ℕ

section Table

variable (io : VmRunnerIo) (rows : List VmRunnerRow)

def Completed (number : ℕ) : Prop := ∃ row ∈ rows, row.l1BatchNumber = number ∧ row.timeTaken = true

def Started (number : ℕ) : Prop := ∃ row ∈ rows, row.l1BatchNumber = number

def latestProcessedBatch : ℕ :=
  ((rows.filter VmRunnerRow.timeTaken).map VmRunnerRow.l1BatchNumber).max?.getD
    io.firstProcessedBatch

def lastReadyToBeLoadedBatch (lastBatch : ℕ) : ℕ :=
  min lastBatch (latestProcessedBatch io rows + io.windowSize)

/-- The two statements; the second fails if there is no row for the batch. -/
inductive RunnerStatement where
  | markAsProcessing (number : ℕ)
  | markAsCompleted (number : ℕ)

def RunnerStatement.execute : RunnerStatement → List VmRunnerRow
  | .markAsProcessing number => insertIfAbsent VmRunnerRow.l1BatchNumber rows ⟨number, false⟩
  | .markAsCompleted number =>
    rows.map fun row => if row.l1BatchNumber = number then { row with timeTaken := true } else row

end Table

/-! ### Tasks -/

/-- `VmRunner::run`: before it has read the latest batch, waiting for the next one, with a batch
that is ready, with a handler for it, and at its end. -/
inductive RunnerTask where
  | reading
  | idle (next : ℕ)
  | ready (next : ℕ)
  | marking (next : ℕ)
  | stopped
  deriving DecidableEq

/-- The task of a batch: executing it, ended before the join handle was sent, with the output
handler in the background, and with its result. -/
inductive BatchTask where
  | running
  | dropped
  | handling
  | returned (ok : Bool)
  deriving DecidableEq

/-- `ConcurrentOutputHandlerFactoryTask::run`: starting, waiting for a receiver, for its join
handle, for the handler, with a batch to mark, and at its end. -/
inductive CompleterTask where
  | reading
  | waiting (latest : ℕ)
  | receiving (latest : ℕ)
  | joining (latest : ℕ)
  | marking (number : ℕ)
  | stopped
  deriving DecidableEq

/-- `receivers` is the shared map. -/
structure RunnerProcess where
  runner : RunnerTask
  completer : CompleterTask
  receivers : List ℕ
  tasks : ℕ → Option BatchTask

def RunnerProcess.fresh : RunnerProcess := ⟨.reading, .reading, [], fun _ => none⟩

/-- `lastBatch` is the last batch that is sealed. -/
structure VmRunnerNode where
  rows : List VmRunnerRow
  lastBatch : ℕ
  process : Option RunnerProcess
  late : List RunnerStatement
  handled : List ℕ

inductive RunnerEvent where
  | newBatch
  | start
  | crash
  | late (i : ℕ)
  -- the runner
  | readRunner
  | checkReady
  | createHandler (ok : Bool)
  | markAsProcessing (verdict : Verdict)
  | stopRunner
  -- the task of a batch
  | dropTask (number : ℕ)
  | handleL1Batch (number : ℕ)
  | returnHandler (number : ℕ) (ok : Bool)
  -- the task that completes batches
  | readCompleter
  | takeReceiver
  | receiveHandle
  | joinHandle
  | markAsCompleted (verdict : Verdict)
  | stopCompleter
  deriving DecidableEq

namespace VmRunnerNode

variable (io : VmRunnerIo) (self : VmRunnerNode)

def withProcess (process : RunnerProcess) : VmRunnerNode := { self with process := some process }

/-- A statement of a task, and whether the task goes on. -/
def execute (statement : RunnerStatement) : Verdict → VmRunnerNode × Bool
  | .done => ({ self with rows := statement.execute self.rows }, true)
  | .failed true => ({ self with rows := statement.execute self.rows }, false)
  | .failed false => ({ self with late := statement :: self.late }, false)

def stepRunner (process : RunnerProcess) : RunnerEvent → Option VmRunnerNode
  | .readRunner =>
    match process.runner with
    | .reading =>
      some (self.withProcess
        { process with runner := .idle (latestProcessedBatch io self.rows + 1) })
    | _ => none
  | .checkReady =>
    match process.runner with
    | .idle next =>
      if next ≤ lastReadyToBeLoadedBatch io self.rows self.lastBatch then
        some (self.withProcess { process with runner := .ready next })
      else none
    | _ => none
  | .createHandler ok =>
    match process.runner with
    | .ready next =>
      if ok ∧ latestProcessedBatch io self.rows < next
          ∧ next ≤ lastReadyToBeLoadedBatch io self.rows self.lastBatch then
        some (self.withProcess
          { process with runner := .marking next, receivers := next :: process.receivers })
      else some (self.withProcess { process with runner := .stopped })
    | _ => none
  | .markAsProcessing verdict =>
    match process.runner with
    | .marking next =>
      let (self, ok) := self.execute (.markAsProcessing next) verdict
      -- without an answer the handler is dropped, and with it the sender
      some (self.withProcess
        { process with
          runner := if ok then .idle (next + 1) else .stopped
          tasks := Function.update process.tasks next
            (some (if ok then .running else .dropped)) })
    | _ => none
  | .stopRunner => some (self.withProcess { process with runner := .stopped })
  | _ => none

def stepTask (process : RunnerProcess) : RunnerEvent → Option VmRunnerNode
  | .dropTask number =>
    if process.tasks number = some .running then
      some (self.withProcess
        { process with tasks := Function.update process.tasks number (some .dropped) })
    else none
  | .handleL1Batch number =>
    if process.tasks number = some .running then
      some (self.withProcess
        { process with tasks := Function.update process.tasks number (some .handling) })
    else none
  | .returnHandler number ok =>
    if process.tasks number = some .handling then
      some { self with
        process := some { process with
          tasks := Function.update process.tasks number (some (.returned ok)) }
        handled := if ok then number :: self.handled else self.handled }
    else none
  | _ => none

def stepCompleter (process : RunnerProcess) : RunnerEvent → Option VmRunnerNode
  | .readCompleter =>
    match process.completer with
    | .reading =>
      some (self.withProcess
        { process with completer := .waiting (latestProcessedBatch io self.rows) })
    | _ => none
  | .takeReceiver =>
    match process.completer with
    | .waiting latest =>
      if latest + 1 ∈ process.receivers then
        some (self.withProcess
          { process with
            completer := .receiving latest
            receivers := process.receivers.erase (latest + 1) })
      else none
    | _ => none
  | .receiveHandle =>
    match process.completer with
    | .receiving latest =>
      match process.tasks (latest + 1) with
      | some .handling => some (self.withProcess { process with completer := .joining latest })
      | some (.returned _) => some (self.withProcess { process with completer := .joining latest })
      | some .dropped => some (self.withProcess { process with completer := .stopped })
      | _ => none
    | _ => none
  | .joinHandle =>
    match process.completer with
    | .joining latest =>
      match process.tasks (latest + 1) with
      | some (.returned true) =>
        some (self.withProcess { process with completer := .marking (latest + 1) })
      | some (.returned false) => some (self.withProcess { process with completer := .stopped })
      | _ => none
    | _ => none
  | .markAsCompleted verdict =>
    match process.completer with
    | .marking number =>
      let affected := self.rows.any fun row => row.l1BatchNumber = number
      let (self, ok) := self.execute (.markAsCompleted number) verdict
      some (self.withProcess
        { process with completer := if ok && affected then .waiting number else .stopped })
    | _ => none
  | .stopCompleter => some (self.withProcess { process with completer := .stopped })
  | _ => none

def step (e : RunnerEvent) : Option VmRunnerNode :=
  match e with
  | .newBatch => some { self with lastBatch := self.lastBatch + 1 }
  | .start => if self.process.isNone then some (self.withProcess .fresh) else none
  | .crash => some { self with process := none }
  | .late i =>
    match self.late[i]? with
    | some statement =>
      some { self with rows := statement.execute self.rows, late := self.late.eraseIdx i }
    | none => none
  | e =>
    match self.process with
    | some process =>
      (self.stepRunner io process e).or
        ((self.stepTask process e).or (self.stepCompleter io process e))
    | none => none

def initial (lastBatch : ℕ) : VmRunnerNode := ⟨[], lastBatch, none, [], []⟩

end VmRunnerNode

def runnerStep (io : VmRunnerIo) : StepRel VmRunnerNode RunnerEvent :=
  StepRel.ofPartial fun self e => self.step io e

section Statements

variable {io : VmRunnerIo} {rows : List VmRunnerRow} {number : ℕ}

variable {b : ℕ}

theorem completed_markAsProcessing :
    Completed (RunnerStatement.execute rows (.markAsProcessing number)) b ↔ Completed rows b := by
  show Completed (insertIfAbsent VmRunnerRow.l1BatchNumber rows ⟨number, false⟩) b ↔ _
  unfold insertIfAbsent
  split
  · rfl
  · constructor
    · rintro ⟨row, hrow, hnumber, htaken⟩
      rcases List.mem_append.1 hrow with hrow | hrow
      · exact ⟨row, hrow, hnumber, htaken⟩
      · rw [List.mem_singleton.1 hrow] at htaken
        cases htaken
    · rintro ⟨row, hrow, hrest⟩
      exact ⟨row, List.mem_append_left _ hrow, hrest⟩

theorem started_markAsProcessing :
    Started (RunnerStatement.execute rows (.markAsProcessing number)) b ↔
      Started rows b ∨ b = number := by
  show Started (insertIfAbsent VmRunnerRow.l1BatchNumber rows ⟨number, false⟩) b ↔ _
  unfold insertIfAbsent
  split
  · rename_i hany
    obtain ⟨row, hrow, hnumber⟩ := List.any_eq_true.1 hany
    refine ⟨.inl, fun h => h.elim id ?_⟩
    rintro rfl
    exact ⟨row, hrow, of_decide_eq_true hnumber⟩
  · constructor
    · rintro ⟨row, hrow, rfl⟩
      rcases List.mem_append.1 hrow with hrow | hrow
      · exact .inl ⟨row, hrow, rfl⟩
      · exact .inr (congrArg _ (List.mem_singleton.1 hrow))
    · rintro (⟨row, hrow, hnumber⟩ | rfl)
      · exact ⟨row, List.mem_append_left _ hrow, hnumber⟩
      · exact ⟨_, List.mem_append_right _ (List.mem_singleton_self _), rfl⟩

theorem completed_markAsCompleted :
    Completed (RunnerStatement.execute rows (.markAsCompleted number)) b ↔
      Completed rows b ∨ (b = number ∧ Started rows number) := by
  constructor
  · rintro ⟨row', hrow', hnumber, htaken⟩
    obtain ⟨row, hrow, rfl⟩ := List.mem_map.1 hrow'
    by_cases hsame : row.l1BatchNumber = number
    · rw [if_pos hsame] at hnumber
      exact .inr ⟨hnumber.symm.trans hsame, row, hrow, hsame⟩
    · rw [if_neg hsame] at hnumber htaken
      exact .inl ⟨row, hrow, hnumber, htaken⟩
  · rintro (⟨row, hrow, hnumber, htaken⟩ | ⟨rfl, row, hrow, hnumber⟩)
    · refine ⟨_, List.mem_map.2 ⟨row, hrow, rfl⟩, ?_⟩
      split
      · exact ⟨hnumber, rfl⟩
      · exact ⟨hnumber, htaken⟩
    · refine ⟨_, List.mem_map.2 ⟨row, hrow, rfl⟩, ?_⟩
      rw [if_pos hnumber]
      exact ⟨hnumber, rfl⟩

theorem started_markAsCompleted :
    Started (RunnerStatement.execute rows (.markAsCompleted number)) b ↔ Started rows b := by
  constructor
  · rintro ⟨row', hrow', hnumber⟩
    obtain ⟨row, hrow, rfl⟩ := List.mem_map.1 hrow'
    refine ⟨row, hrow, ?_⟩
    split at hnumber <;> exact hnumber
  · rintro ⟨row, hrow, hnumber⟩
    refine ⟨_, List.mem_map.2 ⟨row, hrow, rfl⟩, ?_⟩
    split <;> exact hnumber

theorem Completed.execute (h : Completed rows b) (statement : RunnerStatement) :
    Completed (statement.execute rows) b := by
  cases statement with
  | markAsProcessing number => exact completed_markAsProcessing.2 h
  | markAsCompleted number => exact completed_markAsCompleted.2 (.inl h)

theorem mem_completedNumbers :
    b ∈ (rows.filter VmRunnerRow.timeTaken).map VmRunnerRow.l1BatchNumber ↔ Completed rows b := by
  constructor
  · intro h
    obtain ⟨row, hrow, hnumber⟩ := List.mem_map.1 h
    obtain ⟨hrow, htaken⟩ := List.mem_filter.1 hrow
    exact ⟨row, hrow, hnumber, htaken⟩
  · rintro ⟨row, hrow, hnumber, htaken⟩
    exact List.mem_map.2 ⟨row, List.mem_filter.2 ⟨hrow, htaken⟩, hnumber⟩

theorem latestProcessedBatch_cases (io : VmRunnerIo) (rows : List VmRunnerRow) :
    (Completed rows (latestProcessedBatch io rows) ∧
        ∀ b, Completed rows b → b ≤ latestProcessedBatch io rows) ∨
      (latestProcessedBatch io rows = io.firstProcessedBatch ∧ ∀ b, ¬ Completed rows b) := by
  unfold latestProcessedBatch
  cases hmax : ((rows.filter VmRunnerRow.timeTaken).map VmRunnerRow.l1BatchNumber).max? with
  | none =>
    rw [List.max?_eq_none_iff] at hmax
    refine .inr ⟨rfl, fun b hb => ?_⟩
    have hmem := mem_completedNumbers.2 hb
    rw [hmax] at hmem
    cases hmem
  | some latest =>
    obtain ⟨hmem, hle⟩ := List.max?_eq_some_iff.1 hmax
    exact .inl ⟨mem_completedNumbers.1 hmem, fun b hb => hle b (mem_completedNumbers.2 hb)⟩

theorem Completed.le_latest (h : Completed rows b) : b ≤ latestProcessedBatch io rows := by
  rcases latestProcessedBatch_cases io rows with ⟨-, hle⟩ | ⟨-, hnone⟩
  · exact hle b h
  · exact absurd h (hnone b)

theorem latestProcessedBatch_eq (h : Completed rows number)
    (hle : ∀ b, Completed rows b → b ≤ number) : latestProcessedBatch io rows = number := by
  rcases latestProcessedBatch_cases io rows with ⟨hlatest, hmax⟩ | ⟨-, hnone⟩
  · exact le_antisymm (hle _ hlatest) (hmax _ h)
  · exact absurd h (hnone number)

end Statements

def RunnerTask.next : RunnerTask → Option ℕ
  | .idle next => some next
  | .ready next => some next
  | .marking next => some next
  | _ => none

def CompleterTask.latest : CompleterTask → Option ℕ
  | .waiting latest => some latest
  | .receiving latest => some latest
  | .joining latest => some latest
  | _ => none

section Invariant

variable (io : VmRunnerIo) (rows : List VmRunnerRow) (lastBatch : ℕ) (handled : List ℕ)

def CompletedUpTo (latest : ℕ) : Prop :=
  ∀ b, io.firstProcessedBatch < b → b ≤ latest → Completed rows b

/-- The batch may be marked: its handler has returned, and all earlier batches are marked. -/
structure Completable (number : ℕ) : Prop where
  first : io.firstProcessedBatch < number
  handled : number ∈ handled
  earlier : ∀ b, io.firstProcessedBatch < b → b < number → Completed rows b

structure Startable (number : ℕ) : Prop where
  first : io.firstProcessedBatch < number
  sealed : number ≤ lastBatch
  window : 1 ≤ io.windowSize

/-- There is a reason for the statement. -/
def RunnerStatement.Allowed : RunnerStatement → Prop
  | .markAsProcessing number => Startable io lastBatch number
  | .markAsCompleted number => Completable io rows handled number

structure ProcessInv (process : RunnerProcess) : Prop where
  runner : ∀ next, process.runner.next = some next → ∀ b, io.firstProcessedBatch < b → b < next →
    Completed rows b ∨ (process.tasks b).isSome
  marking : ∀ next, process.runner = .marking next → Startable io lastBatch next
  returned : ∀ b, process.tasks b = some (.returned true) → b ∈ handled
  completer : ∀ latest, process.completer.latest = some latest →
    io.firstProcessedBatch ≤ latest ∧ CompletedUpTo io rows latest
  completing : ∀ number, process.completer = .marking number → Completable io rows handled number

end Invariant

/-- **The invariant.** -/
structure RunnerInv (io : VmRunnerIo) (node : VmRunnerNode) : Prop where
  completed : ∀ b, Completed node.rows b → Completable io node.rows node.handled b
  started : ∀ b, Started node.rows b → Startable io node.lastBatch b
  late : ∀ statement ∈ node.late, statement.Allowed io node.rows node.lastBatch node.handled
  process : ∀ process, node.process = some process →
    ProcessInv io node.rows node.lastBatch node.handled process

section Steps

variable {io : VmRunnerIo} {rows rows' : List VmRunnerRow} {lastBatch lastBatch' : ℕ}
  {handled handled' : List ℕ} {node node' : VmRunnerNode} {process : RunnerProcess}

variable (rows rows' lastBatch lastBatch' handled handled') in
/-- More is marked, sealed and handled. -/
structure Ahead : Prop where
  completed : ∀ b, Completed rows b → Completed rows' b
  lastBatch : lastBatch ≤ lastBatch'
  handled : handled ⊆ handled'

variable {number : ℕ}

theorem Completable.ahead (h : Completable io rows handled number)
    (ha : Ahead rows rows' lastBatch lastBatch' handled handled') :
    Completable io rows' handled' number :=
  ⟨h.first, ha.handled h.handled, fun b hfirst hb => ha.completed b (h.earlier b hfirst hb)⟩

theorem Startable.ahead (h : Startable io lastBatch number)
    (ha : Ahead rows rows' lastBatch lastBatch' handled handled') :
      Startable io lastBatch' number :=
  ⟨h.first, h.sealed.trans ha.lastBatch, h.window⟩

variable {statement : RunnerStatement} {e : RunnerEvent}

theorem RunnerStatement.Allowed.ahead (h : statement.Allowed io rows lastBatch handled)
    (ha : Ahead rows rows' lastBatch lastBatch' handled handled') :
    statement.Allowed io rows' lastBatch' handled' := by
  cases statement with
  | markAsProcessing number => exact Startable.ahead h ha
  | markAsCompleted number => exact Completable.ahead h ha

theorem ProcessInv.ahead (h : ProcessInv io rows lastBatch handled process)
    (ha : Ahead rows rows' lastBatch lastBatch' handled handled') :
    ProcessInv io rows' lastBatch' handled' process := by
  refine ⟨fun next hnext b hfirst hb => ?_, fun next hnext => ?_, fun b hb => ?_,
    fun latest hlatest => ?_, fun number hnumber => ?_⟩
  · exact (h.runner next hnext b hfirst hb).imp_left (ha.completed b)
  · exact (h.marking next hnext).ahead ha
  · exact ha.handled (h.returned b hb)
  · obtain ⟨hfirst, hupTo⟩ := h.completer latest hlatest
    exact ⟨hfirst, fun b hb hle => ha.completed b (hupTo b hb hle)⟩
  · exact (h.completing number hnumber).ahead ha

theorem RunnerInv.completedUpTo (h : RunnerInv io node) :
    io.firstProcessedBatch ≤ latestProcessedBatch io node.rows ∧
      CompletedUpTo io node.rows (latestProcessedBatch io node.rows) := by
  rcases latestProcessedBatch_cases io node.rows with ⟨hlatest, -⟩ | ⟨hlatest, -⟩
  · have hcompletable := h.completed _ hlatest
    refine ⟨hcompletable.first.le, fun b hb hle => ?_⟩
    rcases hle.lt_or_eq with hlt | rfl
    · exact hcompletable.earlier b hb hlt
    · exact hlatest
  · rw [hlatest]
    exact ⟨le_rfl, fun b hb hle => absurd hle (not_le.2 hb)⟩

theorem RunnerInv.executed (h : RunnerInv io node) {statement : RunnerStatement}
    (hallowed : statement.Allowed io node.rows node.lastBatch node.handled) :
    RunnerInv io { node with rows := statement.execute node.rows } := by
  have hahead : Ahead node.rows (statement.execute node.rows) node.lastBatch node.lastBatch
      node.handled node.handled :=
    ⟨fun b hb => hb.execute statement, le_rfl, .refl _⟩
  refine ⟨fun b hb => ?_, fun b hb => ?_, fun s hs => (h.late s hs).ahead hahead,
    fun p hp => (h.process p hp).ahead hahead⟩
  · cases statement with
    | markAsProcessing number =>
      exact (h.completed b (completed_markAsProcessing.1 hb)).ahead hahead
    | markAsCompleted number =>
      rcases completed_markAsCompleted.1 hb with hb | ⟨rfl, -⟩
      · exact (h.completed b hb).ahead hahead
      · exact Completable.ahead hallowed hahead
  · cases statement with
    | markAsProcessing number =>
      rcases started_markAsProcessing.1 hb with hb | rfl
      · exact h.started b hb
      · exact hallowed
    | markAsCompleted number => exact h.started b (started_markAsCompleted.1 hb)

theorem VmRunnerNode.execute_process {verdict : Verdict} (node : VmRunnerNode) :
    (node.execute statement verdict).1.process = node.process := by
  rcases verdict with _ | _ | _ <;> rfl

theorem RunnerInv.execute (h : RunnerInv io node)
    (hallowed : statement.Allowed io node.rows node.lastBatch node.handled) (verdict : Verdict) :
    RunnerInv io (node.execute statement verdict).1 := by
  rcases verdict with _ | _ | _
  · exact h.executed hallowed
  · exact ⟨h.completed, h.started, List.forall_mem_cons.2 ⟨hallowed, h.late⟩, h.process⟩
  · exact h.executed hallowed

theorem RunnerInv.withProcess (h : RunnerInv io node)
    (hprocess : ProcessInv io node.rows node.lastBatch node.handled process) :
    RunnerInv io (node.withProcess process) := by
  refine ⟨h.completed, h.started, h.late, fun p hp => ?_⟩
  cases hp
  exact hprocess

section Tasks

variable (h : ProcessInv io rows lastBatch handled process)
include h

theorem ProcessInv.stopRunner :
    ProcessInv io rows lastBatch handled { process with runner := .stopped } :=
  ⟨nofun, nofun, h.returned, h.completer, h.completing⟩

theorem ProcessInv.stopCompleter :
    ProcessInv io rows lastBatch handled { process with completer := .stopped } :=
  ⟨h.runner, h.marking, h.returned, nofun, nofun⟩

theorem ProcessInv.complete {completer : CompleterTask} {receivers : List ℕ} {latest : ℕ}
    (hcompleter : completer.latest = some latest)
    (hlatest : io.firstProcessedBatch ≤ latest ∧ CompletedUpTo io rows latest) :
    ProcessInv io rows lastBatch handled { process with completer, receivers } := by
  refine ⟨h.runner, h.marking, h.returned, fun latest' hlatest' => ?_, ?_⟩
  · cases hcompleter.symm.trans hlatest'
    exact hlatest
  · rintro number rfl
    cases hcompleter

theorem ProcessInv.update (number : ℕ) {task : BatchTask}
    (htask : task = .returned true → number ∈ handled) :
    ProcessInv io rows lastBatch handled
      { process with tasks := Function.update process.tasks number (some task) } := by
  refine ⟨fun next hnext b hfirst hb => ?_, h.marking, fun b hb => ?_, h.completer, h.completing⟩
  · refine (h.runner next hnext b hfirst hb).imp_right fun hsome => ?_
    by_cases hsame : b = number
    · subst hsame
      simp only [Function.update_self, Option.isSome_some]
    · simpa only [Function.update_of_ne hsame] using hsome
  · by_cases hsame : b = number
    · subst hsame
      simp only [Function.update_self, Option.some.injEq] at hb
      exact htask hb
    · simp only [Function.update_of_ne hsame] at hb
      exact h.returned b hb

end Tasks

section

variable (h : RunnerInv io node)
include h

section

variable (hprocess : node.process = some process)
include hprocess

theorem RunnerInv.stepRunner
    (hstep : node.stepRunner io process e = some node') : RunnerInv io node' := by
  have hinv := h.process process hprocess
  cases e <;> simp only [VmRunnerNode.stepRunner, reduceCtorEq] at hstep
  case readRunner =>
    split at hstep
    · cases hstep
      refine h.withProcess ⟨fun next hnext b hfirst hb => ?_, nofun, hinv.returned, hinv.completer,
        hinv.completing⟩
      cases hnext
      exact .inl (h.completedUpTo.2 b hfirst (Nat.le_of_lt_succ hb))
    · cases hstep
  case checkReady =>
    split at hstep
    · rename_i next hrunner
      split at hstep
      · cases hstep
        refine h.withProcess ⟨fun next' hnext' => ?_, nofun, hinv.returned, hinv.completer,
          hinv.completing⟩
        cases hnext'
        exact hinv.runner next (by rw [hrunner]; rfl)
      · cases hstep
    · cases hstep
  case createHandler ok =>
    split at hstep
    · rename_i next hrunner
      split at hstep
      · rename_i hready
        cases hstep
        refine h.withProcess ⟨fun next' hnext' => ?_, fun next' hmarking => ?_,
          hinv.returned, hinv.completer, hinv.completing⟩
        · cases hnext'
          exact hinv.runner next (by rw [hrunner]; rfl)
        · obtain rfl := RunnerTask.marking.inj hmarking
          obtain ⟨-, hlatest, hlast⟩ := hready
          have hfirst := h.completedUpTo.1
          rw [lastReadyToBeLoadedBatch] at hlast
          exact ⟨by omega, by omega, by omega⟩
      · cases hstep
        exact h.withProcess hinv.stopRunner
    · cases hstep
  case markAsProcessing verdict =>
    split at hstep
    · rename_i next hrunner
      cases hstep
      have hallowed : (RunnerStatement.markAsProcessing next).Allowed io node.rows node.lastBatch
          node.handled := hinv.marking next hrunner
      have hexecuted := h.execute hallowed verdict
      have hinv' := hexecuted.process process (node.execute_process.trans hprocess)
      have htask : (if (node.execute (.markAsProcessing next) verdict).2 then BatchTask.running
          else .dropped) = .returned true →
            next ∈ (node.execute (.markAsProcessing next) verdict).1.handled := by
        split <;> simp
      have hupdated := hinv'.update next htask
      refine hexecuted.withProcess ⟨fun next' hnext' b hfirst hb => ?_, fun next' hmarking => ?_,
        hupdated.returned, hinv'.completer, hinv'.completing⟩
      · -- the batches before the next one have a task, and so has the one that was started
        split at hnext'
        · cases hnext'
          rcases (Nat.le_of_lt_succ hb).lt_or_eq with hlt | rfl
          · exact hupdated.runner next (by rw [hrunner]; rfl) b hfirst hlt
          · exact .inr (by simp only [Function.update_self, Option.isSome_some])
        · cases hnext'
      · split at hmarking <;> cases hmarking
    · cases hstep
  case stopRunner =>
    cases hstep
    exact h.withProcess hinv.stopRunner

theorem RunnerInv.stepTask (hstep : node.stepTask process e = some node') : RunnerInv io node' := by
  have hinv := h.process process hprocess
  cases e <;> simp only [VmRunnerNode.stepTask, reduceCtorEq] at hstep
  case dropTask number | handleL1Batch number =>
    split at hstep
    · cases hstep
      exact h.withProcess (hinv.update number nofun)
    · cases hstep
  case returnHandler number ok =>
    split at hstep
    · cases hstep
      have hhandled : node.handled ⊆ if ok then number :: node.handled else node.handled := by
        split
        · exact List.subset_cons_self _ _
        · exact .refl _
      -- only what is handled grows
      have hahead : Ahead node.rows node.rows node.lastBatch node.lastBatch node.handled
          (if ok then number :: node.handled else node.handled) :=
        ⟨fun _ hb => hb, le_rfl, hhandled⟩
      refine ⟨fun b hb => (h.completed b hb).ahead hahead, h.started,
        fun s hs => (h.late s hs).ahead hahead, fun p hp => ?_⟩
      cases hp
      refine (hinv.ahead hahead).update number fun htask => ?_
      cases htask
      exact List.mem_cons_self
    · cases hstep

theorem RunnerInv.stepCompleter
    (hstep : node.stepCompleter io process e = some node') : RunnerInv io node' := by
  have hinv := h.process process hprocess
  cases e <;> simp only [VmRunnerNode.stepCompleter, reduceCtorEq] at hstep
  case readCompleter =>
    split at hstep
    · cases hstep
      exact h.withProcess (hinv.complete rfl h.completedUpTo)
    · cases hstep
  case takeReceiver =>
    split at hstep
    · rename_i latest hcompleter
      split at hstep
      · cases hstep
        exact h.withProcess (hinv.complete rfl (hinv.completer latest (by rw [hcompleter]; rfl)))
      · cases hstep
    · cases hstep
  case receiveHandle =>
    split at hstep
    · rename_i latest hcompleter
      have hlatest := hinv.completer latest (by rw [hcompleter]; rfl)
      split at hstep
      · cases hstep
        exact h.withProcess (hinv.complete rfl hlatest)
      · cases hstep
        exact h.withProcess (hinv.complete rfl hlatest)
      · cases hstep
        exact h.withProcess hinv.stopCompleter
      · cases hstep
    · cases hstep
  case joinHandle =>
    split at hstep
    · rename_i latest hcompleter
      split at hstep
      · rename_i hreturned
        cases hstep
        obtain ⟨hfirst, hupTo⟩ := hinv.completer latest (by rw [hcompleter]; rfl)
        refine h.withProcess ⟨hinv.runner, hinv.marking, hinv.returned, nofun,
          fun number hnumber => ?_⟩
        obtain rfl := CompleterTask.marking.inj hnumber
        exact ⟨Nat.lt_succ_of_le hfirst, hinv.returned _ hreturned,
          fun b hb hlt => hupTo b hb (Nat.le_of_lt_succ hlt)⟩
      · cases hstep
        exact h.withProcess hinv.stopCompleter
      · cases hstep
    · cases hstep
  case markAsCompleted verdict =>
    split at hstep
    · rename_i number hcompleter
      cases hstep
      have hcompletable := hinv.completing number hcompleter
      have hallowed : (RunnerStatement.markAsCompleted number).Allowed io node.rows node.lastBatch
          node.handled := hcompletable
      have hexecuted := h.execute hallowed verdict
      have hinv' := hexecuted.process process (node.execute_process.trans hprocess)
      refine hexecuted.withProcess ⟨hinv'.runner, hinv'.marking, hinv'.returned,
        fun latest hlatest => ?_, fun _ hnumber => by split at hnumber <;> cases hnumber⟩
      split at hlatest
      · rename_i hok
        cases hlatest
        obtain ⟨hok, hrow⟩ := Bool.and_eq_true_iff.1 hok
        obtain ⟨row, hrow, hnumber⟩ := List.any_eq_true.1 hrow
        have hstarted : Started node.rows number := ⟨row, hrow, of_decide_eq_true hnumber⟩
        have hcompleter' := hinv'.completing number hcompleter
        refine ⟨hcompletable.first.le, fun b hb hle => ?_⟩
        rcases hle.lt_or_eq with hlt | rfl
        · exact hcompleter'.earlier b hb hlt
        · -- the answer came, so the statement was carried out
          rcases verdict with _ | _ | _
          · exact completed_markAsCompleted.2 (.inr ⟨rfl, hstarted⟩)
          · cases hok
          · cases hok
      · cases hlatest
    · cases hstep
  case stopCompleter =>
    cases hstep
    exact h.withProcess hinv.stopCompleter

end

theorem RunnerInv.stepProcess (hstep : (match node.process with
      | some process => (node.stepRunner io process e).or
          ((node.stepTask process e).or (node.stepCompleter io process e))
      | none => none) = some node') : RunnerInv io node' := by
  split at hstep
  · rename_i process hprocess
    rcases Option.or_eq_some_iff.1 hstep with hstep | ⟨-, hstep⟩
    · exact h.stepRunner hprocess hstep
    · rcases Option.or_eq_some_iff.1 hstep with hstep | ⟨-, hstep⟩
      · exact h.stepTask hprocess hstep
      · exact h.stepCompleter hprocess hstep
  · cases hstep

theorem RunnerInv.step (hstep : runnerStep io node e node') : RunnerInv io node' := by
  cases e with
  | newBatch =>
    cases hstep
    have hahead : Ahead node.rows node.rows node.lastBatch (node.lastBatch + 1) node.handled
        node.handled := ⟨fun _ hb => hb, Nat.le_succ _, .refl _⟩
    exact ⟨h.completed, fun b hb => (h.started b hb).ahead hahead,
      fun s hs => (h.late s hs).ahead hahead, fun p hp => (h.process p hp).ahead hahead⟩
  | start =>
    simp only [runnerStep, StepRel.ofPartial, VmRunnerNode.step] at hstep
    split at hstep
    · cases hstep
      exact h.withProcess (by constructor <;> rintro _ ⟨⟩)
    · cases hstep
  | crash =>
    cases hstep
    exact ⟨h.completed, h.started, h.late, by rintro _ ⟨⟩⟩
  -- what was sound when it was sent stays so
  | late i =>
    simp only [runnerStep, StepRel.ofPartial, VmRunnerNode.step] at hstep
    split at hstep
    · rename_i statement hlate
      cases hstep
      have hexecuted := h.executed (h.late statement (List.mem_of_getElem? hlate))
      exact ⟨hexecuted.completed, hexecuted.started,
        fun s hs => hexecuted.late s ((List.eraseIdx_sublist _ _).subset hs), hexecuted.process⟩
    · cases hstep
  | _ => exact h.stepProcess hstep

end

theorem RunnerInv.initial (io : VmRunnerIo) (lastBatch : ℕ) :
    RunnerInv io (VmRunnerNode.initial lastBatch) where
  completed _ hb := by
    obtain ⟨_, hrow, -⟩ := hb
    cases hrow
  started _ hb := by
    obtain ⟨_, hrow, -⟩ := hb
    cases hrow
  late := nofun
  process := nofun

/-! ### Processing again -/

structure CaughtUp (io : VmRunnerIo) (node : VmRunnerNode) (latest : ℕ) : Prop where
  process : ∃ receivers tasks, node.process = some ⟨.idle (latest + 1), .waiting latest,
    receivers, tasks⟩
  latest : latestProcessedBatch io node.rows = latest

/-- The steps that process a batch when nothing fails. -/
def processNext (number : ℕ) : List RunnerEvent :=
  [.checkReady, .createHandler true, .markAsProcessing .done, .handleL1Batch number,
    .returnHandler number true, .takeReceiver, .receiveHandle, .joinHandle, .markAsCompleted .done]

variable {latest : ℕ}

theorem completes_next (h : CaughtUp io node latest) (hwindow : 1 ≤ io.windowSize)
    (hlast : latest + 1 ≤ node.lastBatch) :
    ∃ node', Run (runnerStep io) node (processNext (latest + 1)) node' ∧
      CaughtUp io node' (latest + 1) ∧ node'.lastBatch = node.lastBatch := by
  obtain ⟨⟨receivers, tasks, hprocess⟩, hlatest⟩ := h
  have hready : latest + 1 ≤ lastReadyToBeLoadedBatch io node.rows node.lastBatch := by
    rw [lastReadyToBeLoadedBatch, hlatest]
    omega
  have hnew : latestProcessedBatch io node.rows < latest + 1 := by omega
  have hstarted : Started (RunnerStatement.execute node.rows (.markAsProcessing (latest + 1)))
      (latest + 1) := started_markAsProcessing.2 (.inr rfl)
  have hrun : runPartial (fun node e => VmRunnerNode.step io node e) node
    (processNext (latest + 1)) =
      some { node with
        rows := RunnerStatement.execute (RunnerStatement.execute node.rows
          (.markAsProcessing (latest + 1))) (.markAsCompleted (latest + 1))
        process := some ⟨.idle (latest + 2), .waiting (latest + 1), receivers,
          Function.update tasks (latest + 1) (some (.returned true))⟩
        handled := (latest + 1) :: node.handled } := by
    unfold Started at hstarted
    simp [processNext, runPartial, VmRunnerNode.step, VmRunnerNode.stepRunner,
      VmRunnerNode.stepTask, VmRunnerNode.stepCompleter, VmRunnerNode.withProcess,
      VmRunnerNode.execute, hprocess, hready, hnew, hstarted]
  refine ⟨_, Run.of_runPartial hrun, ⟨⟨_, _, rfl⟩, ?_⟩, rfl⟩
  -- of the marked batches, the new one is the last
  refine latestProcessedBatch_eq (completed_markAsCompleted.2 (.inr ⟨rfl, hstarted⟩)) fun b hb => ?_
  rcases completed_markAsCompleted.1 hb with hb | ⟨rfl, -⟩
  · have hle : b ≤ latestProcessedBatch io node.rows :=
      (completed_markAsProcessing.1 hb).le_latest
    omega
  · exact le_rfl

theorem completes_upTo (h : CaughtUp io node latest) (hwindow : 1 ≤ io.windowSize)
    (count : ℕ) (hlast : latest + count ≤ node.lastBatch) :
    ∃ node', Run (runnerStep io) node
        ((List.range' (latest + 1) count).flatMap processNext) node' ∧
      CaughtUp io node' (latest + count) ∧ node'.lastBatch = node.lastBatch := by
  induction count with
  | zero => exact ⟨node, .nil node, h, rfl⟩
  | succ count ih =>
    obtain ⟨node₁, hrun₁, hcaught₁, hlast₁⟩ := ih (by omega)
    obtain ⟨node₂, hrun₂, hcaught₂, hlast₂⟩ := completes_next hcaught₁ hwindow (by omega)
    refine ⟨node₂, ?_, hcaught₂, hlast₂.trans hlast₁⟩
    have hnumber : latest + 1 + count = latest + count + 1 := by omega
    rw [List.range'_concat, List.flatMap_append, Nat.one_mul, hnumber]
    simpa only [List.flatMap_cons, List.flatMap_nil, List.append_nil] using hrun₁.append hrun₂

theorem restarts (io : VmRunnerIo) (node : VmRunnerNode) :
    ∃ node', Run (runnerStep io) node [.crash, .start, .readRunner, .readCompleter] node' ∧
      CaughtUp io node' (latestProcessedBatch io node.rows) ∧ node'.rows = node.rows ∧
      node'.lastBatch = node.lastBatch := by
  have hrun : runPartial (fun node e => VmRunnerNode.step io node e) node
      [.crash, .start, .readRunner, .readCompleter] = some (node.withProcess
        ⟨.idle (latestProcessedBatch io node.rows + 1),
          .waiting (latestProcessedBatch io node.rows), [], fun _ => none⟩) := by
    simp [runPartial, VmRunnerNode.step, VmRunnerNode.stepRunner, VmRunnerNode.stepTask,
      VmRunnerNode.stepCompleter, VmRunnerNode.withProcess, RunnerProcess.fresh]
  exact ⟨_, Run.of_runPartial hrun, ⟨⟨_, _, rfl⟩, rfl⟩, rfl, rfl⟩

/-! ### Runs -/

/-- **Progress is a prefix.**  In every run, whatever fails: the marked batches are an initial
segment, and the handler of each has returned; a running process has started every batch before its
next one; and after a restart every batch that was started can be processed to its mark. -/
theorem vmRunner_progress {lastBatch : ℕ} {es : List RunnerEvent}
    (hrun : Run (runnerStep io) (VmRunnerNode.initial lastBatch) es node) :
    (∀ b, Completed node.rows b ↔
        io.firstProcessedBatch < b ∧ b ≤ latestProcessedBatch io node.rows) ∧
      (∀ b, Completed node.rows b → b ∈ node.handled) ∧
      (∀ process next b, node.process = some process → process.runner.next = some next →
        io.firstProcessedBatch < b → b < next → Completed node.rows b ∨ (process.tasks b).isSome) ∧
      ∀ b, Started node.rows b → ¬ Completed node.rows b →
        ∃ es' node', Run (runnerStep io) node
          ([.crash, .start, .readRunner, .readCompleter] ++ es') node' ∧
          .returnHandler b true ∈ es' ∧ Completed node'.rows b := by
  have hinv : RunnerInv io node := hrun.invariant (I := RunnerInv io)
    (fun _ _ _ h hstep => h.step hstep) (.initial io lastBatch)
  refine ⟨fun b => ⟨fun hb => ⟨(hinv.completed b hb).first, hb.le_latest⟩, fun hb => ?_⟩,
    fun b hb => (hinv.completed b hb).handled, fun process next b hprocess hnext => ?_,
    fun b hstarted hnot => ?_⟩
  · exact hinv.completedUpTo.2 b hb.1 hb.2
  · exact (hinv.process process hprocess).runner next hnext b
  · obtain ⟨hfirst, hsealed, hwindow⟩ := hinv.started b hstarted
    have hlt : latestProcessedBatch io node.rows < b := by
      by_contra hle
      exact hnot (hinv.completedUpTo.2 b hfirst (not_lt.1 hle))
    -- batch after batch from the latest one on
    obtain ⟨count, rfl⟩ := Nat.exists_eq_add_of_lt hlt
    obtain ⟨node₁, hrun₁, hcaught₁, -, hlast₁⟩ := restarts io node
    obtain ⟨node₂, hrun₂, hcaught₂, -⟩ := completes_upTo hcaught₁ hwindow (count + 1)
      (by rw [hlast₁]; omega)
    have hinv₂ : RunnerInv io node₂ := (hrun.append (hrun₁.append hrun₂)).invariant
      (I := RunnerInv io) (fun _ _ _ h hstep => h.step hstep) (.initial io lastBatch)
    refine ⟨_, node₂, hrun₁.append hrun₂, ?_, ?_⟩
    · rw [List.mem_flatMap]
      refine ⟨latestProcessedBatch io node.rows + count + 1, ?_, ?_⟩
      · rw [List.mem_range'_1]
        omega
      · simp [processNext]
    · exact hinv₂.completedUpTo.2 _ hfirst (by rw [hcaught₂.latest]; omega)

end Steps

def sampleVmRunnerIo : VmRunnerIo := ⟨0, 2⟩

/-- The second batch is handled before the first, and the process crashes before it is marked. -/
def sampleRunnerCrash : List RunnerEvent :=
  [.start, .readRunner, .readCompleter, .checkReady, .createHandler true, .markAsProcessing .done,
    .checkReady, .createHandler true, .markAsProcessing .done, .handleL1Batch 2,
      .returnHandler 2 true,
    .handleL1Batch 1, .returnHandler 1 true, .takeReceiver, .receiveHandle, .joinHandle,
    .markAsCompleted .done, .crash]

theorem vmRunner_progress_again :
    ∃ node, Run (runnerStep sampleVmRunnerIo) (.initial 2) sampleRunnerCrash node ∧
      node.rows = [⟨1, true⟩, ⟨2, false⟩] ∧
      (∀ b, Completed node.rows b ↔ 0 < b ∧ b ≤ latestProcessedBatch sampleVmRunnerIo node.rows) ∧
      ∃ es' node', Run (runnerStep sampleVmRunnerIo) node
          ([.crash, .start, .readRunner, .readCompleter] ++ es') node' ∧
        .returnHandler 2 true ∈ es' ∧ Completed node'.rows 2 := by
  refine Run.witness (P := fun node => node.rows = [⟨1, true⟩, ⟨2, false⟩]) ?_ (by decide +kernel)
  intro node hrun hrows
  obtain ⟨hfirst, -, -, hagain⟩ := vmRunner_progress hrun
  refine ⟨hrows, hfirst, hagain 2 ?_ ?_⟩
  · rw [hrows]
    exact ⟨⟨2, false⟩, by decide, rfl⟩
  · rw [hrows]
    rintro ⟨row, hrow, hnumber, htaken⟩
    rcases List.mem_pair.1 hrow with rfl | rfl
    · cases hnumber
    · cases htaken
