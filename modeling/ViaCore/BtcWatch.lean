/-
The watcher: its loop, its recovery and its restarts.

`BtcWatch` polls the tip of the chain, reads the blocks since its cursor and hands their messages to
the deposit processor.  Cursor and priority counter live in memory; after a restart both are read
back from the transactions table, and after a database error only the cursor is.

A run (`watchStep`) is any interleaving of starts, loop iterations, recoveries and stops, with any
answers of the node, database statements that fail at any point, and rows that other components
insert.

* `initializeState_eq_some` — where cursor and counter come from.
-/
import ViaCore.L1ToL2

/-! ### The watcher -/

structure BtcWatchState (Address : Type) where
  lastProcessedBitcoinBlock : ℕ
  nextExpectedPriorityId : ℕ
  bridgeAddress : Address

/-- `L1ToL2MessageProcessor` is the only message processor there is. -/
structure BtcWatch (Address : Type) where
  indexer : BitcoinInscriptionIndexer Address
  confirmationsForBtcMsg : ℕ
  lastProcessedBitcoinBlock : ℕ
  processor : L1ToL2MessageProcessor Address
  btcBlocksLag : ℕ

/-- What the node and the database answer to an initialisation; `tip` is the block height.  Heights
fit into the 32 bits that the source casts them to. -/
structure InitAnswers where
  tip : Option ℕ
  queriesFail : Bool

section Watcher

variable {Address Hash : Type}

def nextPriorityId (table : List (TransactionRow Hash)) : ℕ :=
  ((lastPriorityId table).map (· + 1)).getD 0

/-- Where the cursor is put: before the block of the last deposit, or `btcBlocksLag` blocks behind
the tip if there is no deposit. -/
def startCursor (table : List (TransactionRow Hash)) (btcBlocksLag : ℕ) (tip : Option ℕ) :
    Option ℕ :=
  match getLastProcessedL1Block table with
  -- natural subtraction saturates, as the source's does
  | some block => some (block - 1)
  | none => tip.map fun tip => tip - btcBlocksLag

def initializeState (indexer : BitcoinInscriptionIndexer Address)
    (table : List (TransactionRow Hash)) (btcBlocksLag : ℕ) (answers : InitAnswers) :
    Option (BtcWatchState Address) :=
  if answers.queriesFail then none
  else do
    let lastProcessedBitcoinBlock ← startCursor table btcBlocksLag answers.tip
    return {
      lastProcessedBitcoinBlock
      nextExpectedPriorityId := nextPriorityId table
      bridgeAddress := indexer.bridgeAddress }

structure WatchConfig where
  network : Network
  confirmationsForBtcMsg : Option ℕ
  btcBlocksLag : ℕ

/-- `BtcWatch::new` once its indexer is there.  Mainnet needs at least one confirmation. -/
def BtcWatch.new (config : WatchConfig) (indexer : BitcoinInscriptionIndexer Address)
    (table : List (TransactionRow Hash)) (answers : InitAnswers) : Option (BtcWatch Address) := do
  let state ← initializeState indexer table config.btcBlocksLag answers
  let confirmations := config.confirmationsForBtcMsg.getD 0
  if config.network = .bitcoin ∧ confirmations = 0 then none
  else some {
    indexer
    confirmationsForBtcMsg := confirmations
    lastProcessedBitcoinBlock := state.lastProcessedBitcoinBlock
    processor :=
      { bridgeAddress := state.bridgeAddress
        nextExpectedPriorityId := state.nextExpectedPriorityId }
    btcBlocksLag := config.btcBlocksLag }

structure IterationAnswers where
  tip : Option ℕ
  fetchBlock : ℕ → Option (List Transaction)
  fault : Option DbFault

variable [DecidableEq Hash] (canonicalHash : L2CanonicalTransaction → Hash)
  (B : RustBitcoin Address)

def BtcWatch.loopIteration (self : BtcWatch Address) (table : List (TransactionRow Hash))
    (answers : IterationAnswers) :
    BtcWatch Address × List (TransactionRow Hash) × Outcome MessageProcessorError Unit :=
  match answers.tip with
  | none => (self, table, .err .internal)
  | some tip =>
    let toBlock := tip - self.confirmationsForBtcMsg
    if toBlock ≤ self.lastProcessedBitcoinBlock then (self, table, .ok ())
    else
      match self.indexer.processBlocks B answers.fetchBlock (self.lastProcessedBitcoinBlock + 1)
        toBlock with
      | (indexer, .ok msgs) =>
        match self.processor.processMessages canonicalHash B table answers.fault msgs with
        | (processor, table, .ok ()) =>
          ({ self with indexer, processor, lastProcessedBitcoinBlock := toBlock }, table, .ok ())
        | (processor, table, .err e) => ({ self with indexer, processor }, table, .err e)
        | (processor, table, .panic) => ({ self with indexer, processor }, table, .panic)
      | (indexer, .err _) => ({ self with indexer }, table, .err .internal)
      | (indexer, .panic) => ({ self with indexer }, table, .panic)

def BtcWatch.handedRange (self : BtcWatch Address) (answers : IterationAnswers) : Option (ℕ × ℕ) :=
  match answers.tip with
  | none => none
  | some tip =>
    let toBlock := tip - self.confirmationsForBtcMsg
    if toBlock ≤ self.lastProcessedBitcoinBlock then none
    else
      match (self.indexer.processBlocks B answers.fetchBlock (self.lastProcessedBitcoinBlock + 1)
        toBlock).2 with
      | .ok _ => some (self.lastProcessedBitcoinBlock + 1, toBlock)
      | _ => none

def BtcWatch.operations (self : BtcWatch Address) (table : List (TransactionRow Hash))
    (answers : IterationAnswers) : List L2CanonicalTransaction :=
  match answers.tip with
  | none => []
  | some tip =>
    match (self.indexer.processBlocks B answers.fetchBlock (self.lastProcessedBitcoinBlock + 1)
      (tip - self.confirmationsForBtcMsg)).2 with
    | .ok msgs =>
      operationsOf self.processor.nextExpectedPriorityId
        (newDeposits B table self.processor.bridgeAddress msgs)
    | _ => []

end Watcher

section Iteration

variable {Address Hash : Type} [DecidableEq Hash] {canonicalHash : L2CanonicalTransaction → Hash}
  {B : RustBitcoin Address} {table : List (TransactionRow Hash)}

variable (canonicalHash B table) in
/-- An iteration that hands the messages up to `toBlock` to the processor: the counter moves over
some new deposits, an initial part is stored, and the cursor moves if that is all of them. -/
structure BtcWatch.Hands (w : BtcWatch Address) (answers : IterationAnswers) (toBlock : ℕ)
    (msgs : List (FullInscriptionMessage Address)) (moved stored : ℕ) : Prop where
  tip : ∃ tip, answers.tip = some tip ∧ toBlock = tip - w.confirmationsForBtcMsg
  behind : w.lastProcessedBitcoinBlock < toBlock
  range : w.handedRange B answers = some (w.lastProcessedBitcoinBlock + 1, toBlock)
  messages : (w.indexer.processBlocks B answers.fetchBlock (w.lastProcessedBitcoinBlock + 1)
    toBlock).2 = .ok msgs
  stored_le : stored ≤ moved
  moved_le : moved ≤ (newDeposits B table w.processor.bridgeAddress msgs).length
  processor : (w.loopIteration canonicalHash B table answers).1.processor
    = { w.processor with
        nextExpectedPriorityId := w.processor.nextExpectedPriorityId + moved }
  rows : (w.loopIteration canonicalHash B table answers).2.1
    = ((numberedOps canonicalHash w.processor.nextExpectedPriorityId
        (newDeposits B table w.processor.bridgeAddress msgs)).take stored).foldl
          insertPriorityOp table
  outcome :
    ((w.loopIteration canonicalHash B table answers).2.2 = .ok ()
      ∧ stored = (newDeposits B table w.processor.bridgeAddress msgs).length
      ∧ (w.loopIteration canonicalHash B table answers).1.lastProcessedBitcoinBlock = toBlock) ∨
    (w.loopIteration canonicalHash B table answers).2.2 = .err .databaseError

/-- **One iteration** is done at once because there is no new block, fails without touching the
table, or hands a range of blocks to the processor. -/
theorem loopIteration_cases (w : BtcWatch Address) (answers : IterationAnswers) :
    (∃ tip, answers.tip = some tip
      ∧ tip - w.confirmationsForBtcMsg ≤ w.lastProcessedBitcoinBlock
      ∧ w.handedRange B answers = none
      ∧ w.loopIteration canonicalHash B table answers = (w, table, .ok ())) ∨
    (w.handedRange B answers = none
      ∧ (w.loopIteration canonicalHash B table answers).2.1 = table
      ∧ ((w.loopIteration canonicalHash B table answers).2.2 = .err .internal
        ∨ (w.loopIteration canonicalHash B table answers).2.2 = .panic)) ∨
    ∃ toBlock msgs moved stored,
      w.Hands canonicalHash B table answers toBlock msgs moved stored := by
  cases htip : answers.tip with
  | none =>
    refine .inr (.inl ⟨?_, ?_, .inl ?_⟩) <;> simp only [BtcWatch.handedRange,
      BtcWatch.loopIteration, htip]
  | some tip =>
    by_cases hnothing : tip - w.confirmationsForBtcMsg ≤ w.lastProcessedBitcoinBlock
    · refine .inl ⟨tip, rfl, hnothing, ?_, ?_⟩
      · simp only [BtcWatch.handedRange, htip, if_pos hnothing]
      · simp only [BtcWatch.loopIteration, htip, if_pos hnothing]
    · rcases hblocks : w.indexer.processBlocks B answers.fetchBlock
        (w.lastProcessedBitcoinBlock + 1) (tip - w.confirmationsForBtcMsg)
        with ⟨indexer, msgs | e | _⟩
      · -- the processor is called
        have hloop : w.loopIteration canonicalHash B table answers
            = (match w.processor.processMessages canonicalHash B table answers.fault msgs with
              | (processor, table, .ok ()) =>
                ({ w with
                    indexer, processor
                    lastProcessedBitcoinBlock := tip - w.confirmationsForBtcMsg }, table, .ok ())
              | (processor, table, .err e) => ({ w with indexer, processor }, table, .err e)
              | (processor, table, .panic) => ({ w with indexer, processor }, table, .panic)) := by
          simp only [BtcWatch.loopIteration, htip, if_neg hnothing, hblocks]
        obtain ⟨i, j, hji, hi, hprocessor, htable, hout⟩ := @processMessages_spec _ _
          canonicalHash B table w.processor answers.fault msgs _
        refine .inr (.inr ⟨tip - w.confirmationsForBtcMsg, msgs, i, j, ⟨tip, htip, rfl⟩, by omega,
          ?_, ?_, hji, hi, ?_, ?_, ?_⟩)
        · simp only [BtcWatch.handedRange, htip, if_neg hnothing, hblocks]
        · rw [hblocks]
        all_goals
          rw [hloop]
          rcases hcall : w.processor.processMessages canonicalHash B table answers.fault msgs
            with ⟨processor, table', u | e | _⟩
          all_goals
            rw [hcall] at hprocessor htable hout
        any_goals first | exact hprocessor | exact htable
        · rcases hout with ⟨-, hj⟩ | ⟨-, hout⟩
          · exact .inl ⟨rfl, hj, rfl⟩
          · cases hout
        · rcases hout with ⟨hout, -⟩ | ⟨-, hout⟩
          · cases hout
          · exact .inr hout
        · rcases hout with ⟨hout, -⟩ | ⟨-, hout⟩ <;> cases hout
      · refine .inr (.inl ⟨?_, ?_, .inl ?_⟩) <;> simp only [BtcWatch.handedRange,
          BtcWatch.loopIteration, htip, if_neg hnothing, hblocks]
      · refine .inr (.inl ⟨?_, ?_, .inr ?_⟩) <;> simp only [BtcWatch.handedRange,
          BtcWatch.loopIteration, htip, if_neg hnothing, hblocks]

theorem BtcWatch.Hands.operations_eq {w : BtcWatch Address} {answers : IterationAnswers}
    {toBlock moved stored : ℕ} {msgs : List (FullInscriptionMessage Address)}
    (h : w.Hands canonicalHash B table answers toBlock msgs moved stored) :
    w.operations B table answers = operationsOf w.processor.nextExpectedPriorityId
      (newDeposits B table w.processor.bridgeAddress msgs) := by
  obtain ⟨tip, htip, rfl⟩ := h.tip
  simp only [BtcWatch.operations, htip, h.messages]

end Iteration

section Initialisation

variable {Address Hash : Type} {indexer : BitcoinInscriptionIndexer Address}
  {table : List (TransactionRow Hash)} {answers : InitAnswers}

theorem initializeState_eq_some {lag : ℕ} {state : BtcWatchState Address}
    (h : initializeState indexer table lag answers = some state) :
    state.nextExpectedPriorityId = nextPriorityId table ∧
    ((∃ block, getLastProcessedL1Block table = some block
        ∧ state.lastProcessedBitcoinBlock = block - 1) ∨
      ∃ tip, getLastProcessedL1Block table = none ∧ answers.tip = some tip
        ∧ state.lastProcessedBitcoinBlock = tip - lag) := by
  unfold initializeState at h
  by_cases hfail : answers.queriesFail = true
  · rw [if_pos hfail] at h
    cases h
  · rw [if_neg hfail] at h
    obtain ⟨cursor, hcursor, hstate⟩ := Option.bind_eq_some_iff.1 h
    cases hstate
    refine ⟨rfl, ?_⟩
    unfold startCursor at hcursor
    cases hlast : getLastProcessedL1Block table with
    | some block =>
      simp only [hlast] at hcursor
      exact .inl ⟨block, rfl, (Option.some.inj hcursor).symm⟩
    | none =>
      simp only [hlast] at hcursor
      obtain ⟨tip, htip, hcursor⟩ := Option.map_eq_some_iff.1 hcursor
      exact .inr ⟨tip, rfl, htip, hcursor.symm⟩

end Initialisation

section Runs

/-- A row of another component: an L2 transaction, which has no priority id. -/
structure L2Row (Hash : Type) where
  row : TransactionRow Hash
  isPriority : row.isPriority = false
  priorityOpId : row.priorityOpId = none

variable (Address : Type) {Hash : Type} (canonicalHash : L2CanonicalTransaction → Hash)

/-- Where `run` stands: not started, before its next iteration, or about to reset the cursor after a
database error. -/
inductive Phase where
  | stopped
  | running (watch : BtcWatch Address)
  | recovering (watch : BtcWatch Address)

/-- The table and the process, with the history of the run: the ranges of blocks handed to the
processor so far, and the target of the last completed iteration. -/
structure WatchTrace (Hash : Type) where
  table : List (TransactionRow Hash)
  phase : Phase Address
  handed : List (ℕ × ℕ)
  completed : Option ℕ

def WatchTrace.initial (Hash : Type) : WatchTrace Address Hash := ⟨[], .stopped, [], none⟩

/-- A process that is killed in the middle of an iteration has carried out some of the statements:
`iterate` with a fault and `killed`. -/
inductive WatchEvent (Hash : Type) where
  | start (config : WatchConfig) (indexer : BitcoinInscriptionIndexer Address)
      (answers : InitAnswers)
  | iterate (answers : IterationAnswers) (killed : Bool)
  | recover (answers : InitAnswers)
  | stop
  | other (row : L2Row Hash)

variable {Address}

def BtcWatch.phaseAfter (self : BtcWatch Address) :
    Outcome MessageProcessorError Unit → Phase Address
  | .ok () => .running self
  | .err .internal => .stopped
  | .err .databaseError => .recovering self
  | .panic => .stopped

/-- The reset after a database error: only the cursor is read back. -/
def BtcWatch.recover (self : BtcWatch Address) (table : List (TransactionRow Hash))
    (answers : InitAnswers) : Phase Address :=
  match initializeState self.indexer table self.btcBlocksLag answers with
  | some state =>
    .running { self with lastProcessedBitcoinBlock := state.lastProcessedBitcoinBlock }
  | none => .stopped

variable [DecidableEq Hash] (B : RustBitcoin Address)

def WatchTrace.step (t : WatchTrace Address Hash) :
    WatchEvent Address Hash → Option (WatchTrace Address Hash)
  | .start config indexer answers =>
    match t.phase with
    | .stopped => some { t with
        phase :=
          match BtcWatch.new config indexer t.table answers with
          | some w => .running w
          | none => .stopped }
    | _ => none
  | .iterate answers killed =>
    match t.phase with
    | .running w =>
      let result := w.loopIteration canonicalHash B t.table answers
      some {
        table := result.2.1
        phase := if killed then .stopped else result.1.phaseAfter result.2.2
        handed := t.handed ++ (w.handedRange B answers).toList
        completed :=
          match result.2.2 with
          | .ok () => answers.tip.map fun tip => tip - w.confirmationsForBtcMsg
          | _ => t.completed }
    | _ => none
  | .recover answers =>
    match t.phase with
    | .recovering w => some { t with phase := w.recover t.table answers }
    | _ => none
  | .stop => some { t with phase := .stopped }
  | .other row => some { t with table := insertIfAbsent TransactionRow.hash t.table row.row }

def watchStep : StepRel (WatchTrace Address Hash) (WatchEvent Address Hash) :=
  StepRel.ofPartial (WatchTrace.step canonicalHash B)

variable {canonicalHash B} {t t' : WatchTrace Address Hash} {answers : InitAnswers}

theorem WatchTrace.step_start {config : WatchConfig} {indexer : BitcoinInscriptionIndexer Address}
    (h : watchStep canonicalHash B t (.start config indexer answers) t') :
    t' = { t with
      phase :=
        match BtcWatch.new config indexer t.table answers with
        | some w => .running w
        | none => .stopped } := by
  simp only [watchStep, StepRel.ofPartial, WatchTrace.step] at h
  split at h
  · exact (Option.some.inj h).symm
  · cases h

theorem WatchTrace.step_iterate {answers : IterationAnswers} {killed : Bool}
    (h : watchStep canonicalHash B t (.iterate answers killed) t') :
    ∃ w, t.phase = .running w ∧ t' = {
      table := (w.loopIteration canonicalHash B t.table answers).2.1
      phase :=
        if killed then .stopped
        else (w.loopIteration canonicalHash B t.table answers).1.phaseAfter
          (w.loopIteration canonicalHash B t.table answers).2.2
      handed := t.handed ++ (w.handedRange B answers).toList
      completed :=
        match (w.loopIteration canonicalHash B t.table answers).2.2 with
        | .ok () => answers.tip.map fun tip => tip - w.confirmationsForBtcMsg
        | _ => t.completed } := by
  simp only [watchStep, StepRel.ofPartial, WatchTrace.step] at h
  split at h
  · rename_i w hphase
    exact ⟨w, hphase, (Option.some.inj h).symm⟩
  · cases h

theorem WatchTrace.step_recover (h : watchStep canonicalHash B t (.recover answers) t') :
    ∃ w, t.phase = .recovering w ∧ t' = { t with phase := w.recover t.table answers } := by
  simp only [watchStep, StepRel.ofPartial, WatchTrace.step] at h
  split at h
  · rename_i w hphase
    exact ⟨w, hphase, (Option.some.inj h).symm⟩
  · cases h

end Runs
