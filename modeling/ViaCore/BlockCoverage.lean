/-
The blocks that the watcher reads.

The ranges of a run overlap after restarts, and they leave no hole as long as the cursor never
starts beyond the blocks handed so far.  A cursor that is read back from a stored deposit never
does.  One that is put `btc_blocks_lag` blocks behind the tip can, because nothing is known about
the blocks that were handed before.

* `watch_covers` — the blocks of every run whose starts without a deposit are near enough.
-/
import ViaCore.PriorityIds

section Ranges

variable {ranges : List (ℕ × ℕ)} {height : ℕ}

variable (ranges height) in
def Covered : Prop := ∃ r ∈ ranges, r.1 ≤ height ∧ height ≤ r.2

variable (ranges) in
def highestEnd : ℕ := ranges.foldl (fun m r => max m r.2) 0

theorem highestEnd_append (r : ℕ × ℕ) :
    highestEnd (ranges ++ [r]) = max (highestEnd ranges) r.2 := by
  unfold highestEnd
  rw [List.foldl_append]
  rfl

theorem Covered.append (h : Covered ranges height) (r : ℕ × ℕ) :
    Covered (ranges ++ [r]) height := by
  obtain ⟨r', hr', hbounds⟩ := h
  exact ⟨r', List.mem_append_left _ hr', hbounds⟩

theorem covered_append_last {r : ℕ × ℕ} (hlow : r.1 ≤ height) (hhigh : height ≤ r.2) :
    Covered (ranges ++ [r]) height :=
  ⟨r, List.mem_append_right _ (List.mem_singleton.2 rfl), hlow, hhigh⟩

variable (ranges) in
/-- Everything from the beginning of the first range to the highest end is covered. -/
def Seamless : Prop :=
  ∀ first ∈ ranges.head?, ∀ height, first.1 ≤ height → height ≤ highestEnd ranges →
    Covered ranges height

/-- **Extending.**  A range that begins at most one past the highest end leaves no hole. -/
theorem Seamless.append (h : Seamless ranges) {r : ℕ × ℕ}
    (hnear : ranges ≠ [] → r.1 ≤ highestEnd ranges + 1) : Seamless (ranges ++ [r]) := by
  intro first hfirst height hlow hhigh
  rw [highestEnd_append] at hhigh
  by_cases hempty : ranges = []
  · subst hempty
    cases hfirst
    refine covered_append_last hlow ?_
    change height ≤ max 0 r.2 at hhigh
    omega
  · have hhead : (ranges ++ [r]).head? = ranges.head? := by
      rw [List.head?_append_of_ne_nil _ hempty]
    rw [hhead] at hfirst
    by_cases hold : height ≤ highestEnd ranges
    · exact (h first hfirst height hlow hold).append r
    · have := hnear hempty
      exact covered_append_last (by omega) (by omega)

end Ranges

section Cursor

variable {Address Hash : Type} {canonicalHash : L2CanonicalTransaction → Hash}
  {B : RustBitcoin Address} {table : List (TransactionRow Hash)}

/-- Where a cursor may be: not beyond the blocks handed so far, and, if there are none yet, not
before the target of the last iteration. -/
def WatchTrace.Near (t : WatchTrace Address Hash) (cursor : ℕ) : Prop :=
  if t.handed = [] then ∀ target ∈ t.completed, target ≤ cursor else cursor ≤ highestEnd t.handed
deriving Decidable

/-- A start or a recovery that finds no deposit in the table puts the cursor near the blocks handed
so far. -/
def StartsNear (t : WatchTrace Address Hash) : WatchEvent Address Hash → Prop
  | .start config _ answers =>
    getLastProcessedL1Block t.table = none → ∀ tip ∈ answers.tip, t.Near (tip - config.btcBlocksLag)
  | .recover answers =>
    match t.phase with
    | .recovering w =>
      getLastProcessedL1Block t.table = none → ∀ tip ∈ answers.tip, t.Near (tip - w.btcBlocksLag)
    | _ => True
  | _ => True

instance (t : WatchTrace Address Hash) (e : WatchEvent Address Hash) :
    Decidable (StartsNear t e) := by
  induction e using WatchEvent.casesOn <;> unfold StartsNear
  case recover => induction t.phase using Phase.casesOn <;> infer_instance
  all_goals infer_instance

end Cursor

section Coverage

variable {Address Hash : Type} {canonicalHash : L2CanonicalTransaction → Hash}
  {B : RustBitcoin Address} {t t' : WatchTrace Address Hash}

variable (t) in
/-- The ranges are seamless, and cursor, last target and stored deposits are not beyond them. -/
structure CoverageInv : Prop where
  seamless : Seamless t.handed
  cursor : ∀ w, t.phase = .running w → t.Near w.lastProcessedBitcoinBlock
  target : t.handed ≠ [] → ∀ target ∈ t.completed, target ≤ highestEnd t.handed
  deposits : ∀ row ∈ t.table, row.priorityOpId.isSome = true →
    t.handed ≠ [] ∧ ∀ block ∈ row.l1BlockNumber, block ≤ highestEnd t.handed

theorem CoverageInv.start : CoverageInv (.initial Address Hash) where
  seamless _ hfirst := by cases hfirst
  cursor _ hphase := by cases hphase
  target hne := absurd rfl hne
  deposits _ hrow := absurd hrow List.not_mem_nil

theorem CoverageInv.near_of_initializeState (h : CoverageInv t) {lag : ℕ} {answers : InitAnswers}
    {indexer : BitcoinInscriptionIndexer Address} {state : BtcWatchState Address}
    (hnear : getLastProcessedL1Block t.table = none → ∀ tip ∈ answers.tip, t.Near (tip - lag))
    (hstate : initializeState indexer t.table lag answers = some state) :
    t.Near state.lastProcessedBitcoinBlock := by
  obtain ⟨-, ⟨block, hblock, hcursor⟩ | ⟨tip, hnone, htip, hcursor⟩⟩ :=
    initializeState_eq_some hstate
  · obtain ⟨row, hmax, hnumber⟩ := Option.bind_eq_some_iff.1 hblock
    obtain ⟨hrow, hid⟩ := List.mem_filter.1 (List.argmax_mem hmax)
    obtain ⟨hne, hle⟩ := h.deposits row hrow hid
    have := hle block hnumber
    rw [WatchTrace.Near, if_neg hne]
    omega
  · rw [hcursor]
    exact hnear hnone tip htip

variable [DecidableEq Hash]

variable {msgs : List (FullInscriptionMessage Address)} {answers : IterationAnswers}

variable {toBlock moved stored : ℕ}

theorem BtcWatch.Hands.mem_rows {table : List (TransactionRow Hash)} {w : BtcWatch Address}
    (h : w.Hands canonicalHash B table answers toBlock msgs moved stored)
    {row : TransactionRow Hash} (hrow : row ∈ (w.loopIteration canonicalHash B table answers).2.1) :
    row ∈ table ∨ ∀ block ∈ row.l1BlockNumber, block ≤ toBlock := by
  rw [h.rows, foldl_insertPriorityOp_eq] at hrow
  rcases mem_foldl_insertIfAbsent hrow with hrow | hrow
  · exact .inl hrow
  · right
    obtain ⟨op, hop, rfl⟩ := List.mem_map.1 hrow
    obtain ⟨d, hd, _, -, -, rfl⟩ := mem_numberedOps (List.mem_of_mem_take hop)
    obtain ⟨m, hm, hdm⟩ := List.mem_filterMap.1 (List.mem_of_mem_filter hd)
    intro block hblock
    cases hblock
    have hcommon : d.common = m.common := FullInscriptionMessage.common_toL1ToL2Message hdm
    have hheight := BitcoinInscriptionIndexer.processBlocks_blockHeight h.messages hm
    rw [← hcommon] at hheight
    exact hheight.2

theorem CoverageInv.hands (h : CoverageInv t) {w : BtcWatch Address} (hphase : t.phase = .running w)
    (hhands : w.Hands canonicalHash B t.table answers toBlock msgs moved stored) {killed : Bool}
    (hstep : watchStep canonicalHash B t (.iterate answers killed) t') : CoverageInv t' := by
  obtain ⟨w', hphase', rfl⟩ := WatchTrace.step_iterate hstep
  obtain rfl : w = w' := by
    rw [hphase] at hphase'
    exact Phase.running.inj hphase'
  have hnear := h.cursor w hphase
  have hbehind := hhands.behind
  obtain ⟨tip, htip, htarget⟩ := hhands.tip
  rw [hhands.range, Option.toList_some]
  have hend : highestEnd (t.handed ++ [(w.lastProcessedBitcoinBlock + 1, toBlock)])
      = max (highestEnd t.handed) toBlock := highestEnd_append _
  have hne : t.handed ++ [(w.lastProcessedBitcoinBlock + 1, toBlock)] ≠ [] := by simp
  constructor
  · refine h.seamless.append fun hold => ?_
    rw [WatchTrace.Near, if_neg hold] at hnear
    exact Nat.succ_le_succ hnear
  · intro w' hrunning
    rw [WatchTrace.Near, if_neg hne, hend]
    -- the process goes on only if the iteration has moved the cursor
    rcases hhands.outcome with ⟨hok, -, hcursor⟩ | herr
    · rw [hok] at hrunning
      cases killed with
      | true => cases hrunning
      | false =>
        cases hrunning
        rw [hcursor]
        exact le_max_right _ _
    · rw [herr] at hrunning
      cases killed <;> cases hrunning
  · intro _ target hmem
    rw [hend]
    rcases hhands.outcome with ⟨hok, -, -⟩ | herr
    · rw [hok, htip] at hmem
      cases hmem
      exact le_max_of_le_right htarget.ge
    · rw [herr] at hmem
      by_cases hold : t.handed = []
      · rw [WatchTrace.Near, if_pos hold] at hnear
        have := hnear target hmem
        omega
      · exact le_max_of_le_left (h.target hold target hmem)
  · intro row hrow hid
    refine ⟨hne, fun block hblock => ?_⟩
    rw [hend]
    rcases hhands.mem_rows hrow with hrow | hnew
    · exact le_max_of_le_left ((h.deposits row hrow hid).2 block hblock)
    · exact le_max_of_le_right (hnew block hblock)

theorem CoverageInv.step {e : WatchEvent Address Hash} (h : CoverageInv t)
    (hstep : (watchStep canonicalHash B).under StartsNear t e t') : CoverageInv t' := by
  obtain ⟨hstep, hnear⟩ := hstep
  cases e with
  | start config indexer answers =>
    obtain rfl := WatchTrace.step_start hstep
    refine ⟨h.seamless, fun w hphase => ?_, h.target, h.deposits⟩
    cases hnew : BtcWatch.new config indexer t.table answers with
    | none => simp only [hnew] at hphase; cases hphase
    | some w' =>
      simp only [hnew] at hphase
      cases hphase
      obtain ⟨state, hstate, hnew⟩ := Option.bind_eq_some_iff.1 hnew
      change (if _ then _ else _) = _ at hnew
      split at hnew
      · cases hnew
      · cases hnew
        exact h.near_of_initializeState hnear hstate
  | iterate answers killed =>
    obtain ⟨w, hphase, ht'⟩ := WatchTrace.step_iterate hstep
    rcases @loopIteration_cases _ _ _ canonicalHash B t.table w answers
      with ⟨tip, htip, hle, hrange, hresult⟩ | ⟨hrange, htable, hout⟩ | ⟨_, _, _, _, hhands⟩
    · -- no new block
      rw [hresult, hrange, Option.toList_none, List.append_nil, htip] at ht'
      have hcursor := h.cursor w hphase
      subst ht'
      refine ⟨h.seamless, fun w' hrunning => ?_, fun hne target hmem => ?_, h.deposits⟩
      · cases killed with
        | true => cases hrunning
        | false =>
          cases hrunning
          by_cases hempty : t.handed = []
          · rw [WatchTrace.Near, if_pos hempty]
            intro target hmem
            cases hmem
            exact hle
          · rw [WatchTrace.Near, if_neg hempty] at hcursor ⊢
            exact hcursor
      · cases hmem
        rw [WatchTrace.Near, if_neg hne] at hcursor
        exact hle.trans hcursor
    · -- the process ends
      rw [htable, hrange, Option.toList_none, List.append_nil] at ht'
      subst ht'
      refine ⟨h.seamless, fun w' hrunning => ?_, fun hne target hmem => ?_, h.deposits⟩
      · rcases hout with hout | hout <;> rw [hout] at hrunning <;> cases killed <;> cases hrunning
      · rcases hout with hout | hout <;> rw [hout] at hmem <;> exact h.target hne target hmem
    · exact h.hands hphase hhands hstep
  | recover answers =>
    obtain ⟨w, hphase, rfl⟩ := WatchTrace.step_recover hstep
    simp only [StartsNear, hphase] at hnear
    refine ⟨h.seamless, fun w' hrunning => ?_, h.target, h.deposits⟩
    simp only [BtcWatch.recover] at hrunning
    split at hrunning
    · rename_i state hstate
      cases hrunning
      exact h.near_of_initializeState hnear hstate
    · cases hrunning
  | stop =>
    cases hstep
    exact ⟨h.seamless, nofun, h.target, h.deposits⟩
  | other row =>
    cases hstep
    refine ⟨h.seamless, h.cursor, h.target, fun r hr hid => ?_⟩
    rcases @mem_foldl_insertIfAbsent _ _ _ _ t.table [row.row] r hr with hr | hr
    · exact h.deposits r hr hid
    · rw [List.mem_singleton.1 hr, row.priorityOpId] at hid
      cases hid

/-- No lost block: after the first block handed over, every block up to the target of the last
completed iteration has been handed to the processor. -/
def NoBlockLost (t : WatchTrace Address Hash) : Prop :=
  ∀ first ∈ t.handed.head?, ∀ target ∈ t.completed,
    ∀ height, first.1 < height → height ≤ target → Covered t.handed height

/-- **No lost deposit.**  In every run from the empty table in which starts and recoveries without a
stored deposit are near, whatever else happens, no block is lost. -/
theorem watch_covers {es : List (WatchEvent Address Hash)}
    (hrun : Run ((watchStep canonicalHash B).under StartsNear) (.initial Address Hash) es t) :
    NoBlockLost t := by
  have hinv : CoverageInv t := hrun.invariant (fun _ _ _ h hstep => h.step hstep) CoverageInv.start
  intro first hfirst target htarget height hlow hhigh
  have hne : t.handed ≠ [] := by
    intro hempty
    rw [hempty] at hfirst
    cases hfirst
  have hle := hinv.target hne target htarget
  exact hinv.seamless first hfirst height hlow.le (hhigh.trans hle)

def depositAt (height tip : ℕ) : IterationAnswers where
  tip := some tip
  fetchBlock h := some (if h = height then [sampleDeposit.2] else [])
  fault := none

def sampleDepositRun : List (WatchEvent SampleAddress L2CanonicalTransaction) :=
  [.start sampleWatchConfig sampleIndexer ⟨some 10, false⟩,
    .iterate (depositAt 10 10) false,
    .stop,
    .start sampleWatchConfig sampleIndexer ⟨some 12, false⟩,
    .iterate (depositAt 10 12) false]

theorem watch_covers_deposit :
    ∃ t, Run ((watchStep id watchBitcoin).under StartsNear)
        (.initial SampleAddress L2CanonicalTransaction) sampleDepositRun t
      ∧ (t.handed, t.completed) = ([(10, 10), (10, 12)], some 12)
      ∧ NoBlockLost t :=
  Run.witnessUnder (fun _ hrun hhistory => ⟨hhistory, watch_covers hrun⟩) (by decide +kernel)

/-- No deposit before block 12, and a stop of 20 blocks, during which there is one in block 20. -/
def sampleDowntimeRun : List (WatchEvent SampleAddress L2CanonicalTransaction) :=
  [.start sampleWatchConfig sampleIndexer ⟨some 11, false⟩,
    .iterate (depositAt 20 12) false,
    .stop,
    .start sampleWatchConfig sampleIndexer ⟨some 32, false⟩,
    .iterate (depositAt 20 32) false]

/-- **A downtime loses blocks.**  The first process hands over blocks 11 and 12, the second one
begins with block 32: the deposit of block 20 is never read. -/
theorem watch_downtime_loses :
    ∃ t, Run (watchStep id watchBitcoin) (.initial SampleAddress L2CanonicalTransaction)
        sampleDowntimeRun t
      ∧ (t.handed, t.completed, t.table) = ([(11, 12), (32, 32)], some 32, [])
      ∧ ¬ Covered t.handed 20
      ∧ ¬ NoBlockLost t := by
  refine Run.witness (P := fun t => (t.handed, t.completed, t.table) =
    ([(11, 12), (32, 32)], some 32, [])) (fun t _ hhistory => ?_) (by decide +kernel)
  have hhanded : t.handed = [(11, 12), (32, 32)] := congrArg Prod.fst hhistory
  have htarget : t.completed = some 32 := congrArg (fun x => x.2.1) hhistory
  have hlost : ¬ Covered t.handed 20 := by
    rintro ⟨r, hr, hlow, hhigh⟩
    rw [hhanded] at hr
    rcases List.mem_cons.1 hr with rfl | hr
    · exact absurd hhigh (by decide)
    · rw [List.mem_singleton.1 hr] at hlow
      exact absurd hlow (by decide)
  refine ⟨hhistory, hlost, fun hnone => hlost ?_⟩
  refine hnone (11, 12) ?_ 32 htarget 20 (by decide) (by decide)
  rw [hhanded]
  rfl

end Coverage
