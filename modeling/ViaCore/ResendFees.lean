/-
The fee rate of attempts that follow one another.

The manager counts the attempts in the history and passes their number on; the inscriber raises the
fee rate of the node by five percent, times this number, times the length of its queue.  The queue
may be empty, after a restart for instance, and the increase is rounded down, so that an attempt may
offer as much as the one before it, or less.

* `resend_offers_more_iff` — when an attempt offers more than the one before it.
-/
import ViaCore.Resend

section ResendFees

variable {Address : Type} {B : RustBitcoin Address} {config : ManagerConfig}
  {node node' : SenderNode Address} {requestId : ℕ}

structure FeeAttempt where
  nodeFeeRate : ℕ
  recorded : ℕ
  pending : ℕ
  commitFeeRate : ℕ
  deriving DecidableEq

variable (B) in
def SenderNode.feeAttemptOf (node : SenderNode Address) (request : InscriptionRequestRow Address)
    (inscriptionConfig : InscriptionConfig) (answers : SendAnswers) : Option FeeAttempt :=
  let (synced, ok) := node.inscriber.syncContextWithBlockchain answers.checkTxConfirmation
  if answers.blockHeight.isSome ∧ ok then
    (synced.prepareInscribeSynced B request.inscriptionMessage inscriptionConfig none
      answers.inscribe).toOption.map fun info =>
        { nodeFeeRate := answers.inscribe.commitFeeRate.getD 0
          recorded := getTotalInscriptionRequestHistory node.db request.id
          pending := synced.fifoQueue.length
          commitFeeRate := info.commitTxOutputInfo.commitTxFeeRate }
  else none

variable (B requestId) in
def SenderNode.feeAttempt (node : SenderNode Address) : NodeEvent → Option FeeAttempt
  | .send answers =>
    match node.phase with
    | .sending (request :: _) =>
      if request.id = requestId then node.feeAttemptOf B request ⟨1⟩ answers else none
    | _ => none
  | .resend answers =>
    match node.phase with
    | .resending request inscriptionConfig _ =>
      if request.id = requestId then node.feeAttemptOf B request inscriptionConfig answers else none
    | _ => none
  | _ => none

variable (B config requestId) in
def feeAttempts : SenderNode Address → List NodeEvent → List FeeAttempt
  | _, [] => []
  | node, e :: es =>
    (node.feeAttempt B requestId e).toList ++
      ((node.step B config e).map fun node' => feeAttempts node' es).getD []

def FeeAttempt.increasedRate (attempt : FeeAttempt) (feeMultiplier : ℕ) : ℕ :=
  attempt.nodeFeeRate +
    attempt.nodeFeeRate * (feeRateIncreasePerPendingTx * feeMultiplier * attempt.pending) / 100

variable {request : InscriptionRequestRow Address} {inscriptionConfig : InscriptionConfig}

variable {answers : SendAnswers} {attempt : FeeAttempt}

theorem SenderNode.feeAttemptOf_eq
    (h : node.feeAttemptOf B request inscriptionConfig answers = some attempt) :
    attempt.recorded = getTotalInscriptionRequestHistory node.db request.id ∧
      attempt.commitFeeRate = attempt.increasedRate inscriptionConfig.feeMultiplier := by
  unfold SenderNode.feeAttemptOf at h
  simp only at h
  split at h
  · obtain ⟨info, hinfo, rfl⟩ := Option.map_eq_some_iff.1 h
    have hinfo := Outcome.toOption_eq_some.1 hinfo
    obtain ⟨data, -, hinfo⟩ := Outcome.bind_eq_ok.1 hinfo
    obtain ⟨utxos, -, hinfo⟩ := Outcome.bind_eq_ok.1 hinfo
    obtain ⟨rate, hrate, hinfo⟩ := Outcome.bind_eq_ok.1 hinfo
    obtain ⟨output, houtput, hinfo⟩ := Outcome.bind_eq_ok.1 hinfo
    obtain ⟨_, -, hinfo⟩ := Outcome.bind_eq_ok.1 hinfo
    obtain ⟨_, -, hinfo⟩ := Outcome.bind_eq_ok.1 hinfo
    cases hinfo
    obtain ⟨_, -, houtput⟩ := Outcome.bind_eq_ok.1 houtput
    obtain ⟨_, -, houtput⟩ := Outcome.bind_eq_ok.1 houtput
    cases houtput
    rw [FeeAttempt.increasedRate, answer_eq_ok hrate]
    exact ⟨rfl, rfl⟩
  · cases h

/-! ### The multiplier -/

/-- What is known of the multiplier of the next attempt: one more than the attempts so far. -/
def MultiplierCounts (db : SenderDb Address) : ManagerPhase Address → Prop
  | .resending request inscriptionConfig _ =>
    inscriptionConfig.feeMultiplier = getTotalInscriptionRequestHistory db request.id + 1
  | .sending requests => ∀ request ∈ requests, getTotalInscriptionRequestHistory db request.id = 0
  | _ => True

theorem MultiplierCounts.congr {db db' : SenderDb Address} {phase : ManagerPhase Address}
    (h : MultiplierCounts db phase) (hhistory : db'.history = db.history) :
    MultiplierCounts db' phase := by
  have htotal : ∀ id, getTotalInscriptionRequestHistory db' id =
      getTotalInscriptionRequestHistory db id := by
    intro id
    rw [getTotalInscriptionRequestHistory, hhistory, getTotalInscriptionRequestHistory]
  cases phase with
  | idle => trivial
  | updating rest => trivial
  | unconfirmed request last rest => trivial
  | resending request inscriptionConfig rest => exact h.trans (by rw [htotal])
  | sending requests => exact fun request hrequest => (htotal _).trans (h request hrequest)

theorem getTotal_sendInscriptionTx (inscriber : Inscriber Address) (db : SenderDb Address)
    (inscriptionConfig : InscriptionConfig) (answers : SendAnswers) {id : ℕ}
    (hid : request.id ≠ id) :
    getTotalInscriptionRequestHistory
        (sendInscriptionTx B inscriber db request inscriptionConfig answers).db id =
      getTotalInscriptionRequestHistory db id := by
  rcases @sendInscriptionTx_db _ B inscriber db request inscriptionConfig answers with
    hdb | ⟨commitTxId, revealTxId, sentAtBlock, hdb⟩
  · rw [hdb]
  · rw [hdb, insertInscriptionRequestHistory]
    split
    · rw [getTotalInscriptionRequestHistory, List.filter_append, List.length_append,
        List.filter_cons_of_neg (by simpa using hid)]
      rfl
    · rfl

structure FeeInv (node : SenderNode Address) : Prop where
  base : NodeInv node
  multiplier : MultiplierCounts node.db node.phase

theorem MultiplierCounts.check (request : InscriptionRequestRow Address)
    (rest : List (InscriptionRequestRow Address)) (confirm : Verdict) :
    MultiplierCounts (node.check config request rest confirm).db
      (node.check config request rest confirm).phase := by
  unfold SenderNode.check
  cases getLastInscriptionRequestHistory node.db request.id with
  | none => trivial
  | some last =>
    simp only
    split
    · cases confirm with
      | done => trivial
      | failed applied => trivial
    · trivial

theorem MultiplierCounts.of_attempt {next : ManagerPhase Address}
    (hnext : MultiplierCounts
      (sendInscriptionTx B node.inscriber node.db request inscriptionConfig answers).db next) :
    MultiplierCounts (node.attempt B request inscriptionConfig answers next).db
      (node.attempt B request inscriptionConfig answers next).phase := by
  unfold SenderNode.attempt
  simp only
  split
  · exact hnext
  · trivial

theorem FeeInv.step (h : FeeInv node) {e : NodeEvent} (hstep : node.step B config e = some node') :
    FeeInv node' := by
  refine ⟨h.base.step hstep, ?_⟩
  have hmultiplier := h.multiplier
  cases SenderNode.stepped_of_step hstep with
  | other he => exact hmultiplier.congr (node.db.step_history he).1
  | block => exact hmultiplier
  | check _ confirm => exact MultiplierCounts.check _ _ confirm
  | fetchBlockHeight =>
    unfold SenderNode.fetchBlockHeight
    split
    · trivial
    · exact rfl
  | resend => exact MultiplierCounts.of_attempt trivial
  | fetchNew =>
    intro request hrequest
    refine List.length_eq_zero_iff.2 (List.filter_eq_nil_iff.2 fun row hrow hid => ?_)
    exact (of_mem_listNewInscriptionRequest hrequest).2 ⟨row, hrow, of_decide_eq_true hid⟩
  | @send request rest hphase =>
    have hdistinct := h.base.distinct
    rw [hphase] at hdistinct hmultiplier
    rw [ManagerPhase.requests, List.map_cons, List.nodup_cons] at hdistinct
    refine MultiplierCounts.of_attempt fun other hother => ?_
    -- the other requests of the loop have other ids
    have hne : request.id ≠ other.id := fun heq =>
      hdistinct.1 (heq ▸ List.mem_map_of_mem hother)
    rw [getTotal_sendInscriptionTx _ _ _ _ hne]
    exact hmultiplier other (List.mem_cons_of_mem _ hother)
  | fetchInflight | finish | fail | restart => trivial

theorem FeeInv.feeAttempt (h : FeeInv node) {e : NodeEvent}
    (hattempt : node.feeAttempt B requestId e = some attempt) :
    attempt.commitFeeRate = attempt.increasedRate (attempt.recorded + 1) := by
  have hmultiplier := h.multiplier
  cases e with
  | send answers =>
    simp only [SenderNode.feeAttempt] at hattempt
    split at hattempt
    · rename_i request rest hphase
      rw [hphase] at hmultiplier
      split at hattempt
      · obtain ⟨hrecorded, hrate⟩ := SenderNode.feeAttemptOf_eq hattempt
        rw [hrate, hrecorded, hmultiplier request List.mem_cons_self]
      · cases hattempt
    · cases hattempt
  | resend answers =>
    simp only [SenderNode.feeAttempt] at hattempt
    split at hattempt
    · rename_i request inscriptionConfig rest hphase
      rw [hphase] at hmultiplier
      split at hattempt
      · obtain ⟨hrecorded, hrate⟩ := SenderNode.feeAttemptOf_eq hattempt
        rw [hrate, hrecorded, hmultiplier]
      · cases hattempt
    · cases hattempt
  | _ => cases hattempt

theorem FeeInv.feeAttempts (h : FeeInv node) {es : List NodeEvent}
    (hattempt : attempt ∈ feeAttempts B config requestId node es) :
    attempt.commitFeeRate = attempt.increasedRate (attempt.recorded + 1) := by
  induction es generalizing node with
  | nil => cases hattempt
  | cons e es ih =>
    rcases List.mem_append.1 hattempt with hnow | hlater
    · exact h.feeAttempt (Option.mem_toList.1 hnow)
    · cases hstep : node.step B config e with
      | none =>
        rw [hstep] at hlater
        cases hlater
      | some node' =>
        rw [hstep] at hlater
        exact ih (h.step hstep) hlater

/-! ### Two attempts -/

theorem div_hundred_lt_iff {x y : ℕ} : x / 100 < y / 100 ↔ ∃ m, x < 100 * m ∧ 100 * m ≤ y := by
  constructor
  · intro h
    exact ⟨y / 100, by omega, by omega⟩
  · rintro ⟨m, hx, hy⟩
    omega

/-- Between the products of the rate, the attempts with this one, and the pending inscriptions,
there is a multiple of twenty. -/
def FeeAttempt.PassesMultiple (attempt next : FeeAttempt) : Prop :=
  ∃ m, attempt.nodeFeeRate * (attempt.recorded + 1) * attempt.pending < 20 * m ∧
    20 * m ≤ next.nodeFeeRate * (next.recorded + 1) * next.pending

/-- The products and the sum of the rate fit into 64 bits. -/
def FeeAttempt.RateFits (attempt : FeeAttempt) : Prop :=
  feeRateIncreasePerPendingTx * (attempt.recorded + 1) < 2 ^ 64 ∧
    feeRateIncreasePerPendingTx * (attempt.recorded + 1) * attempt.pending < 2 ^ 64 ∧
    attempt.nodeFeeRate *
      (feeRateIncreasePerPendingTx * (attempt.recorded + 1) * attempt.pending) < 2 ^ 64 ∧
    attempt.increasedRate (attempt.recorded + 1) < 2 ^ 64
deriving Decidable

/-- **When a resend offers more.**  Of two attempts that follow one another at one fee rate, the
later one offers more exactly when a multiple of twenty is passed. -/
theorem resend_offers_more_iff {signer : BitcoinSigner} {network : Network}
    {chain : List (List Txid)} {es : List NodeEvent} {k : ℕ} {attempt next : FeeAttempt}
    (hattempt : (feeAttempts B config requestId (.initial signer network chain) es)[k]? =
      some attempt)
    (hnext : (feeAttempts B config requestId (.initial signer network chain) es)[k + 1]? =
      some next)
    (hrate : next.nodeFeeRate = attempt.nodeFeeRate) :
    attempt.RateFits → next.RateFits →
      (attempt.commitFeeRate < next.commitFeeRate ↔ attempt.PassesMultiple next) := by
  intro _ _
  have hinv : FeeInv (SenderNode.initial signer network chain : SenderNode Address) :=
    ⟨NodeInv.initial signer network chain, trivial⟩
  rw [hinv.feeAttempts (List.mem_of_getElem? hattempt),
    hinv.feeAttempts (List.mem_of_getElem? hnext), FeeAttempt.increasedRate,
    FeeAttempt.increasedRate, hrate, Nat.add_lt_add_iff_left, div_hundred_lt_iff,
    FeeAttempt.PassesMultiple, hrate]
  refine exists_congr fun m => ?_
  have hfive : ∀ a : FeeAttempt, attempt.nodeFeeRate *
      (feeRateIncreasePerPendingTx * (a.recorded + 1) * a.pending) =
        5 * (attempt.nodeFeeRate * (a.recorded + 1) * a.pending) := by
    intro a
    rw [feeRateIncreasePerPendingTx]
    ring
  rw [hfive, hfive]
  omega

def sampleRateAttempt (rate blockHeight : ℕ) : SendAnswers :=
  { sampleAttempt blockHeight with
    inscribe :=
      { (sampleAttempt blockHeight).inscribe with
        commitFeeRate := some rate
        revealFeeRate := some rate } }

/-- A request is sent, nothing is confirmed for six blocks, and it is sent again.  The node may be
started anew in between. -/
def sampleRateRun (rate : ℕ) (between : List NodeEvent) : List NodeEvent :=
  (.insertProtocolVersion sampleProtocolVersion :: sealBatch 1 ++ readyBatch 1
    ++ [sampleIteration]).map .other
    ++ [.fetchInflight, .fetchNew, .send (sampleRateAttempt rate 0), .finish]
    ++ .replicate 6 (.block []) ++ between ++ sampleLook ++ [.resend (sampleRateAttempt rate 6)]

theorem resend_offers_more_second :
    ∃ attempt next, feeAttempts resendBitcoin sampleManagerConfig 1 sampleResendNode
        (sampleRateRun 20 []) = [attempt, next] ∧
      next.nodeFeeRate = attempt.nodeFeeRate ∧ attempt.commitFeeRate < next.commitFeeRate := by
  have hattempts : feeAttempts resendBitcoin sampleManagerConfig 1 sampleResendNode
      (sampleRateRun 20 []) = [⟨20, 0, 0, 20⟩, ⟨20, 1, 1, 22⟩] := by
    decide +kernel
  have hfirst : (feeAttempts resendBitcoin sampleManagerConfig 1 sampleResendNode
      (sampleRateRun 20 []))[0]? = some ⟨20, 0, 0, 20⟩ := by
    rw [hattempts]
    rfl
  have hsecond : (feeAttempts resendBitcoin sampleManagerConfig 1 sampleResendNode
      (sampleRateRun 20 []))[0 + 1]? = some ⟨20, 1, 1, 22⟩ := by
    rw [hattempts]
    rfl
  exact ⟨_, _, hattempts, rfl,
    (resend_offers_more_iff hfirst hsecond rfl (by decide) (by decide)).2
      ⟨1, by decide, by decide⟩⟩

/-- **Attempts that offer the same.**  At two satoshi a byte the increase is rounded down to
nothing, and after a restart there is no increase at any rate. -/
theorem resend_offers_same :
    feeAttempts resendBitcoin sampleManagerConfig 1 sampleResendNode (sampleRateRun 2 []) =
        [⟨2, 0, 0, 2⟩, ⟨2, 1, 1, 2⟩] ∧
      feeAttempts resendBitcoin sampleManagerConfig 1 sampleResendNode
        (sampleRateRun 100 [.restart]) = [⟨100, 0, 0, 100⟩, ⟨100, 1, 0, 100⟩] := by
  decide +kernel

end ResendFees
