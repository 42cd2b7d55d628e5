/-
What is known of the transactions that an attempt has broadcast.

An attempt broadcasts a commit and a reveal transaction, then appends the inscription to the
inscriber's context, then records both ids in the tables.  If it fails between the first broadcast
and the statement, a transaction is with the node that the tables do not know, and up to the second
broadcast the context does not know it either.

* `sendInscriptionTx_recorded` — when every broadcast transaction is recorded.
-/
import ViaCore.DoubleSpend
import ViaCore.InscriptionManager

section Recorded

variable {Address : Type}

def RecordedInDb (db : SenderDb Address) (requestId : ℕ) (txid : Txid) : Prop :=
  ∃ row ∈ db.history, row.inscriptionRequestId = requestId
    ∧ (row.commitTxId = txid ∨ row.revealTxId = txid)
deriving Decidable

/-- The context has what the transaction spends: as an input of a commit transaction, or as an
output of one. -/
def RecordedInContext (inscriber : Inscriber Address) (tx : Transaction) : Prop :=
  ∀ op ∈ tx.spends, ∃ r ∈ inscriber.fifoQueue,
    op ∈ r.commitTxInput.map TxIn.previousOutput ∨ op.txid = r.inscriberOutput.commitTxid
deriving Decidable

variable (B : RustBitcoin Address)

def SendResult.AllRecorded (result : SendResult Address) (requestId : ℕ) : Prop :=
  ∀ tx ∈ result.taken, RecordedInDb result.db requestId (B.computeTxid tx)
    ∧ RecordedInContext result.inscriber tx

def SendResult.NoneUnknown (result : SendResult Address) (requestId : ℕ) : Prop :=
  ∀ tx ∈ result.taken, RecordedInDb result.db requestId (B.computeTxid tx)
    ∨ RecordedInContext result.inscriber tx

variable (inscriber : Inscriber Address) (db : SenderDb Address)
  (request : InscriptionRequestRow Address) (config : InscriptionConfig) (answers : SendAnswers)

/-- The two transactions are built; the calls up to here succeed. -/
def Prepares (info : InscriberInfo) : Prop :=
  answers.blockHeight.isSome
    ∧ (inscriber.syncContextWithBlockchain answers.checkTxConfirmation).2 = true
    ∧ (inscriber.syncContextWithBlockchain answers.checkTxConfirmation).1.prepareInscribeSynced B
      request.inscriptionMessage config none answers.inscribe = .ok info

def CommitTaken : Prop :=
  (∃ info, Prepares B inscriber request config answers info)
    ∧ (answers.inscribe.broadcastCommit ∨ answers.lostBroadcast)

def SendAnswers.BroadcastsBoth : Prop :=
  answers.inscribe.broadcastCommit ∧ answers.inscribe.broadcastReveal
deriving Decidable

def SendAnswers.Inserts : Prop := answers.insert ≠ .failed false
deriving Decidable

/-- Once the commit transaction is taken, both broadcasts succeed and the attempt is recorded. -/
def Completes : Prop :=
  CommitTaken B inscriber request config answers → answers.BroadcastsBoth ∧ answers.Inserts

def NotRecordedYet (info : InscriberInfo) : Prop :=
  ¬ RecordedInDb db request.id (B.computeTxid info.finalCommitTx.tx)

/-! ### How an attempt ends -/

variable {B inscriber db request config answers}

theorem sendInscriptionTx_of_not_prepares
    (h : ∀ info, ¬ Prepares B inscriber request config answers info) :
    ∃ inscriber', sendInscriptionTx B inscriber db request config answers =
      ⟨inscriber', db, [], false⟩ := by
  unfold sendInscriptionTx
  cases hheight : answers.blockHeight with
  | none => exact ⟨inscriber, rfl⟩
  | some sentAtBlock =>
    cases hsync : inscriber.syncContextWithBlockchain answers.checkTxConfirmation with
    | mk synced ok =>
      cases ok with
      | false => exact ⟨synced, rfl⟩
      | true =>
        simp only [Inscriber.inscribeSynced]
        cases hprepare : synced.prepareInscribeSynced B request.inscriptionMessage config none
            answers.inscribe with
        | err e => exact ⟨synced, by
          simp only [Inscriber.lostTransactions, hprepare, List.append_nil]⟩
        | panic => exact ⟨synced, by
          simp only [Inscriber.lostTransactions, hprepare, List.append_nil]⟩
        | ok info =>
          -- otherwise both transactions would be prepared
          refine absurd ⟨?_, ?_, ?_⟩ (h info)
          · rw [hheight]
            rfl
          · rw [hsync]
          · rw [hsync]
            exact hprepare

variable {info : InscriberInfo}

section

variable (h : Prepares B inscriber request config answers info)
include h

theorem sendInscriptionTx_of_prepares (db : SenderDb Address) :
    ∃ sentAtBlock, sendInscriptionTx B inscriber db request config answers =
      let synced := (inscriber.syncContextWithBlockchain answers.checkTxConfirmation).1
      if answers.inscribe.broadcastCommit then
        if answers.inscribe.broadcastReveal then
          ⟨synced.insertInscriptionToContext request.inscriptionMessage info,
            if answers.insert = .failed false then db
            else insertInscriptionRequestHistory db info.finalCommitTx.txid
              info.finalRevealTx.txid request.id sentAtBlock answers.createdAt,
            [info.finalCommitTx.tx, info.finalRevealTx.tx], decide (answers.insert = .done)⟩
        else
          ⟨synced, db, info.finalCommitTx.tx ::
            if answers.lostBroadcast then [info.finalRevealTx.tx] else [], false⟩
      else ⟨synced, db, if answers.lostBroadcast then [info.finalCommitTx.tx] else [], false⟩ := by
  obtain ⟨hheight, hok, hprepare⟩ := h
  obtain ⟨sentAtBlock, hheight⟩ := Option.isSome_iff_exists.1 hheight
  refine ⟨sentAtBlock, ?_⟩
  have hsync : inscriber.syncContextWithBlockchain answers.checkTxConfirmation
      = ((inscriber.syncContextWithBlockchain answers.checkTxConfirmation).1, true) :=
    Prod.ext rfl hok
  unfold sendInscriptionTx
  rw [hheight]
  rw [hsync]
  simp only [Inscriber.inscribeSynced, hprepare]
  by_cases hcommit : answers.inscribe.broadcastCommit = true
  · by_cases hreveal : answers.inscribe.broadcastReveal = true
    · rw [if_pos hcommit, if_pos hcommit, if_pos hreveal, if_pos hreveal]
      cases hinsert : answers.insert with
      | done => rfl
      | failed applied => cases applied <;> rfl
    · rw [if_pos hcommit, if_pos hcommit, if_neg hreveal, if_neg hreveal]
      simp only [Inscriber.lostTransactions, hprepare, hcommit, if_true, List.singleton_append]
  · rw [if_neg hcommit, if_neg hcommit]
    simp only [Inscriber.lostTransactions, hprepare, if_neg hcommit, List.nil_append]

/-! ### When everything is recorded -/

theorem recordedInContext_newRequest {inscriber' : Inscriber Address}
    (hmem : Inscriber.newRequest request.inscriptionMessage info ∈ inscriber'.fifoQueue) :
    RecordedInContext inscriber' info.finalCommitTx.tx
      ∧ RecordedInContext inscriber' info.finalRevealTx.tx := by
  obtain ⟨-, -, -, hbuilt⟩ := prepareInscribeSynced_ok h.2.2
  constructor
  · intro op hop
    refine ⟨_, hmem, .inl ?_⟩
    rw [hbuilt.spent]
    exact hop
  · intro op hop
    refine ⟨_, hmem, .inr ?_⟩
    have hspends : info.finalRevealTx.tx.spends
        = [⟨info.finalCommitTx.txid, 0⟩, ⟨info.finalCommitTx.txid, 1⟩] := hbuilt.revealSpends
    rw [hspends] at hop
    rcases List.mem_cons.1 hop with rfl | hop
    · rfl
    · rw [List.mem_singleton.1 hop]
      rfl

theorem recordedInDb_insert (hrequest : ∃ row ∈ db.inscriptionRequests, row.id = request.id)
    (sentAtBlock createdAt : ℕ) :
    let db' := insertInscriptionRequestHistory db info.finalCommitTx.txid info.finalRevealTx.txid
      request.id sentAtBlock createdAt
    RecordedInDb db' request.id (B.computeTxid info.finalCommitTx.tx)
      ∧ RecordedInDb db' request.id (B.computeTxid info.finalRevealTx.tx) := by
  obtain ⟨-, -, -, hbuilt⟩ := prepareInscribeSynced_ok h.2.2
  obtain ⟨row, hrow, hid⟩ := hrequest
  have hfound : (db.inscriptionRequests.any fun row => row.id = request.id) = true :=
    List.any_eq_true.2 ⟨row, hrow, decide_eq_true hid⟩
  simp only [insertInscriptionRequestHistory, hfound, if_true]
  have hnew := List.mem_append_right db.history (List.mem_singleton_self (
    { id := db.historySequence + 1, commitTxId := info.finalCommitTx.txid
      revealTxId := info.finalRevealTx.txid, inscriptionRequestId := request.id
      sentAtBlock, createdAt } : InscriptionHistoryRow))
  exact ⟨⟨_, hnew, rfl, .inl hbuilt.commitTxid⟩, ⟨_, hnew, rfl, .inr hbuilt.revealTxid⟩⟩

end

/-- **Both broadcasts succeed**: the context knows both transactions, and so do the tables if the
statement takes effect. -/
theorem recorded_of_broadcastsBoth (hrequest : ∃ row ∈ db.inscriptionRequests, row.id = request.id)
    (h : Prepares B inscriber request config answers info) (hboth : answers.BroadcastsBoth) :
    let result := sendInscriptionTx B inscriber db request config answers
    (∀ tx ∈ result.taken, RecordedInContext result.inscriber tx)
      ∧ (answers.Inserts → ∀ tx ∈ result.taken,
        RecordedInDb result.db request.id (B.computeTxid tx)) := by
  obtain ⟨sentAtBlock, hsend⟩ := sendInscriptionTx_of_prepares h db
  simp only [hboth.1, hboth.2, if_true] at hsend
  have hmem : Inscriber.newRequest request.inscriptionMessage info
      ∈ ((inscriber.syncContextWithBlockchain answers.checkTxConfirmation).1
        |>.insertInscriptionToContext request.inscriptionMessage info).fifoQueue :=
    List.mem_append_right _ (List.mem_singleton_self _)
  obtain ⟨hcommit, hreveal⟩ := recordedInContext_newRequest h hmem
  simp only [hsend, List.mem_cons, List.not_mem_nil, or_false]
  constructor
  · rintro tx (rfl | rfl)
    · exact hcommit
    · exact hreveal
  · intro hinserts
    rw [if_neg hinserts]
    obtain ⟨hcommit, hreveal⟩ := recordedInDb_insert h hrequest sentAtBlock answers.createdAt
    rintro tx (rfl | rfl)
    · exact hcommit
    · exact hreveal

/-- **A broadcast fails, or the statement has no effect**: the commit transaction is with the node,
and the tables are as before. -/
theorem taken_of_not_completes (h : Prepares B inscriber request config answers info)
    (htaken : answers.inscribe.broadcastCommit ∨ answers.lostBroadcast)
    (hincomplete : ¬ (answers.BroadcastsBoth ∧ answers.Inserts)) :
    let result := sendInscriptionTx B inscriber db request config answers
    info.finalCommitTx.tx ∈ result.taken ∧ result.db = db := by
  obtain ⟨sentAtBlock, hsend⟩ := sendInscriptionTx_of_prepares h db
  simp only [hsend]
  by_cases hcommit : answers.inscribe.broadcastCommit = true
  · by_cases hreveal : answers.inscribe.broadcastReveal = true
    · have hinsert : answers.insert = .failed false := by
        by_contra hinserts
        exact hincomplete ⟨⟨hcommit, hreveal⟩, hinserts⟩
      simp only [hcommit, hreveal, hinsert, if_true]
      exact ⟨List.mem_cons_self, trivial⟩
    · rw [if_pos hcommit, if_neg hreveal]
      exact ⟨List.mem_cons_self, rfl⟩
  · rw [if_neg hcommit, if_pos (htaken.resolve_left hcommit)]
    exact ⟨List.mem_singleton_self _, rfl⟩

theorem taken_eq_nil_of_not_commitTaken (h : ¬ CommitTaken B inscriber request config answers) :
    (sendInscriptionTx B inscriber db request config answers).taken = [] := by
  by_cases hprepares : ∃ info, Prepares B inscriber request config answers info
  · obtain ⟨info, hinfo⟩ := hprepares
    have hrefused : ¬ (answers.inscribe.broadcastCommit = true ∨ answers.lostBroadcast = true) :=
      fun htaken => h ⟨⟨info, hinfo⟩, htaken⟩
    rw [not_or] at hrefused
    obtain ⟨sentAtBlock, hsend⟩ := sendInscriptionTx_of_prepares hinfo db
    simp only [hsend]
    rw [if_neg hrefused.1, if_neg hrefused.2]
  · obtain ⟨inscriber', hsend⟩ := @sendInscriptionTx_of_not_prepares _ B inscriber db request config
      answers fun info hinfo => hprepares ⟨info, hinfo⟩
    rw [hsend]

/-- **Every broadcast is recorded**, in the tables and in the context, if the node never takes the
commit transaction, or if both broadcasts succeed and the statement takes effect.  Otherwise one is
missing, unless an earlier attempt has recorded it. -/
theorem sendInscriptionTx_recorded
    (hrequest : ∃ row ∈ db.inscriptionRequests, row.id = request.id) :
    (Completes B inscriber request config answers →
        (sendInscriptionTx B inscriber db request config answers).AllRecorded B request.id)
      ∧ ((∀ info, Prepares B inscriber request config answers info →
          NotRecordedYet B db request info) →
        ((sendInscriptionTx B inscriber db request config answers).AllRecorded B request.id ↔
          Completes B inscriber request config answers))
      ∧ ((CommitTaken B inscriber request config answers → answers.BroadcastsBoth) →
        (sendInscriptionTx B inscriber db request config answers).NoneUnknown B request.id) := by
  set result := sendInscriptionTx B inscriber db request config answers
  have hnothing : ¬ CommitTaken B inscriber request config answers → result.taken = [] :=
    taken_eq_nil_of_not_commitTaken
  have hsufficient : Completes B inscriber request config answers →
    result.AllRecorded B request.id := by
    intro hcompletes tx htx
    by_cases htaken : CommitTaken B inscriber request config answers
    · obtain ⟨hboth, hinserts⟩ := hcompletes htaken
      obtain ⟨info, hinfo⟩ := htaken.1
      obtain ⟨hcontext, hdb⟩ := recorded_of_broadcastsBoth hrequest hinfo hboth
      exact ⟨hdb hinserts tx htx, hcontext tx htx⟩
    · rw [hnothing htaken] at htx
      cases htx
  refine ⟨hsufficient, fun hfresh => ⟨fun hrecorded htaken => ?_, hsufficient⟩, ?_⟩
  -- the commit transaction is with the node, and not in the tables
  · by_contra hincomplete
    obtain ⟨info, hinfo⟩ := htaken.1
    obtain ⟨hmem, hdb⟩ := @taken_of_not_completes _ B inscriber db request config answers info
      hinfo htaken.2 hincomplete
    have hknown := (hrecorded info.finalCommitTx.tx hmem).1
    rw [hdb] at hknown
    exact hfresh info hinfo hknown
  · intro hboth tx htx
    by_cases htaken : CommitTaken B inscriber request config answers
    · obtain ⟨info, hinfo⟩ := htaken.1
      exact .inr ((recorded_of_broadcastsBoth hrequest hinfo (hboth htaken)).1 tx htx)
    · rw [hnothing htaken] at htx
      cases htx

def sampleRequest : InscriptionRequestRow SampleAddress :=
  { id := 1
    requestType := .commitL1BatchOnchain
    inscriptionMessage := sampleBatchReference
    predictedFee := 736
    confirmedInscriptionsRequestHistoryId := none }

def sampleSenderDb : SenderDb SampleAddress :=
  { SenderDb.empty SampleAddress with inscriptionRequests := [sampleRequest], requestSequence := 1 }

def sampleInscriber : Inscriber SampleAddress := ⟨sampleSigner, .testnet, []⟩

def sampleSendAnswers (broadcastReveal : Bool) (insert : Verdict) : SendAnswers :=
  { blockHeight := some 100
    checkTxConfirmation := fun _ => some false
    inscribe :=
      { utxos := some sampleUtxos
        commitFeeRate := some 2
        revealFeeRate := some 2
        broadcastCommit := true
        broadcastReveal }
    lostBroadcast := false
    insert
    createdAt := 1000 }

theorem sendInscriptionTx_recorded_success :
    let answers := sampleSendAnswers true .done
    let result := sendInscriptionTx inscriberBitcoin sampleInscriber sampleSenderDb sampleRequest
      ⟨1⟩ answers
    (∃ row ∈ sampleSenderDb.inscriptionRequests, row.id = sampleRequest.id)
      ∧ result.taken.map inscriberBitcoin.computeTxid = [sampleCommitTxid, sampleRevealTxid]
      ∧ result.AllRecorded inscriberBitcoin sampleRequest.id := by
  have hrequest : ∃ row ∈ sampleSenderDb.inscriptionRequests, row.id = sampleRequest.id :=
    ⟨sampleRequest, List.mem_singleton_self _, rfl⟩
  refine ⟨hrequest, by decide +kernel, ?_⟩
  exact (sendInscriptionTx_recorded hrequest).1 fun _ => ⟨by decide, by decide⟩

/-- **A broadcast that nobody knows of.**  The node takes the commit transaction, and the broadcast
of the reveal transaction fails. -/
theorem sendInscriptionTx_forgets_commit :
    let result := sendInscriptionTx inscriberBitcoin sampleInscriber sampleSenderDb sampleRequest
      ⟨1⟩ (sampleSendAnswers false .done)
    result.taken.map inscriberBitcoin.computeTxid = [sampleCommitTxid]
      ∧ result.db.history = [] ∧ result.inscriber.fifoQueue.length = 0
      ∧ ¬ result.AllRecorded inscriberBitcoin sampleRequest.id
      ∧ ¬ result.NoneUnknown inscriberBitcoin sampleRequest.id := by
  have hunknown : ∃ tx ∈ (sendInscriptionTx inscriberBitcoin sampleInscriber sampleSenderDb
      sampleRequest ⟨1⟩ (sampleSendAnswers false .done)).taken,
      ¬ (RecordedInDb (sendInscriptionTx inscriberBitcoin sampleInscriber sampleSenderDb
          sampleRequest ⟨1⟩ (sampleSendAnswers false .done)).db sampleRequest.id
          (inscriberBitcoin.computeTxid tx))
        ∧ ¬ RecordedInContext (sendInscriptionTx inscriberBitcoin sampleInscriber sampleSenderDb
          sampleRequest ⟨1⟩ (sampleSendAnswers false .done)).inscriber tx := by
    decide +kernel
  obtain ⟨tx, htx, hdb, hcontext⟩ := hunknown
  refine ⟨by decide +kernel, by decide +kernel, by decide +kernel, ?_, ?_⟩
  · exact fun hall => hdb (hall tx htx).1
  · exact fun hnone => (hnone tx htx).elim hdb hcontext

end Recorded
