/-
The aggregator: which batches get an inscription request, and when.

An iteration looks for batches that are ready for a proof inscription and, if there is nothing to
do, for batches that are ready for a commit inscription.  The batches found must be consecutive, or
the process panics.  Publish criteria cut the list, and one database transaction creates a request
for each batch that is left.

* `SenderDb.step_frame` — what the other components leave alone.
-/
import ViaCore.Outcome
import ViaCore.Runs
import ViaCore.SenderDb

def blockTimeToCommit : ℕ := 3600

def blockTimeToProof : ℕ := 7200

inductive ViaBtcL1BatchCommitCriterion where
  | number (limit : ℕ)
  | timestampDeadline (deadlineSeconds : ℕ)

/-- The last batch that is older than the deadline, before the first one that is not. -/
def lastOverdue (now deadlineSeconds : ℕ) : Option ℕ → List ViaBtcL1BlockDetails → Option ℕ
  | blockNumber, [] => blockNumber
  | blockNumber, block :: rest =>
    if block.timestamp + deadlineSeconds ≤ now then
      lastOverdue now deadlineSeconds (some block.number) rest
    else blockNumber

def ViaBtcL1BatchCommitCriterion.lastL1BatchToPublish (now : ℕ)
    (consecutiveL1Batches : List ViaBtcL1BlockDetails) : ViaBtcL1BatchCommitCriterion → Option ℕ
  | .number limit =>
    match consecutiveL1Batches with
    | [] => none
    | first :: rest =>
      let lastBatchNumber := (rest.getLast?.map ViaBtcL1BlockDetails.number).getD first.number
      let batchCount := lastBatchNumber - first.number + 1
      if limit ≤ batchCount then some (first.number + limit - 1) else none
  | .timestampDeadline deadlineSeconds =>
    lastOverdue now deadlineSeconds none consecutiveL1Batches

def lowerBound : Option ℕ → Option ℕ → Option ℕ
  | some a, some b => some (min a b)
  | some a, none => some a
  | none, b => b

def extractReadySubrange (now : ℕ) (publishCriteria : List ViaBtcL1BatchCommitCriterion)
    (uncommittedL1Batches : List ViaBtcL1BlockDetails) : Option (List ViaBtcL1BlockDetails) :=
  let lastL1Batch := publishCriteria.foldl
    (fun last c => lowerBound last (c.lastL1BatchToPublish now uncommittedL1Batches)) none
  lastL1Batch.map fun last => uncommittedL1Batches.takeWhile fun batch => batch.number ≤ last

/-! ### Operations -/

structure ViaBtcSenderConfig where
  maxAggregatedBlocksToCommit : ℕ
  maxAggregatedProofsToCommit : ℕ
  daIdentifier : Utf8

inductive ViaAggregatedOperation where
  | commitL1BatchOnchain (l1Batches : List ViaBtcL1BlockDetails)
  | commitProofOnchain (l1Batches : List ViaBtcL1BlockDetails)

def ViaAggregatedOperation.getL1BatchesDetail : ViaAggregatedOperation → List ViaBtcL1BlockDetails
  | .commitL1BatchOnchain l1Batches => l1Batches
  | .commitProofOnchain l1Batches => l1Batches

def ViaAggregatedOperation.getInscriptionRequestType :
    ViaAggregatedOperation → ViaBtcInscriptionRequestType
  | .commitL1BatchOnchain _ => .commitL1BatchOnchain
  | .commitProofOnchain _ => .commitProofOnchain

/-- The failures of an iteration: a hash that is missing, a node that does not answer, and database
errors all end it in the same way. -/
inductive AggregatorError where
  | failed
  deriving DecidableEq

/-- `L1 batches prepared for commit are not sequential` is a panic. -/
def validateFrom (last : ViaBtcL1BlockDetails) :
    List ViaBtcL1BlockDetails → Outcome AggregatorError Unit
  | [] => .ok ()
  | next :: rest => if last.number + 1 = next.number then validateFrom next rest else .panic

def validateL1BatchSequence : List ViaBtcL1BlockDetails → Outcome AggregatorError Unit
  | [] => .ok ()
  | first :: rest => validateFrom first rest

def bootloaderCodeHash : H256 :=
  .ofNat 32 0x010008e742608b21bf7eb23c1a9d0602047e3618b464c9b59c0fba3b3d7ab66e

def aaCodeHash : H256 :=
  .ofNat 32 0x01000563374c277a2c1e34659a2a1e87371bb6d852ce142022d497bfb50b9e32

def protocolVersionLatest : ℕ := 24

section Aggregator

variable {Address : Type} (config : ViaBtcSenderConfig) (db : SenderDb Address) (now : ℕ)

/-- The batches that `get_commit_l1_batch_operation` looks at. -/
def readyForCommitL1Batches : List ViaBtcL1BlockDetails :=
  getReadyForCommitL1Batches db config.maxAggregatedBlocksToCommit bootloaderCodeHash aaCodeHash
    protocolVersionLatest

def getCommitL1BatchOperation : Outcome AggregatorError (Option ViaAggregatedOperation) :=
  let ready := readyForCommitL1Batches config db
  validateL1BatchSequence ready >>= fun _ =>
    .ok ((extractReadySubrange now
      [.number config.maxAggregatedBlocksToCommit, .timestampDeadline blockTimeToCommit]
      ready).map .commitL1BatchOnchain)

/-- The batches that `get_commit_proof_operation` looks at. -/
def readyForCommitProofL1Batches : List ViaBtcL1BlockDetails :=
  getReadyForCommitProofL1Batches db config.maxAggregatedProofsToCommit

def getCommitProofOperation : Outcome AggregatorError (Option ViaAggregatedOperation) :=
  let ready := readyForCommitProofL1Batches config db
  validateL1BatchSequence ready >>= fun _ =>
    .ok ((extractReadySubrange now
      [.number config.maxAggregatedProofsToCommit, .timestampDeadline blockTimeToProof]
      ready).map .commitProofOnchain)

def getNextReadyOperation : Outcome AggregatorError (Option ViaAggregatedOperation) :=
  getCommitProofOperation config db now >>= fun op =>
    match op with
    | some op => .ok (some op)
    | none => getCommitL1BatchOperation config db now

def constructInscriptionMessage (requestType : ViaBtcInscriptionRequestType)
    (batch : ViaBtcL1BlockDetails) : Option (InscriptionMessage Address) :=
  match requestType with
  | .commitL1BatchOnchain =>
    batch.hash.map fun hash => .l1BatchDAReference
      { l1BatchHash := hash
        l1BatchIndex := .ofNat batch.number
        daIdentifier := config.daIdentifier
        blobId := batch.blobId }
  | .commitProofOnchain => some (.proofDAReference
      { l1BatchRevealTxid := batch.revealTxId
        daIdentifier := config.daIdentifier
        blobId := batch.blobId })

/-- The statements of the transaction, up to the first failure; the flag says that there was none.
`predictFee` is the estimate for the inscription of a batch. -/
def saveRequests (requestType : ViaBtcInscriptionRequestType) (predictFee : ℕ → Option ℕ) :
    SenderDb Address → List ViaBtcL1BlockDetails → SenderDb Address × Bool
  | db, [] => (db, true)
  | db, batch :: rest =>
    match constructInscriptionMessage config requestType batch, predictFee batch.number with
    | some message, some fee =>
      let (db, requestId) := viaSaveBtcInscriptionsRequest db requestType message fee
      match insertL1BatchInscriptionRequestId db batch.number requestId requestType with
      | some db => saveRequests requestType predictFee db rest
      | none => (db, false)
    | _, _ => (db, false)

structure AggregatorAnswers where
  now : ℕ
  predictFee : ℕ → Option ℕ
  commits : Bool

def aggregatorLoopIteration (answers : AggregatorAnswers) :
    SenderDb Address × Outcome AggregatorError Unit :=
  match getNextReadyOperation config db answers.now with
  | .ok none => (db, .ok ())
  | .ok (some op) =>
    let saved := saveRequests config op.getInscriptionRequestType answers.predictFee db
      op.getL1BatchesDetail
    if saved.2 && answers.commits then (saved.1, .ok ())
    -- a rollback does not give ids back to the sequence
    else ({ db with requestSequence := saved.1.requestSequence }, .err .failed)
  | .err e => (db, .err e)
  | .panic => (db, .panic)

end Aggregator

section Specs

def Follows (batch next : ViaBtcL1BlockDetails) : Prop := batch.number + 1 = next.number

theorem validateFrom_cases (first : ViaBtcL1BlockDetails) (rest : List ViaBtcL1BlockDetails) :
    (validateFrom first rest = .ok () ∧ (first :: rest).IsChain Follows) ∨
      (validateFrom first rest = .panic ∧ ¬ (first :: rest).IsChain Follows) := by
  induction rest generalizing first with
  | nil => exact .inl ⟨rfl, List.isChain_singleton _⟩
  | cons next rest ih =>
    unfold validateFrom
    rw [List.isChain_cons_cons]
    by_cases hnext : first.number + 1 = next.number
    · rw [if_pos hnext]
      rcases ih next with ⟨hok, hchain⟩ | ⟨hpanic, hchain⟩
      · exact .inl ⟨hok, hnext, hchain⟩
      · exact .inr ⟨hpanic, fun h => hchain h.2⟩
    · rw [if_neg hnext]
      exact .inr ⟨rfl, fun h => hnext h.1⟩

variable {batches : List ViaBtcL1BlockDetails} {criteria : List ViaBtcL1BatchCommitCriterion}
  {op : ViaAggregatedOperation}

theorem validateL1BatchSequence_ok :
    validateL1BatchSequence batches = .ok () ↔ batches.IsChain Follows := by
  cases batches with
  | nil => exact iff_of_true rfl List.isChain_nil
  | cons first rest =>
    rcases validateFrom_cases first rest with ⟨hok, hchain⟩ | ⟨hpanic, hchain⟩
    · exact iff_of_true hok hchain
    · exact iff_of_false (fun hok => nomatch hpanic.symm.trans hok) hchain

theorem operation_eq_some {now : ℕ} {ready : List ViaBtcL1BlockDetails}
    {f : List ViaBtcL1BlockDetails → ViaAggregatedOperation}
    (h : (validateL1BatchSequence ready >>= fun _ =>
      Outcome.ok ((extractReadySubrange now criteria ready).map f)) = .ok (some op)) :
    ready.IsChain Follows ∧ ∃ k, op = f (ready.take k) := by
  obtain ⟨_, hvalid, h⟩ := Outcome.bind_eq_ok.1 h
  obtain ⟨selected, hselected, rfl⟩ := Option.map_eq_some_iff.1 (Outcome.ok.inj h)
  obtain ⟨last, -, rfl⟩ := Option.map_eq_some_iff.1 hselected
  exact ⟨validateL1BatchSequence_ok.1 hvalid, _,
    congrArg f (List.prefix_iff_eq_take.1 (List.takeWhile_prefix _))⟩

variable {Address : Type} {config : ViaBtcSenderConfig} {db : SenderDb Address} {now : ℕ}

/-- **An operation** is about the first of the batches that are ready for it, and these are
consecutive. -/
theorem getNextReadyOperation_eq_some (h : getNextReadyOperation config db now = .ok (some op)) :
    ((readyForCommitProofL1Batches config db).IsChain Follows
      ∧ ∃ k, op = .commitProofOnchain ((readyForCommitProofL1Batches config db).take k)) ∨
    ((readyForCommitL1Batches config db).IsChain Follows
      ∧ ∃ k, op = .commitL1BatchOnchain ((readyForCommitL1Batches config db).take k)) := by
  obtain ⟨proofOp, hproof, h⟩ := Outcome.bind_eq_ok.1 h
  cases proofOp with
  | some proofOp =>
    cases h
    exact .inl (operation_eq_some hproof)
  | none => exact .inr (operation_eq_some h)

variable {requestType : ViaBtcInscriptionRequestType} {predictFee : ℕ → Option ℕ}

structure SavedRequest (db db' : SenderDb Address) : Prop where
  requestSequence : db'.requestSequence = db.requestSequence + 1
  inscriptionRequests : ∃ request : InscriptionRequestRow Address,
    request.id = db.requestSequence + 1
      ∧ db'.inscriptionRequests = db.inscriptionRequests ++ [request]
  l1Batches : db'.l1Batches = db.l1Batches
  dataAvailability : db'.dataAvailability = db.dataAvailability

def SavesRequest (db : SenderDb Address) (requestType : ViaBtcInscriptionRequestType)
    (message : InscriptionMessage Address) (fee number : ℕ) (db' : SenderDb Address) : Prop :=
  insertL1BatchInscriptionRequestId (viaSaveBtcInscriptionsRequest db requestType message fee).1
    number (viaSaveBtcInscriptionsRequest db requestType message fee).2 requestType = some db'

variable {message : InscriptionMessage Address} {fee number : ℕ} {db' : SenderDb Address}

theorem savedRequest_commit (h : SavesRequest db .commitL1BatchOnchain message fee number db') :
    SavedRequest db db'
      ∧ (∀ row ∈ db.batchInscriptions, row.l1BatchNumber ≠ number)
      ∧ db'.batchInscriptions
        = db.batchInscriptions ++ [⟨number, db.requestSequence + 1, none⟩] := by
  simp only [SavesRequest, insertL1BatchInscriptionRequestId] at h
  split at h
  · cases h
  · rename_i hfresh
    cases h
    refine ⟨⟨rfl, ⟨_, rfl, rfl⟩, rfl, rfl⟩, fun row hrow hnumber => hfresh ?_, rfl⟩
    exact List.any_eq_true.2 ⟨row, hrow, decide_eq_true (.inl hnumber)⟩

def withProofRequest (number requestId : ℕ) (row : BatchInscriptionRow) : BatchInscriptionRow :=
  if row.l1BatchNumber = number ∧ row.commitProofInscriptionId = none then
    { row with commitProofInscriptionId := some requestId }
  else row

theorem withProofRequest_l1BatchNumber (number requestId : ℕ) (row : BatchInscriptionRow) :
    (withProofRequest number requestId row).l1BatchNumber = row.l1BatchNumber := by
  unfold withProofRequest
  split <;> rfl

theorem withProofRequest_commitId (number requestId : ℕ) (row : BatchInscriptionRow) :
    (withProofRequest number requestId row).commitL1BatchInscriptionId
      = row.commitL1BatchInscriptionId := by
  unfold withProofRequest
  split <;> rfl

theorem savedRequest_proof (h : SavesRequest db .commitProofOnchain message fee number db') :
    SavedRequest db db'
      ∧ (∃ row ∈ db.batchInscriptions,
        row.l1BatchNumber = number ∧ row.commitProofInscriptionId = none)
      ∧ db'.batchInscriptions
        = db.batchInscriptions.map (withProofRequest number (db.requestSequence + 1)) := by
  simp only [SavesRequest, insertL1BatchInscriptionRequestId] at h
  split at h
  · rename_i hfound
    cases h
    obtain ⟨row, hrow, hfound⟩ := List.any_eq_true.1 hfound
    exact ⟨⟨rfl, ⟨_, rfl, rfl⟩, rfl, rfl⟩, ⟨row, hrow, of_decide_eq_true hfound⟩, rfl⟩
  · cases h

theorem savedRequest (h : SavesRequest db requestType message fee number db') :
    SavedRequest db db' := by
  cases requestType with
  | commitL1BatchOnchain => exact (savedRequest_commit h).1
  | commitProofOnchain => exact (savedRequest_proof h).1

theorem savedRequest_tables (h : SavesRequest db requestType message fee number db') :
    db'.inscriptionRequests = db.inscriptionRequests
        ++ [⟨db.requestSequence + 1, requestType, message, fee, none⟩]
      ∧ db'.history = db.history ∧ db'.historySequence = db.historySequence := by
  cases requestType with
  | commitL1BatchOnchain =>
    simp only [SavesRequest, insertL1BatchInscriptionRequestId] at h
    split at h
    · cases h
    · cases h
      exact ⟨rfl, rfl, rfl⟩
  | commitProofOnchain =>
    simp only [SavesRequest, insertL1BatchInscriptionRequestId] at h
    split at h
    · cases h
      exact ⟨rfl, rfl, rfl⟩
    · cases h

/-- **The rule for transactions**: what every single request keeps, over the batches that are still
to come, holds when all of them are saved. -/
theorem saveRequests_invariant {I : SenderDb Address → List ViaBtcL1BlockDetails → Prop}
    (hstep : ∀ db batch rest message fee db', I db (batch :: rest) →
      constructInscriptionMessage config requestType batch = some message →
      SavesRequest db requestType message fee batch.number db' → I db' rest) (h0 : I db batches)
    (hok : (saveRequests config requestType predictFee db batches).2 = true) :
    I (saveRequests config requestType predictFee db batches).1 [] := by
  induction batches generalizing db with
  | nil => exact h0
  | cons batch rest ih =>
    unfold saveRequests at hok ⊢
    cases hmessage : constructInscriptionMessage config requestType batch with
    | none =>
      simp only [hmessage] at hok
      cases hok
    | some message =>
      cases hfee : predictFee batch.number with
      | none =>
        simp only [hmessage, hfee] at hok
        cases hok
      | some fee =>
        simp only [hmessage, hfee] at hok ⊢
        -- the flag is set, so the insertion succeeded
        split at hok
        · rename_i db' hinsert
          exact ih (hstep db batch rest message fee db' h0 hmessage hinsert) hok
        · cases hok

theorem le_requestSequence_saveRequests (batches : List ViaBtcL1BlockDetails) :
    db.requestSequence
      ≤ (saveRequests config requestType predictFee db batches).1.requestSequence := by
  induction batches generalizing db with
  | nil => exact le_rfl
  | cons batch rest ih =>
    unfold saveRequests
    split
    · rename_i message fee _ _
      simp only
      split
      · rename_i db' hinsert
        have hsequence := (savedRequest hinsert).requestSequence
        have := @ih db'
        omega
      · exact Nat.le_succ _
    · exact le_rfl

/-- **An iteration** leaves the tables as they are, or has saved a request for each batch of an
operation. -/
theorem aggregatorLoopIteration_cases (answers : AggregatorAnswers) :
    (∃ sequence, db.requestSequence ≤ sequence
      ∧ (aggregatorLoopIteration config db answers).1
        = { db with requestSequence := sequence }) ∨
    ∃ op, getNextReadyOperation config db answers.now = .ok (some op)
      ∧ (saveRequests config op.getInscriptionRequestType answers.predictFee db
          op.getL1BatchesDetail).2 = true
      ∧ (aggregatorLoopIteration config db answers).1
        = (saveRequests config op.getInscriptionRequestType answers.predictFee db
            op.getL1BatchesDetail).1 := by
  unfold aggregatorLoopIteration
  split
  · exact .inl ⟨db.requestSequence, le_rfl, rfl⟩
  · rename_i op hop
    simp only
    split
    · rename_i hsaved
      exact .inr ⟨op, hop, (Bool.and_eq_true_iff.1 hsaved).1, rfl⟩
    · exact .inl ⟨_, le_requestSequence_saveRequests _, rfl⟩
  · exact .inl ⟨db.requestSequence, le_rfl, rfl⟩
  · exact .inl ⟨db.requestSequence, le_rfl, rfl⟩

theorem aggregatorLoopIteration_history (answers : AggregatorAnswers) :
    (aggregatorLoopIteration config db answers).1.history = db.history
      ∧ (aggregatorLoopIteration config db answers).1.historySequence = db.historySequence := by
  rcases @aggregatorLoopIteration_cases _ config db answers
    with ⟨sequence, -, hdb⟩ | ⟨op, -, hok, hdb⟩
  · rw [hdb]
    exact ⟨rfl, rfl⟩
  · rw [hdb]
    refine saveRequests_invariant (I := fun db' _ => db'.history = db.history
      ∧ db'.historySequence = db.historySequence) ?_ ⟨rfl, rfl⟩ hok
    intro db' batch rest message fee db'' hsame _ hinsert
    obtain ⟨-, hhistory, hsequence⟩ := savedRequest_tables hinsert
    exact ⟨hhistory.trans hsame.1, hsequence.trans hsame.2⟩

def RequestsGrow (db db' : SenderDb Address) : Prop :=
  db.requestSequence ≤ db'.requestSequence ∧ ∃ new,
    db'.inscriptionRequests = db.inscriptionRequests ++ new
      ∧ ∀ request ∈ new, db.requestSequence < request.id

theorem aggregatorLoopIteration_requests (answers : AggregatorAnswers) :
    RequestsGrow db (aggregatorLoopIteration config db answers).1 := by
  rcases @aggregatorLoopIteration_cases _ config db answers
    with ⟨sequence, hle, hdb⟩ | ⟨op, -, hok, hdb⟩
  · rw [hdb]
    exact ⟨hle, [], (List.append_nil _).symm, nofun⟩
  · rw [hdb]
    refine saveRequests_invariant (I := fun db' _ => RequestsGrow db db') ?_
      ⟨le_rfl, [], (List.append_nil _).symm, nofun⟩ hok
    rintro db' batch rest message fee db'' ⟨hle, new, hrequests, hnew⟩ - hinsert
    obtain ⟨hsequence, ⟨request, hid, hrequest⟩, -, -⟩ := savedRequest hinsert
    refine ⟨by omega, new ++ [request], by rw [hrequest, hrequests, List.append_assoc], ?_⟩
    intro request' hrequest'
    rcases List.mem_append.1 hrequest' with hmem | hmem
    · exact hnew request' hmem
    · rw [List.mem_singleton.1 hmem]
      omega

end Specs

section Runs

variable {Address : Type}

/-- The statements of the other components, and iterations of the aggregator. -/
inductive SenderEvent where
  | insertL1Batch (number timestamp protocolVersion : ℕ)
  | saveL1BatchTreeData (number : ℕ) (hash : H256)
  | saveL1BatchCommitmentArtifacts (number : ℕ) (commitment : H256)
      (auxCommitments : Option (H256 × H256))
  | insertProtocolVersion (row : ProtocolVersionRow)
  | insertDa (number : ℕ) (isProof : Bool) (blobId : Utf8)
  | saveInclusionData (number : ℕ) (isProof : Bool) (inclusionData : Bytes)
  | insertInscriptionRequestHistory (commitTxId revealTxId : Txid)
      (inscriptionRequestId sentAtBlock createdAt : ℕ)
  | confirmInscription (requestId historyId : ℕ)
  | iterate (config : ViaBtcSenderConfig) (answers : AggregatorAnswers)

def SenderDb.step (db : SenderDb Address) : SenderEvent → SenderDb Address
  | .insertL1Batch number timestamp protocolVersion =>
    insertL1Batch db number timestamp protocolVersion
  | .saveL1BatchTreeData number hash => saveL1BatchTreeData db number hash
  | .saveL1BatchCommitmentArtifacts number commitment auxCommitments =>
    saveL1BatchCommitmentArtifacts db number commitment auxCommitments
  | .insertProtocolVersion row => insertProtocolVersion db row
  | .insertDa number isProof blobId => insertDa db number isProof blobId
  | .saveInclusionData number isProof inclusionData =>
    saveInclusionData db number isProof inclusionData
  | .insertInscriptionRequestHistory commitTxId revealTxId inscriptionRequestId sentAtBlock
      createdAt =>
    insertInscriptionRequestHistory db commitTxId revealTxId inscriptionRequestId sentAtBlock
      createdAt
  | .confirmInscription requestId historyId => confirmInscription db requestId historyId
  | .iterate config answers => (aggregatorLoopIteration config db answers).1

def senderStep (Address : Type) : StepRel (SenderDb Address) SenderEvent :=
  StepRel.ofPartial fun db e => some (db.step e)

def InscriptionRequestRow.IsConfirmed (request : InscriptionRequestRow Address) : Prop :=
  request.confirmedInscriptionsRequestHistoryId ≠ none

instance InscriptionRequestRow.decidableIsConfirmed (request : InscriptionRequestRow Address) :
    Decidable request.IsConfirmed := by
  unfold InscriptionRequestRow.IsConfirmed
  infer_instance

/-- What the other components leave alone: requests stay, and confirmed ones stay confirmed. -/
structure Frame (db db' : SenderDb Address) : Prop where
  batchInscriptions : db'.batchInscriptions = db.batchInscriptions
  requestSequence : db'.requestSequence = db.requestSequence
  requestIds : db'.inscriptionRequests.map InscriptionRequestRow.id
    = db.inscriptionRequests.map InscriptionRequestRow.id
  confirmed : ∀ request ∈ db.inscriptionRequests, request.IsConfirmed →
    ∃ request' ∈ db'.inscriptionRequests, request'.id = request.id ∧ request'.IsConfirmed
  l1BatchKeys : (db.l1Batches.map L1BatchRow.number).Nodup →
    (db'.l1Batches.map L1BatchRow.number).Nodup
  dataAvailabilityKeys : (db.dataAvailability.map DataAvailabilityRow.key).Nodup →
    (db'.dataAvailability.map DataAvailabilityRow.key).Nodup

theorem frame_confirmInscription (db : SenderDb Address) (requestId historyId : ℕ) :
    Frame db (confirmInscription db requestId historyId) := by
  unfold confirmInscription
  split
  · refine ⟨rfl, rfl, ?_, ?_, id, id⟩
    · rw [List.map_map]
      refine List.map_congr_left fun request _ => ?_
      simp only [Function.comp_apply]
      split <;> rfl
    · intro request hrequest hconfirmed
      refine ⟨_, List.mem_map_of_mem hrequest, ?_⟩
      split
      · exact ⟨rfl, by simp [InscriptionRequestRow.IsConfirmed]⟩
      · exact ⟨rfl, hconfirmed⟩
  · exact ⟨rfl, rfl, rfl, fun request hrequest h => ⟨request, hrequest, rfl, h⟩, id, id⟩

theorem SenderDb.step_frame (db : SenderDb Address) (e : SenderEvent) :
    (∃ config answers, e = .iterate config answers) ∨ Frame db (db.step e) := by
  have hkept : ∀ request ∈ db.inscriptionRequests, request.IsConfirmed →
      ∃ request' ∈ db.inscriptionRequests, request'.id = request.id ∧ request'.IsConfirmed :=
    fun request hrequest h => ⟨request, hrequest, rfl, h⟩
  cases e with
  | iterate config answers => exact .inl ⟨config, answers, rfl⟩
  | confirmInscription requestId historyId =>
    exact .inr (frame_confirmInscription db requestId historyId)
  -- inserts and updates by key: no column that matters changes
  | insertL1Batch number timestamp protocolVersion =>
    exact .inr ⟨rfl, rfl, rfl, hkept, fun h => nodup_insertIfAbsent h _, id⟩
  | saveL1BatchTreeData number hash =>
    refine .inr ⟨rfl, rfl, rfl, hkept, nodup_map_update fun row => ?_, id⟩
    split <;> rfl
  | saveL1BatchCommitmentArtifacts number commitment auxCommitments =>
    right
    simp only [SenderDb.step, saveL1BatchCommitmentArtifacts]
    split
    · refine ⟨rfl, rfl, rfl, hkept, nodup_map_update fun row => ?_, id⟩
      split <;> rfl
    · exact ⟨rfl, rfl, rfl, hkept, id, id⟩
  | insertProtocolVersion row => exact .inr ⟨rfl, rfl, rfl, hkept, id, id⟩
  | insertDa number isProof blobId =>
    exact .inr ⟨rfl, rfl, rfl, hkept, id, fun h => nodup_insertIfAbsent h _⟩
  | saveInclusionData number isProof inclusionData =>
    refine .inr ⟨rfl, rfl, rfl, hkept, id, nodup_map_update fun row => ?_⟩
    split <;> rfl
  | insertInscriptionRequestHistory commitTxId revealTxId inscriptionRequestId sentAtBlock
      createdAt =>
    right
    simp only [SenderDb.step, insertInscriptionRequestHistory]
    split
    · exact ⟨rfl, rfl, rfl, hkept, id, id⟩
    · exact ⟨rfl, rfl, rfl, hkept, id, id⟩

end Runs
