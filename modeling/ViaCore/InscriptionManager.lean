/-
The inscription manager: sending requests, confirming them, and sending them again.

An iteration goes over the requests in flight.  A request whose last attempt is confirmed is marked
so; one whose last attempt was sent six blocks ago is sent again.  Then new requests are sent, as
many as there are free slots.

A state of the node (`SenderNode`) has the tables, the inscriber, the Bitcoin chain and the point
that the manager has reached; blocks and the statements of others come between any two of its steps.

* `sendInscriptionTx_db`, `SenderNode.check_cases` — what the manager does to the tables.
-/
import ViaCore.Aggregator
import ViaCore.Inscriber

def blockResend : ℕ := 6

section Queries

variable {Address : Type} (db : SenderDb Address)

/-- Unconfirmed requests with the attempt that was created last. -/
def getInflightInscriptions : List (InscriptionRequestRow Address) :=
  let inflight := innerJoin
    (fun (request : InscriptionRequestRow Address) history =>
      request.id = history.inscriptionRequestId
        ∧ request.confirmedInscriptionsRequestHistoryId = none
        ∧ (latestHistory db request.id).map InscriptionHistoryRow.id = some history.id)
    db.inscriptionRequests db.history
  (inflight.map Prod.fst).insertionSort fun request request' => request.id ≤ request'.id

def listNewInscriptionRequest (limit : ℕ) : List (InscriptionRequestRow Address) :=
  let requests := leftJoin
    (fun (request : InscriptionRequestRow Address) history =>
      request.id = history.inscriptionRequestId)
    db.inscriptionRequests db.history
  (lowest (fun r => r.1.id) limit (requests.filter fun r => r.2.isNone)).map Prod.fst

def getLastInscriptionRequestHistory (requestId : ℕ) : Option InscriptionHistoryRow :=
  (db.history.filter fun row => row.inscriptionRequestId = requestId).argmax
    InscriptionHistoryRow.id

def getTotalInscriptionRequestHistory (requestId : ℕ) : ℕ :=
  (db.history.filter fun row => row.inscriptionRequestId = requestId).length

end Queries

/-- The answers during an attempt.  `lostBroadcast`: the node took the transaction of a failed
broadcast; `insert`: what becomes of the statement. -/
structure SendAnswers where
  blockHeight : Option ℕ
  checkTxConfirmation : Txid → Option Bool
  inscribe : InscribeAnswers
  lostBroadcast : Bool
  insert : Verdict
  createdAt : ℕ

/-- The inscriber and the tables afterwards, the transactions that the node has taken, and whether
the call succeeded. -/
structure SendResult (Address : Type) where
  inscriber : Inscriber Address
  db : SenderDb Address
  taken : List Transaction
  succeeded : Bool

section Send

variable {Address : Type} (B : RustBitcoin Address)

/-- The transaction of the broadcast that fails, if the node took it all the same. -/
def Inscriber.lostTransactions (self : Inscriber Address) (message : InscriptionMessage Address)
    (config : InscriptionConfig) (answers : SendAnswers) : List Transaction :=
  match self.prepareInscribeSynced B message config none answers.inscribe with
  | .ok info =>
    if answers.lostBroadcast then
      if answers.inscribe.broadcastCommit then [info.finalRevealTx.tx] else [info.finalCommitTx.tx]
    else []
  | _ => []

def sendInscriptionTx (inscriber : Inscriber Address) (db : SenderDb Address)
    (tx : InscriptionRequestRow Address) (config : InscriptionConfig) (answers : SendAnswers) :
    SendResult Address :=
  match answers.blockHeight with
  | none => ⟨inscriber, db, [], false⟩
  | some sentAtBlock =>
    -- `inscribe`, which is `inscribe_with_recipient` without a recipient
    match inscriber.syncContextWithBlockchain answers.checkTxConfirmation with
    | (inscriber, false) => ⟨inscriber, db, [], false⟩
    | (inscriber, true) =>
      match inscriber.inscribeSynced B tx.inscriptionMessage config none answers.inscribe with
      | (inscriber, taken, .ok info) =>
        let db' := insertInscriptionRequestHistory db info.finalCommitTx.txid
          info.finalRevealTx.txid tx.id sentAtBlock answers.createdAt
        match answers.insert with
        | .done => ⟨inscriber, db', taken, true⟩
        | .failed applied => ⟨inscriber, if applied then db' else db, taken, false⟩
      | (inscriber, taken, _) =>
        ⟨inscriber, db,
          taken ++ inscriber.lostTransactions B tx.inscriptionMessage config answers, false⟩

end Send

/-! ### The node -/

structure ManagerConfig where
  blockConfirmations : ℕ
  maxTxsInFlight : ℕ

/-- Where the manager is, with the requests that are left: before a request in flight, after it was
found unconfirmed, before the resend, before a new one. -/
inductive ManagerPhase (Address : Type) where
  | idle
  | updating (rest : List (InscriptionRequestRow Address))
  | unconfirmed (request : InscriptionRequestRow Address) (last : InscriptionHistoryRow)
      (rest : List (InscriptionRequestRow Address))
  | resending (request : InscriptionRequestRow Address) (config : InscriptionConfig)
      (rest : List (InscriptionRequestRow Address))
  | sending (rest : List (InscriptionRequestRow Address))

def ManagerPhase.requests {Address : Type} : ManagerPhase Address →
    List (InscriptionRequestRow Address)
  | .idle => []
  | .updating rest => rest
  | .unconfirmed request _ rest => request :: rest
  | .resending request _ rest => request :: rest
  | .sending rest => rest

/-- The blocks of the chain are given by the transactions in them, the oldest block first. -/
structure SenderNode (Address : Type) where
  db : SenderDb Address
  inscriber : Inscriber Address
  phase : ManagerPhase Address
  chain : List (List Txid)

/-- The number of blocks on top of the transaction, its own included. -/
def confirmations (chain : List (List Txid)) (txid : Txid) : Option ℕ :=
  (chain.reverse.findIdx? fun block => txid ∈ block).map (· + 1)

def checkTxConfirmation (chain : List (List Txid)) (txid : Txid) (confNum : ℕ) : Bool :=
  match confirmations chain txid with
  | some n => confNum ≤ n
  | none => false

def SenderEvent.isManagers : SenderEvent → Bool
  | .insertInscriptionRequestHistory .. => true
  | .confirmInscription .. => true
  | _ => false

/-- A statement of another component, an iteration of the aggregator, a block, a step of the
manager, an error, and a restart, which loses the context. -/
inductive NodeEvent where
  | other (e : SenderEvent)
  | block (txids : List Txid)
  | fetchInflight
  | check (confirm : Verdict)
  | fetchBlockHeight
  | resend (answers : SendAnswers)
  | fetchNew
  | send (answers : SendAnswers)
  | finish
  | fail
  | restart

section Node

variable {Address : Type} (B : RustBitcoin Address) (config : ManagerConfig)

def SenderNode.attempt (node : SenderNode Address) (request : InscriptionRequestRow Address)
    (inscriptionConfig : InscriptionConfig) (answers : SendAnswers)
    (next : ManagerPhase Address) : SenderNode Address :=
  let result := sendInscriptionTx B node.inscriber node.db request inscriptionConfig answers
  { node with
    db := result.db
    inscriber := result.inscriber
    phase := if result.succeeded then next else .idle }

/-- A request in flight: confirmed, found unconfirmed, or skipped without an attempt. -/
def SenderNode.check (node : SenderNode Address) (request : InscriptionRequestRow Address)
    (rest : List (InscriptionRequestRow Address)) (confirm : Verdict) : SenderNode Address :=
  match getLastInscriptionRequestHistory node.db request.id with
  | none => { node with phase := .updating rest }
  | some last =>
    if checkTxConfirmation node.chain last.revealTxId config.blockConfirmations then
      let db := confirmInscription node.db request.id last.id
      match confirm with
      | .done => { node with db, phase := .updating rest }
      | .failed applied => { node with db := if applied then db else node.db, phase := .idle }
    else { node with phase := .unconfirmed request last rest }

/-- The attempt is old enough to be followed by another one, or the manager goes on. -/
def SenderNode.fetchBlockHeight (node : SenderNode Address)
    (request : InscriptionRequestRow Address) (last : InscriptionHistoryRow)
    (rest : List (InscriptionRequestRow Address)) : SenderNode Address :=
  if node.chain.length < last.sentAtBlock + blockResend then { node with phase := .updating rest }
  else { node with
    phase := .resending request
      { feeMultiplier := getTotalInscriptionRequestHistory node.db request.id + 1 } rest }

def SenderNode.step (node : SenderNode Address) : NodeEvent → Option (SenderNode Address)
  | .other e => if e.isManagers then none else some { node with db := node.db.step e }
  | .block txids => some { node with chain := node.chain ++ [txids] }
  | .fetchInflight =>
    match node.phase with
    | .idle => some { node with phase := .updating (getInflightInscriptions node.db) }
    | _ => none
  | .check confirm =>
    match node.phase with
    | .updating (request :: rest) => some (node.check config request rest confirm)
    | _ => none
  | .fetchBlockHeight =>
    match node.phase with
    | .unconfirmed request last rest => some (node.fetchBlockHeight request last rest)
    | _ => none
  | .resend answers =>
    match node.phase with
    | .resending request inscriptionConfig rest =>
      some (node.attempt B request inscriptionConfig answers (.updating rest))
    | _ => none
  | .fetchNew =>
    match node.phase with
    | .updating [] =>
      let slots := config.maxTxsInFlight - (getInflightInscriptions node.db).length
      some { node with phase := .sending (listNewInscriptionRequest node.db slots) }
    | _ => none
  | .send answers =>
    match node.phase with
    | .sending (request :: rest) =>
      some (node.attempt B request { feeMultiplier := 1 } answers (.sending rest))
    | _ => none
  | .finish =>
    match node.phase with
    | .sending [] => some { node with phase := .idle }
    | _ => none
  | .fail => some { node with phase := .idle }
  | .restart =>
    some { node with
      inscriber := { node.inscriber with fifoQueue := [] }
      phase := .idle }

def nodeStep : StepRel (SenderNode Address) NodeEvent :=
  StepRel.ofPartial (SenderNode.step B config)

def SenderNode.initial (signer : BitcoinSigner) (network : Network) (chain : List (List Txid)) :
    SenderNode Address :=
  ⟨.empty Address, ⟨signer, network, []⟩, .idle, chain⟩

end Node

section Specs

variable {Address : Type} {B : RustBitcoin Address} {config : ManagerConfig}

variable (B config) in
inductive SenderNode.Stepped (node : SenderNode Address) : NodeEvent → SenderNode Address → Prop
  | other {e : SenderEvent} (he : e.isManagers = false) :
    Stepped node (.other e) { node with db := node.db.step e }
  | block (txids : List Txid) :
    Stepped node (.block txids) { node with chain := node.chain ++ [txids] }
  | fetchInflight : Stepped node .fetchInflight
    { node with phase := .updating (getInflightInscriptions node.db) }
  | check {request rest} (hphase : node.phase = .updating (request :: rest)) (confirm : Verdict) :
    Stepped node (.check confirm) (node.check config request rest confirm)
  | fetchBlockHeight {request last rest}
    (hphase : node.phase = .unconfirmed request last rest) :
    Stepped node .fetchBlockHeight (node.fetchBlockHeight request last rest)
  | resend {request inscriptionConfig rest}
    (hphase : node.phase = .resending request inscriptionConfig rest) (answers : SendAnswers) :
    Stepped node (.resend answers)
      (node.attempt B request inscriptionConfig answers (.updating rest))
  | fetchNew : Stepped node .fetchNew { node with
    phase := .sending (listNewInscriptionRequest node.db
      (config.maxTxsInFlight - (getInflightInscriptions node.db).length)) }
  | send {request rest} (hphase : node.phase = .sending (request :: rest)) (answers : SendAnswers) :
    Stepped node (.send answers)
      (node.attempt B request { feeMultiplier := 1 } answers (.sending rest))
  | finish : Stepped node .finish { node with phase := .idle }
  | fail : Stepped node .fail { node with phase := .idle }
  | restart : Stepped node .restart { node with
    inscriber := { node.inscriber with fifoQueue := [] }
    phase := .idle }

theorem SenderNode.stepped_of_step {node node' : SenderNode Address} {e : NodeEvent}
    (h : node.step B config e = some node') : node.Stepped B config e node' := by
  cases e with
  | other e =>
    simp only [SenderNode.step] at h
    split at h
    · cases h
    · next he =>
      cases h
      exact .other (Bool.eq_false_iff.2 he)
  | _ =>
    simp only [SenderNode.step] at h
    try split at h
    all_goals cases h
    all_goals constructor
    all_goals assumption

def HasHistory (db : SenderDb Address) (requestId : ℕ) : Prop :=
  ∃ row ∈ db.history, row.inscriptionRequestId = requestId
deriving Decidable

variable {db : SenderDb Address}

theorem mem_getInflightInscriptions {request : InscriptionRequestRow Address} :
    request ∈ getInflightInscriptions db ↔
      request ∈ db.inscriptionRequests ∧ ¬ request.IsConfirmed ∧ HasHistory db request.id := by
  rw [getInflightInscriptions, List.mem_insertionSort, List.mem_map]
  constructor
  · rintro ⟨⟨_, history⟩, hjoin, rfl⟩
    obtain ⟨hmem, hhistory, hon⟩ := mem_innerJoin.1 hjoin
    obtain ⟨hid, hnone, -⟩ := of_decide_eq_true hon
    exact ⟨hmem, not_not_intro hnone, history, hhistory, hid.symm⟩
  · rintro ⟨hmem, hnone, row, hrow, hid⟩
    obtain ⟨last, hlast⟩ : ∃ last, latestHistory db request.id = some last := by
      rw [← Option.ne_none_iff_exists', latestHistory, ne_eq, List.argmax_eq_none]
      exact List.ne_nil_of_mem (List.mem_filter.2 ⟨hrow, decide_eq_true hid⟩)
    obtain ⟨hmem', hid'⟩ := List.mem_filter.1 (List.argmax_mem hlast)
    refine ⟨(request, last), mem_innerJoin.2 ⟨hmem, hmem', decide_eq_true ?_⟩, rfl⟩
    exact ⟨(of_decide_eq_true hid').symm, not_not.1 hnone, by rw [hlast]; rfl⟩

theorem nodup_getInflightInscriptions
    (hrequests : (db.inscriptionRequests.map InscriptionRequestRow.id).Nodup)
    (hhistory : (db.history.map InscriptionHistoryRow.id).Nodup) :
    ((getInflightInscriptions db).map InscriptionRequestRow.id).Nodup := by
  unfold getInflightInscriptions
  rw [((List.perm_insertionSort _ _).map _).nodup_iff, List.Nodup, List.map_map, List.pairwise_map]
  -- a request has one attempt that was created last
  refine (innerJoin_pairwise (List.pairwise_map.1 hrequests) (S := fun _ _ => False) ?_).imp ?_
  · intro request _
    refine @pairwise_filter_key _ _ InscriptionHistoryRow.id _ _ hhistory _
      (((latestHistory db request.id).map InscriptionHistoryRow.id).getD 0) ?_
    intro row _ hon
    obtain ⟨-, -, hlatest⟩ := of_decide_eq_true hon
    rw [hlatest, Option.getD_some]
  · intro r r' hne
    exact hne.resolve_right id

section New

variable {db : SenderDb Address} {limit : ℕ} {request : InscriptionRequestRow Address}

theorem of_mem_listNewInscriptionRequest (h : request ∈ listNewInscriptionRequest db limit) :
    request ∈ db.inscriptionRequests ∧ ¬ HasHistory db request.id := by
  obtain ⟨⟨_, none | row⟩, hmem, rfl⟩ := List.mem_map.1 h
  · obtain ⟨hmem, -⟩ := List.mem_filter.1 (mem_of_mem_lowest hmem)
    obtain ⟨hrequest, hnone⟩ := mem_leftJoin_none.1 hmem
    exact ⟨hrequest, fun ⟨row, hrow, hid⟩ => of_decide_eq_false (hnone row hrow) hid.symm⟩
  · obtain ⟨-, hnone⟩ := List.mem_filter.1 (mem_of_mem_lowest hmem)
    cases hnone

theorem pairwise_listNewInscriptionRequest
    (hrequests : (db.inscriptionRequests.map InscriptionRequestRow.id).Nodup) :
    (listNewInscriptionRequest db limit).Pairwise fun r r' => r.id < r'.id := by
  refine List.pairwise_map.2 (lowest_pairwise_lt (List.pairwise_map.2 ?_))
  have hjoin := @leftJoin_pairwise _ _ (fun (request : InscriptionRequestRow Address) history =>
    request.id = history.inscriptionRequestId) db.inscriptionRequests db.history _ (fun _ _ => True)
    (List.pairwise_map.1 hrequests) fun _ _ => List.pairwise_of_forall fun _ _ => trivial
  refine (hjoin.filter _).imp_of_mem fun {r r'} hr _ hne => ?_
  rcases hne with hne | ⟨b, -, hb, -⟩
  · exact hne
  · -- the filter leaves no matches
    obtain ⟨-, hnone⟩ := List.mem_filter.1 hr
    rw [hb] at hnone
    cases hnone

end New

/-- What the other components leave alone, iterations of the aggregator apart. -/
structure Untouched (db db' : SenderDb Address) : Prop where
  inscriptionRequests : db'.inscriptionRequests = db.inscriptionRequests
  batchInscriptions : db'.batchInscriptions = db.batchInscriptions
  history : db'.history = db.history
  historySequence : db'.historySequence = db.historySequence
  blobs : ∀ blob ∈ db.dataAvailability, ∃ blob' ∈ db'.dataAvailability,
    blob'.key = blob.key ∧ blob'.blobId = blob.blobId

variable {e : SenderEvent}

theorem SenderDb.step_untouched (db : SenderDb Address) (he : e.isManagers = false) :
    (∃ config answers, e = .iterate config answers) ∨ Untouched db (db.step e) := by
  have hkept : ∀ blob ∈ db.dataAvailability, ∃ blob' ∈ db.dataAvailability,
      blob'.key = blob.key ∧ blob'.blobId = blob.blobId :=
    fun blob hblob => ⟨blob, hblob, rfl, rfl⟩
  cases e with
  | iterate config answers => exact .inl ⟨config, answers, rfl⟩
  | confirmInscription requestId historyId => cases he
  | insertInscriptionRequestHistory commitTxId revealTxId inscriptionRequestId sentAtBlock
      createdAt => cases he
  | insertL1Batch number timestamp protocolVersion => exact .inr ⟨rfl, rfl, rfl, rfl, hkept⟩
  | saveL1BatchTreeData number hash => exact .inr ⟨rfl, rfl, rfl, rfl, hkept⟩
  | saveL1BatchCommitmentArtifacts number commitment auxCommitments =>
    right
    simp only [SenderDb.step, saveL1BatchCommitmentArtifacts]
    split
    · exact ⟨rfl, rfl, rfl, rfl, hkept⟩
    · exact ⟨rfl, rfl, rfl, rfl, hkept⟩
  | insertProtocolVersion row => exact .inr ⟨rfl, rfl, rfl, rfl, hkept⟩
  -- blobs are only added, or completed
  | insertDa number isProof blobId =>
    refine .inr ⟨rfl, rfl, rfl, rfl, fun blob hblob => ⟨blob, ?_, rfl, rfl⟩⟩
    simp only [SenderDb.step, insertDa, insertIfAbsent]
    split
    · exact hblob
    · exact List.mem_append_left _ hblob
  | saveInclusionData number isProof inclusionData =>
    refine .inr ⟨rfl, rfl, rfl, rfl, fun blob hblob => ⟨_, List.mem_map_of_mem hblob, ?_⟩⟩
    split <;> exact ⟨rfl, rfl⟩

theorem SenderDb.step_history (db : SenderDb Address) (he : e.isManagers = false) :
    (db.step e).history = db.history ∧ (db.step e).historySequence = db.historySequence := by
  rcases db.step_untouched he with ⟨config, answers, rfl⟩ | h
  · exact aggregatorLoopIteration_history answers
  · exact ⟨h.history, h.historySequence⟩

theorem SenderDb.step_requestsGrow (db : SenderDb Address)
    (he : e.isManagers = false) : RequestsGrow db (db.step e) := by
  rcases db.step_frame e with ⟨config, answers, rfl⟩ | hframe
  · exact aggregatorLoopIteration_requests answers
  · rcases db.step_untouched he with ⟨config, answers, rfl⟩ | h
    · exact aggregatorLoopIteration_requests answers
    · exact ⟨hframe.requestSequence.ge, [], by rw [h.inscriptionRequests, List.append_nil], nofun⟩

theorem sendInscriptionTx_db (inscriber : Inscriber Address) (db : SenderDb Address)
    (request : InscriptionRequestRow Address) (inscriptionConfig : InscriptionConfig)
    (answers : SendAnswers) :
    (sendInscriptionTx B inscriber db request inscriptionConfig answers).db = db ∨
      ∃ commitTxId revealTxId sentAtBlock,
        (sendInscriptionTx B inscriber db request inscriptionConfig answers).db
          = insertInscriptionRequestHistory db commitTxId revealTxId request.id sentAtBlock
            answers.createdAt := by
  unfold sendInscriptionTx
  split
  · exact .inl rfl
  · rename_i sentAtBlock _
    split
    · exact .inl rfl
    · split
      · rename_i info _
        split
        · exact .inr ⟨_, _, sentAtBlock, rfl⟩
        · rename_i applied _
          cases applied with
          | true => exact .inr ⟨_, _, sentAtBlock, rfl⟩
          | false => exact .inl rfl
      · exact .inl rfl

theorem SenderNode.check_cases (node : SenderNode Address)
    (request : InscriptionRequestRow Address) (rest : List (InscriptionRequestRow Address))
    (confirm : Verdict) :
    ((node.check config request rest confirm).db = node.db
      ∧ (node.check config request rest confirm).phase.requests.Sublist (request :: rest)) ∨
    ∃ last, getLastInscriptionRequestHistory node.db request.id = some last
      ∧ (node.check config request rest confirm).db = confirmInscription node.db request.id last.id
      ∧ (node.check config request rest confirm).phase.requests.Sublist rest := by
  unfold SenderNode.check
  cases hlast : getLastInscriptionRequestHistory node.db request.id with
  | none => exact .inl ⟨rfl, List.sublist_cons_self _ _⟩
  | some last =>
    simp only
    split
    · cases confirm with
      | done => exact .inr ⟨last, rfl, rfl, List.Sublist.refl _⟩
      | failed applied =>
        cases applied with
        | true => exact .inr ⟨last, rfl, rfl, List.nil_sublist _⟩
        | false => exact .inl ⟨rfl, List.nil_sublist _⟩
    · exact .inl ⟨rfl, List.Sublist.refl _⟩

end Specs
