/-
The tables behind the Bitcoin sender.

Batches are sealed, hashed, committed to and dispatched to data availability by components that run
on their own; the aggregator creates inscription requests for them, and the manager sends and
confirms those.  Columns that no modelled statement reads are left out.

Numbers of requests and history rows come from sequences, which do not go back when a transaction is
rolled back.

* `mem_readyForCommitRows`, `mem_readyForCommitProofRows` — when a batch is ready.
-/
import ViaCore.Inscription
import ViaCore.Query
import ViaCore.Tables

structure L1BatchRow where
  number : ℕ
  timestamp : ℕ
  hash : Option H256
  protocolVersion : ℕ
  commitment : Option H256
  deriving DecidableEq

structure CommitmentRow where
  l1BatchNumber : ℕ
  eventsQueueCommitment : Option H256
  bootloaderInitialContentCommitment : Option H256
  deriving DecidableEq

structure ProtocolVersionRow where
  id : ℕ
  bootloaderCodeHash : H256
  defaultAccountCodeHash : H256
  upgradeTxHash : Option H256
  deriving DecidableEq

structure DataAvailabilityRow where
  l1BatchNumber : ℕ
  isProof : Bool
  blobId : Utf8
  inclusionData : Option Bytes
  deriving DecidableEq

structure BatchInscriptionRow where
  l1BatchNumber : ℕ
  commitL1BatchInscriptionId : ℕ
  commitProofInscriptionId : Option ℕ
  deriving DecidableEq

inductive ViaBtcInscriptionRequestType where
  | commitL1BatchOnchain
  | commitProofOnchain
  deriving DecidableEq

/-- `via_btc_inscriptions_request`; the message is kept as a message, not as bytes. -/
structure InscriptionRequestRow (Address : Type) where
  id : ℕ
  requestType : ViaBtcInscriptionRequestType
  inscriptionMessage : InscriptionMessage Address
  predictedFee : ℕ
  confirmedInscriptionsRequestHistoryId : Option ℕ

structure InscriptionHistoryRow where
  id : ℕ
  commitTxId : Txid
  revealTxId : Txid
  inscriptionRequestId : ℕ
  sentAtBlock : ℕ
  createdAt : ℕ
  deriving DecidableEq

structure SenderDb (Address : Type) where
  l1Batches : List L1BatchRow
  commitments : List CommitmentRow
  protocolVersions : List ProtocolVersionRow
  dataAvailability : List DataAvailabilityRow
  batchInscriptions : List BatchInscriptionRow
  inscriptionRequests : List (InscriptionRequestRow Address)
  requestSequence : ℕ
  history : List InscriptionHistoryRow
  historySequence : ℕ

def SenderDb.empty (Address : Type) : SenderDb Address := ⟨[], [], [], [], [], [], 0, [], 0⟩

section Statements

variable {Address : Type} (db : SenderDb Address)

/-- `insert_l1_batch`: the batch is sealed; its hash and commitment come later. -/
def insertL1Batch (number timestamp protocolVersion : ℕ) : SenderDb Address :=
  { db with
    l1Batches := insertIfAbsent L1BatchRow.number db.l1Batches
      { number, timestamp, hash := none, protocolVersion, commitment := none } }

/-- `save_l1_batch_tree_data`: a hash that is there stays. -/
def saveL1BatchTreeData (number : ℕ) (hash : H256) : SenderDb Address :=
  { db with
    l1Batches := db.l1Batches.map fun row =>
      if row.number = number ∧ row.hash = none then { row with hash := some hash } else row }

/-- `save_l1_batch_commitment_artifacts`: nothing changes if another commitment is there. -/
def saveL1BatchCommitmentArtifacts (number : ℕ) (commitment : H256)
    (auxCommitments : Option (H256 × H256)) : SenderDb Address :=
  let l1Batches := db.l1Batches.map fun row =>
    if row.number = number ∧ row.commitment = none then
      { row with commitment := some commitment }
    else row
  if l1Batches.any fun row => row.number = number ∧ row.commitment = some commitment then
    { db with
      l1Batches
      commitments := insertIfAbsent CommitmentRow.l1BatchNumber db.commitments
        { l1BatchNumber := number
          eventsQueueCommitment := auxCommitments.map Prod.fst
          bootloaderInitialContentCommitment := auxCommitments.map Prod.snd } }
  else db

def insertProtocolVersion (row : ProtocolVersionRow) : SenderDb Address :=
  { db with protocolVersions := insertIfAbsent ProtocolVersionRow.id db.protocolVersions row }

/-- The primary key of `via_data_availability`. -/
def DataAvailabilityRow.key (row : DataAvailabilityRow) : ℕ × Bool :=
  (row.l1BatchNumber, row.isProof)

/-- `insert_l1_batch_da` and `insert_proof_da`. -/
def insertDa (number : ℕ) (isProof : Bool) (blobId : Utf8) : SenderDb Address :=
  { db with
    dataAvailability := insertIfAbsent DataAvailabilityRow.key db.dataAvailability
      { l1BatchNumber := number, isProof, blobId, inclusionData := none } }

/-- `save_l1_batch_inclusion_data` and `save_proof_inclusion_data`: data that is there stays. -/
def saveInclusionData (number : ℕ) (isProof : Bool) (inclusionData : Bytes) : SenderDb Address :=
  { db with
    dataAvailability := db.dataAvailability.map fun row =>
      if row.key = (number, isProof) ∧ row.inclusionData = none then
        { row with inclusionData := some inclusionData }
      else row }

/-- `via_save_btc_inscriptions_request`; the id of the new row comes from the sequence. -/
def viaSaveBtcInscriptionsRequest (requestType : ViaBtcInscriptionRequestType)
    (inscriptionMessage : InscriptionMessage Address) (predictedFee : ℕ) : SenderDb Address × ℕ :=
  let id := db.requestSequence + 1
  ({ db with
      inscriptionRequests := db.inscriptionRequests ++
        [{ id, requestType, inscriptionMessage, predictedFee
           confirmedInscriptionsRequestHistoryId := none }]
      requestSequence := id }, id)

/-- `insert_l1_batch_inscription_request_id`; `none` is the error when no row is affected. -/
def insertL1BatchInscriptionRequestId (number requestId : ℕ) :
    ViaBtcInscriptionRequestType → Option (SenderDb Address)
  | .commitL1BatchOnchain =>
    if db.batchInscriptions.any fun row =>
        row.l1BatchNumber = number ∨ row.commitL1BatchInscriptionId = requestId then none
    else some { db with
      batchInscriptions := db.batchInscriptions ++
        [{ l1BatchNumber := number
           commitL1BatchInscriptionId := requestId
           commitProofInscriptionId := none }] }
  | .commitProofOnchain =>
    if db.batchInscriptions.any fun row =>
        row.l1BatchNumber = number ∧ row.commitProofInscriptionId = none then
      some { db with
        batchInscriptions := db.batchInscriptions.map fun row =>
          if row.l1BatchNumber = number ∧ row.commitProofInscriptionId = none then
            { row with commitProofInscriptionId := some requestId }
          else row }
    else none

/-- `insert_inscription_request_history`; the request must exist. -/
def insertInscriptionRequestHistory (commitTxId revealTxId : Txid)
    (inscriptionRequestId sentAtBlock createdAt : ℕ) : SenderDb Address :=
  if db.inscriptionRequests.any fun row => row.id = inscriptionRequestId then
    { db with
      history := db.history ++
        [{ id := db.historySequence + 1, commitTxId, revealTxId, inscriptionRequestId
           sentAtBlock, createdAt }]
      historySequence := db.historySequence + 1 }
  else db

/-- `confirm_inscription`; the history row must exist. -/
def confirmInscription (requestId historyId : ℕ) : SenderDb Address :=
  if db.history.any fun row => row.id = historyId then
    { db with
      inscriptionRequests := db.inscriptionRequests.map fun row =>
        if row.id = requestId then
          { row with confirmedInscriptionsRequestHistoryId := some historyId }
        else row }
  else db

end Statements

/-! ### The queries of the aggregator -/

structure ViaBtcL1BlockDetails where
  number : ℕ
  timestamp : ℕ
  hash : Option H256
  commitTxId : Txid
  revealTxId : Txid
  blobId : Utf8
  deriving DecidableEq

/-- The row of a query; a transaction id is `none` where the query selects an empty text. -/
structure ViaBtcStorageL1BlockDetails where
  number : ℕ
  timestamp : ℕ
  hash : Option H256
  commitTxId : Option Txid
  revealTxId : Option Txid
  blobId : Option Utf8

/-- Both ids are read from the commit id. -/
def ViaBtcStorageL1BlockDetails.toDetails (details : ViaBtcStorageL1BlockDetails) :
    ViaBtcL1BlockDetails :=
  { number := details.number
    timestamp := details.timestamp
    hash := details.hash
    commitTxId := details.commitTxId.getD (.replicate 32 0)
    revealTxId := details.commitTxId.getD (.replicate 32 0)
    blobId := details.blobId.getD ⟨[], .refl true⟩ }

section Queries

variable {Address : Type} (db : SenderDb Address)

abbrev CommitJoin :=
  (((L1BatchRow × Option BatchInscriptionRow) × Option CommitmentRow) × Option DataAvailabilityRow)
    × ProtocolVersionRow

def readyForCommitRows (bootloaderHash defaultAaHash : H256) (protocolVersionId : ℕ) :
    List CommitJoin :=
  let batches := leftJoin (fun batch ins => ins.l1BatchNumber = batch.number)
    db.l1Batches db.batchInscriptions
  let batches := leftJoin (fun r c => c.l1BatchNumber = r.1.number) batches db.commitments
  let batches := leftJoin (fun r da => da.l1BatchNumber = r.1.1.number) batches db.dataAvailability
  let batches := innerJoin (fun r version => version.id = r.1.1.1.protocolVersion)
    batches db.protocolVersions
  batches.filter fun ⟨⟨⟨⟨batch, ins⟩, c⟩, da⟩, version⟩ =>
    ins = none
      ∧ batch.number ≠ 0
      ∧ version.bootloaderCodeHash = bootloaderHash
      ∧ version.defaultAccountCodeHash = defaultAaHash
      ∧ da.map DataAvailabilityRow.isProof = some false
      ∧ batch.commitment ≠ none
      ∧ (version.id = protocolVersionId ∨ version.upgradeTxHash = none)
      ∧ c.bind CommitmentRow.eventsQueueCommitment ≠ none
      ∧ c.bind CommitmentRow.bootloaderInitialContentCommitment ≠ none
      ∧ da.bind DataAvailabilityRow.inclusionData ≠ none

def CommitJoin.number (r : CommitJoin) : ℕ := r.1.1.1.1.number

def CommitJoin.details (r : CommitJoin) : ViaBtcL1BlockDetails :=
  ViaBtcStorageL1BlockDetails.toDetails
    { number := r.number
      timestamp := r.1.1.1.1.timestamp
      hash := r.1.1.1.1.hash
      commitTxId := none
      revealTxId := none
      blobId := r.1.2.map DataAvailabilityRow.blobId }

def getReadyForCommitL1Batches (limit : ℕ) (bootloaderHash defaultAaHash : H256)
    (protocolVersionId : ℕ) : List ViaBtcL1BlockDetails :=
  (lowest CommitJoin.number limit
    (readyForCommitRows db bootloaderHash defaultAaHash protocolVersionId)).map CommitJoin.details

def latestHistory (requestId : ℕ) : Option InscriptionHistoryRow :=
  (db.history.filter fun row => row.inscriptionRequestId = requestId).argmax
    InscriptionHistoryRow.createdAt

abbrev ProofJoin (Address : Type) :=
  ((L1BatchRow × Option BatchInscriptionRow) × Option DataAvailabilityRow)
    × Option (InscriptionRequestRow Address)

def readyForCommitProofRows : List (ProofJoin Address) :=
  let batches := leftJoin (fun batch ins => ins.l1BatchNumber = batch.number)
    db.l1Batches db.batchInscriptions
  let batches := leftJoin (fun r da => da.l1BatchNumber = r.1.number) batches db.dataAvailability
  let batches := leftJoin
    (fun r request => r.1.2.map BatchInscriptionRow.commitL1BatchInscriptionId = some request.id)
    batches db.inscriptionRequests
  batches.filter fun ⟨⟨⟨_, ins⟩, da⟩, request⟩ =>
    ins ≠ none
      ∧ ins.bind BatchInscriptionRow.commitProofInscriptionId = none
      ∧ request.bind InscriptionRequestRow.confirmedInscriptionsRequestHistoryId ≠ none
      ∧ da.map DataAvailabilityRow.isProof = some true

def ProofJoin.number (r : ProofJoin Address) : ℕ := r.1.1.1.number

def ProofJoin.details (r : ProofJoin Address) : ViaBtcL1BlockDetails :=
  let lh := r.2.bind fun request => latestHistory db request.id
  ViaBtcStorageL1BlockDetails.toDetails
    { number := ProofJoin.number r
      timestamp := r.1.1.1.timestamp
      hash := r.1.1.1.hash
      commitTxId := lh.map InscriptionHistoryRow.commitTxId
      revealTxId := lh.map InscriptionHistoryRow.revealTxId
      blobId := r.1.2.map DataAvailabilityRow.blobId }

def getReadyForCommitProofL1Batches (limit : ℕ) : List ViaBtcL1BlockDetails :=
  (lowest ProofJoin.number limit (readyForCommitProofRows db)).map (ProofJoin.details db)

end Queries

section Ready

variable {Address : Type} (db : SenderDb Address)

/-- The batch has no commit request yet, its commitments are there, its blob is included, and its
protocol version is known with the right hashes. -/
def ReadyForCommit (bootloaderHash defaultAaHash : H256) (protocolVersionId number : ℕ) : Prop :=
  number ≠ 0
    ∧ (∀ ins ∈ db.batchInscriptions, ins.l1BatchNumber ≠ number)
    ∧ (∃ batch ∈ db.l1Batches, batch.number = number ∧ batch.commitment ≠ none
      ∧ ∃ version ∈ db.protocolVersions, version.id = batch.protocolVersion
        ∧ version.bootloaderCodeHash = bootloaderHash
        ∧ version.defaultAccountCodeHash = defaultAaHash
        ∧ (version.id = protocolVersionId ∨ version.upgradeTxHash = none))
    ∧ (∃ c ∈ db.commitments, c.l1BatchNumber = number
      ∧ c.eventsQueueCommitment ≠ none ∧ c.bootloaderInitialContentCommitment ≠ none)
    ∧ ∃ da ∈ db.dataAvailability, da.key = (number, false) ∧ da.inclusionData ≠ none
deriving Decidable

/-- The commit request of the batch is confirmed, its proof is dispatched, and there is no proof
request yet. -/
def ReadyForCommitProof (number : ℕ) : Prop :=
  (∃ batch ∈ db.l1Batches, batch.number = number)
    ∧ (∃ ins ∈ db.batchInscriptions, ins.l1BatchNumber = number
      ∧ ins.commitProofInscriptionId = none
      ∧ ∃ request ∈ db.inscriptionRequests, request.id = ins.commitL1BatchInscriptionId
        ∧ request.confirmedInscriptionsRequestHistoryId ≠ none)
    ∧ ∃ da ∈ db.dataAvailability, da.key = (number, true)
deriving Decidable

variable {db} {bootloaderHash defaultAaHash : H256} {protocolVersionId number : ℕ}

theorem mem_readyForCommitRows :
    (∃ r ∈ readyForCommitRows db bootloaderHash defaultAaHash protocolVersionId, r.number = number)
      ↔ ReadyForCommit db bootloaderHash defaultAaHash protocolVersionId number := by
  constructor
  · rintro ⟨⟨⟨⟨⟨batch, ins⟩, c⟩, da⟩, version⟩, hr, rfl⟩
    obtain ⟨hjoin, hwhere⟩ := List.mem_filter.1 hr
    obtain ⟨hins, hzero, hboot, haa, hproof, hcommitment, hversion, hevents, hcontent, hincluded⟩ :=
      of_decide_eq_true hwhere
    obtain ⟨hjoin, hv, hvid⟩ := mem_innerJoin.1 hjoin
    subst hins
    -- the `WHERE` clause rules out rows that were filled up with nulls
    cases c with
    | none => exact absurd rfl hevents
    | some c =>
      cases da with
      | none => exact absurd rfl hincluded
      | some da =>
        obtain ⟨hjoin, hda, hdanumber⟩ := mem_leftJoin_some.1 hjoin
        obtain ⟨hjoin, hc, hcnumber⟩ := mem_leftJoin_some.1 hjoin
        obtain ⟨hbatch, hnone⟩ := mem_leftJoin_none.1 hjoin
        refine ⟨hzero, ?_, ⟨batch, hbatch, rfl, hcommitment, version, hv, of_decide_eq_true hvid,
          hboot, haa, hversion⟩, ⟨c, hc, of_decide_eq_true hcnumber, hevents, hcontent⟩,
          da, hda, ?_, hincluded⟩
        · intro ins hins
          exact of_decide_eq_false (hnone ins hins)
        · exact Prod.ext (of_decide_eq_true hdanumber) (Option.some.inj hproof)
  · rintro ⟨hzero, hnone, ⟨batch, hbatch, rfl, hcommitment, version, hv, hvid, hboot,
      haa, hversion⟩, ⟨c, hc, hcnumber, hevents, hcontent⟩, da, hda, hkey, hincluded⟩
    obtain ⟨hdanumber, hproof⟩ := Prod.mk.inj hkey
    refine ⟨((((batch, none), some c), some da), version), List.mem_filter.2 ⟨?_, ?_⟩, rfl⟩
    · refine mem_innerJoin.2 ⟨mem_leftJoin_some.2 ⟨mem_leftJoin_some.2 ⟨mem_leftJoin_none.2
        ⟨hbatch, ?_⟩, hc, decide_eq_true hcnumber⟩, hda, decide_eq_true hdanumber⟩, hv,
        decide_eq_true hvid⟩
      intro ins hins
      exact decide_eq_false (hnone ins hins)
    · exact decide_eq_true ⟨rfl, hzero, hboot, haa, congrArg some hproof, hcommitment, hversion,
        hevents, hcontent, hincluded⟩

theorem of_mem_readyForCommitProofRows {r : ProofJoin Address}
    (h : r ∈ readyForCommitProofRows db) :
    ∃ batch ins da request, r = (((batch, some ins), some da), some request)
      ∧ batch ∈ db.l1Batches
      ∧ (ins ∈ db.batchInscriptions ∧ ins.l1BatchNumber = batch.number
        ∧ ins.commitProofInscriptionId = none)
      ∧ (da ∈ db.dataAvailability ∧ da.key = (batch.number, true))
      ∧ request ∈ db.inscriptionRequests ∧ request.id = ins.commitL1BatchInscriptionId
      ∧ request.confirmedInscriptionsRequestHistoryId ≠ none := by
  obtain ⟨⟨⟨batch, ins⟩, da⟩, request⟩ := r
  obtain ⟨hjoin, hwhere⟩ := List.mem_filter.1 h
  obtain ⟨hins, hnoproof, hconfirmed, hproof⟩ := of_decide_eq_true hwhere
  -- the conditions hold of no row with a side missing
  cases ins with
  | none => exact absurd rfl hins
  | some ins =>
    cases da with
    | none => cases hproof
    | some da =>
      cases request with
      | none => exact absurd rfl hconfirmed
      | some request =>
        obtain ⟨hjoin, hrequest, hid⟩ := mem_leftJoin_some.1 hjoin
        obtain ⟨hjoin, hda, hdanumber⟩ := mem_leftJoin_some.1 hjoin
        obtain ⟨hbatch, hmem, hnumber⟩ := mem_leftJoin_some.1 hjoin
        exact ⟨batch, ins, da, request, rfl, hbatch, ⟨hmem, of_decide_eq_true hnumber, hnoproof⟩,
          ⟨hda, Prod.ext (of_decide_eq_true hdanumber) (Option.some.inj hproof)⟩, hrequest,
          (Option.some.inj (of_decide_eq_true hid)).symm, hconfirmed⟩

theorem mem_readyForCommitProofRows :
    (∃ r ∈ readyForCommitProofRows db, ProofJoin.number r = number)
      ↔ ReadyForCommitProof db number := by
  constructor
  · rintro ⟨r, hr, rfl⟩
    obtain ⟨batch, ins, da, request, rfl, hbatch, ⟨hins, hnumber, hnoproof⟩, hda, hrequest, hid,
      hconfirmed⟩ := of_mem_readyForCommitProofRows hr
    exact ⟨⟨batch, hbatch, rfl⟩, ⟨ins, hins, hnumber, hnoproof, request, hrequest, hid, hconfirmed⟩,
      da, hda⟩
  · rintro ⟨⟨batch, hbatch, rfl⟩, ⟨ins, hins, hnumber, hnoproof, request, hrequest, hid,
      hconfirmed⟩, da, hda, hkey⟩
    obtain ⟨hdanumber, hproof⟩ := Prod.mk.inj hkey
    refine ⟨(((batch, some ins), some da), some request), List.mem_filter.2 ⟨?_, ?_⟩, rfl⟩
    · exact mem_leftJoin_some.2 ⟨mem_leftJoin_some.2 ⟨mem_leftJoin_some.2 ⟨hbatch, hins,
        decide_eq_true hnumber⟩, hda, decide_eq_true hdanumber⟩, hrequest,
        decide_eq_true (congrArg some hid.symm)⟩
    · exact decide_eq_true ⟨by simp, hnoproof, hconfirmed, congrArg some hproof⟩

end Ready
