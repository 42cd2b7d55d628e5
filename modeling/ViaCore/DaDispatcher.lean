/-
The data availability dispatcher.

Three tasks run at the same time: one hands the public data of new batches to the data availability
layer and records the blob, one does the same for proofs, and one asks for inclusion data and saves
it.  None of them holds a lock between its queries and its statements, the calls to the layer in
between take their time, and everything can fail.

The state (`DaNode`) has the tables, the point that each task has reached, and the statements whose
answer was lost and which the server may still carry out.

* `dataAvailability_writeOnce` — rows are written once, in all runs.
-/
import ViaCore.CommitOrder

/-- `via_data_availability`, with the time of the dispatch. -/
structure DaRow extends DataAvailabilityRow where
  sentAt : ℕ
  deriving DecidableEq

inductive ProofGenerationJobStatus where
  | unpicked
  | pickedByProver
  | generated
  | skipped
  deriving DecidableEq

structure ProofGenerationRow where
  l1BatchNumber : ℕ
  status : ProofGenerationJobStatus
  proofBlobUrl : Option Utf8
  deriving DecidableEq

/-- The tables of the sender, with those that only the dispatcher reads: `pubdataInput` is a column
of `l1_batches`, and the sender sees a part of the rows (`DaDb.view`). -/
structure DaDb (Address : Type) where
  sender : SenderDb Address
  dataAvailability : List DaRow
  pubdataInput : List (ℕ × Bytes)
  proofGenerationDetails : List ProofGenerationRow

section Statements

variable {Address : Type} (db : DaDb Address)

def DaDb.view : SenderDb Address :=
  { db.sender with dataAvailability := db.dataAvailability.map DaRow.toDataAvailabilityRow }

def DaRow.key (row : DaRow) : ℕ × Bool := row.toDataAvailabilityRow.key

/-- The statements that write to the table: `insert_l1_batch_da` and `insert_proof_da`, and
`save_l1_batch_inclusion_data` and `save_proof_inclusion_data`. -/
inductive DaStatement where
  | insert (number : ℕ) (isProof : Bool) (blobId : Utf8) (sentAt : ℕ)
  | saveInclusionData (number : ℕ) (isProof : Bool) (inclusionData : Bytes)

/-- The tables after the statement, and whether a row was affected; `none` is the error for a batch
that does not exist. -/
def DaDb.execute : DaStatement → Option (DaDb Address × Bool)
  | .insert number isProof blobId sentAt =>
    if db.sender.l1Batches.any fun batch => batch.number = number then
      some ({ db with
        dataAvailability := insertIfAbsent DaRow.key db.dataAvailability
          { l1BatchNumber := number, isProof, blobId, inclusionData := none, sentAt } },
        !db.dataAvailability.any fun row => row.key = (number, isProof))
    else none
  | .saveInclusionData number isProof inclusionData =>
    some ({ db with
      dataAvailability := db.dataAvailability.map fun row =>
        if row.key = (number, isProof) ∧ row.inclusionData = none then
          { row with inclusionData := some inclusionData }
        else row },
      db.dataAvailability.any fun row =>
        row.key = (number, isProof) ∧ row.inclusionData = none)

structure L1BatchDA where
  pubdata : Bytes
  l1BatchNumber : ℕ

structure ProofDA where
  proofBlobUrl : Utf8
  l1BatchNumber : ℕ

/-- The condition on `is_proof` is part of the second join. -/
def getReadyForDaDispatchL1Batches (limit : ℕ) : List L1BatchDA :=
  let batches := leftJoin (fun batch da => da.l1BatchNumber = batch.number)
    db.sender.l1Batches db.dataAvailability
  let batches := leftJoin
    (fun r ins => ins.l1BatchNumber = r.1.number
      ∧ r.2.map (fun da => da.isProof) = some false)
    batches db.sender.batchInscriptions
  let batches := batches.filter fun r =>
    r.2 = none ∧ r.1.1.number ≠ 0 ∧ r.1.2 = none
      ∧ (db.pubdataInput.lookup r.1.1.number).isSome
  (lowest (fun r => r.1.1.number) limit batches).map fun r =>
    { pubdata := (db.pubdataInput.lookup r.1.1.number).getD [], l1BatchNumber := r.1.1.number }

def DaDb.HasRow (number : ℕ) (isProof : Bool) : Prop :=
  ∃ row ∈ db.dataAvailability, row.key = (number, isProof)
deriving Decidable

def getReadyForDaDispatchProofs (limit : ℕ) : List ProofDA :=
  let proofs := db.proofGenerationDetails.filterMap fun row =>
    row.proofBlobUrl.bind fun proofBlobUrl =>
      if row.status = .generated ∧ db.HasRow row.l1BatchNumber false
          ∧ ¬ db.HasRow row.l1BatchNumber true then
        some { proofBlobUrl, l1BatchNumber := row.l1BatchNumber }
      else none
  lowest ProofDA.l1BatchNumber limit proofs

def readyForDummyProofDispatch : List ℕ :=
  let batches := innerJoin (fun da batch => da.l1BatchNumber = batch.number)
    db.dataAvailability db.sender.l1Batches
  let batches := batches.filter fun r =>
    r.1.isProof = false ∧ r.2.commitment ≠ none ∧ ¬ db.HasRow r.1.l1BatchNumber true
  batches.map fun r => r.1.l1BatchNumber

/-- The query has no order, so any rows can be those within the limit. -/
def GetsReadyForDummyProofDispatch (limit : ℕ) (picked : List ℕ) : Prop :=
  picked.Nodup ∧ (∀ number ∈ picked, number ∈ readyForDummyProofDispatch db)
    ∧ picked.length = min limit (readyForDummyProofDispatch db).length
deriving Decidable

/-- `get_first_da_blob_awaiting_inclusion` and `get_first_proof_blob_awaiting_inclusion`. -/
def getFirstAwaitingInclusion (isProof : Bool) : Option DaRow :=
  (lowest (fun row => row.l1BatchNumber) 1 (db.dataAvailability.filter fun row =>
    row.inclusionData = none ∧ row.isProof = isProof)).head?

def selectRow (number : ℕ) (isProof : Bool) : Option DaRow :=
  db.dataAvailability.find? fun row => row.key = (number, isProof)

end Statements

/-! ### Tasks -/

structure DADispatcherConfig where
  maxRowsToDispatch : ℕ
  useDummyInclusionData : Bool
  dispatchRealProof : Bool

/-- `dispatch`: before its query, in front of a batch, with a blob to record, and with a blob to
compare with the one that is recorded. -/
inductive BlobTask where
  | done
  | fetching
  | dispatching (rest : List L1BatchDA)
  | inserting (number : ℕ) (blobId : Utf8) (sentAt : ℕ) (rest : List L1BatchDA)
  | checking (number : ℕ) (blobId : Utf8) (rest : List L1BatchDA)

inductive ProofTask where
  | done
  | fetching
  | dispatching (rest : List ℕ)
  | inserting (number : ℕ) (blobId : Utf8) (sentAt : ℕ) (rest : List ℕ)

/-- `poll_for_inclusion`, first for a batch and then for a proof. -/
inductive PollTask where
  | done
  | fetching (isProof : Bool)
  | asking (isProof : Bool) (blob : DaRow)
  | saving (isProof : Bool) (number : ℕ) (inclusionData : Bytes)
  | checking (isProof : Bool) (number : ℕ) (inclusionData : Bytes)

def PollTask.next : Bool → PollTask
  | false => .fetching true
  | true => .done

/-- `late` are the statements whose answer was lost and which may still be carried out. -/
structure DaNode (Address : Type) where
  db : DaDb Address
  config : DADispatcherConfig
  blob : BlobTask
  proof : ProofTask
  poll : PollTask
  late : List DaStatement

def SenderEvent.isDispatchers : SenderEvent → Bool
  | .insertDa .. => true
  | .saveInclusionData .. => true
  | _ => false

/-- Statements of other components, a new iteration of the three tasks, a step of one of them, its
end, a late statement, and a restart. -/
inductive DaEvent where
  | other (e : SenderEvent)
  | savePubdata (number : ℕ) (pubdata : Bytes)
  | saveProofGeneration (rows : List ProofGenerationRow)
  | start
  | fetchBatches
  | dispatchBlob (blobId : Utf8) (sentAt : ℕ)
  | insertBlob (verdict : Verdict)
  | checkBlob
  | endBlob
  | fetchRealProofs
  | fetchDummyProofs (picked : List ℕ)
  | skipProof
  | dispatchProof (blobId : Utf8) (sentAt : ℕ)
  | insertProof (verdict : Verdict)
  | endProof
  | fetchAwaiting
  | answerInclusion (inclusionData : Option Bytes)
  | saveInclusion (verdict : Verdict)
  | checkInclusion
  | endPoll
  | late (i : ℕ)
  | restart (config : DADispatcherConfig)

section Node

variable {Address : Type} (node : DaNode Address)

/-- A statement of a task: whether a row was affected, unless the task fails here. -/
def DaNode.execute (statement : DaStatement) (verdict : Verdict) : DaNode Address × Option Bool :=
  match node.db.execute statement, verdict with
  | none, _ => (node, none)
  | some (db, affected), .done => ({ node with db }, some affected)
  | some (db, _), .failed true => ({ node with db }, none)
  | some _, .failed false => ({ node with late := statement :: node.late }, none)

/-- The blob is recorded, or another row is there to compare with. -/
def DaNode.insertBlob (number : ℕ) (blobId : Utf8) (sentAt : ℕ) (rest : List L1BatchDA)
    (verdict : Verdict) : DaNode Address :=
  match node.execute (.insert number false blobId sentAt) verdict with
  | (node, none) => { node with blob := .done }
  | (node, some true) => { node with blob := .dispatching rest }
  | (node, some false) => { node with blob := .checking number blobId rest }

/-- A proof that is there is not compared. -/
def DaNode.insertProof (number : ℕ) (blobId : Utf8) (sentAt : ℕ) (rest : List ℕ)
    (verdict : Verdict) : DaNode Address :=
  match node.execute (.insert number true blobId sentAt) verdict with
  | (node, none) => { node with proof := .done }
  | (node, some _) => { node with proof := .dispatching rest }

def DaNode.saveInclusion (isProof : Bool) (number : ℕ) (inclusionData : Bytes)
    (verdict : Verdict) : DaNode Address :=
  match node.execute (.saveInclusionData number isProof inclusionData) verdict with
  | (node, none) => { node with poll := .done }
  | (node, some true) => { node with poll := .next isProof }
  | (node, some false) => { node with poll := .checking isProof number inclusionData }

def DaNode.step : DaEvent → Option (DaNode Address)
  | .other e =>
    if e.isDispatchers then none
    else some { node with db := { node.db with sender := node.db.view.step e } }
  | .savePubdata number pubdata =>
    some { node with
      db := { node.db with pubdataInput := node.db.pubdataInput ++ [(number, pubdata)] } }
  | .saveProofGeneration rows =>
    some { node with db := { node.db with proofGenerationDetails := rows } }
  | .start =>
    match node.blob, node.proof, node.poll with
    | .done, .done, .done =>
      some { node with blob := .fetching, proof := .fetching, poll := .fetching false }
    | _, _, _ => none
  -- `dispatch`
  | .fetchBatches =>
    match node.blob with
    | .fetching =>
      some { node with
        blob := .dispatching
          (getReadyForDaDispatchL1Batches node.db node.config.maxRowsToDispatch) }
    | _ => none
  | .dispatchBlob blobId sentAt =>
    match node.blob with
    | .dispatching (batch :: rest) =>
      some { node with blob := .inserting batch.l1BatchNumber blobId sentAt rest }
    | _ => none
  | .insertBlob verdict =>
    match node.blob with
    | .inserting number blobId sentAt rest =>
      some (node.insertBlob number blobId sentAt rest verdict)
    | _ => none
  | .checkBlob =>
    match node.blob with
    | .checking number blobId rest =>
      if (selectRow node.db number false).map (fun row => row.blobId) = some blobId then
        some { node with blob := .dispatching rest }
      else some { node with blob := .done }
    | _ => none
  | .endBlob => some { node with blob := .done }
  -- `dispatch_proofs`
  | .fetchRealProofs =>
    match node.proof, node.config.dispatchRealProof with
    | .fetching, true =>
      some { node with
        proof := .dispatching ((getReadyForDaDispatchProofs node.db
          node.config.maxRowsToDispatch).map ProofDA.l1BatchNumber) }
    | _, _ => none
  | .fetchDummyProofs picked =>
    match node.proof, node.config.dispatchRealProof with
    | .fetching, false =>
      if GetsReadyForDummyProofDispatch node.db node.config.maxRowsToDispatch picked then
        some { node with proof := .dispatching picked }
      else none
    | _, _ => none
  | .skipProof =>
    match node.proof, node.config.dispatchRealProof with
    | .dispatching (_ :: rest), true => some { node with proof := .dispatching rest }
    | _, _ => none
  | .dispatchProof blobId sentAt =>
    match node.proof with
    | .dispatching (number :: rest) =>
      some { node with proof := .inserting number blobId sentAt rest }
    | _ => none
  | .insertProof verdict =>
    match node.proof with
    | .inserting number blobId sentAt rest =>
      some (node.insertProof number blobId sentAt rest verdict)
    | _ => none
  | .endProof => some { node with proof := .done }
  -- `poll_for_inclusion`
  | .fetchAwaiting =>
    match node.poll with
    | .fetching isProof =>
      match getFirstAwaitingInclusion node.db isProof with
      | none => some { node with poll := .next isProof }
      | some blob => some { node with poll := .asking isProof blob }
    | _ => none
  | .answerInclusion inclusionData =>
    match node.poll with
    | .asking isProof blob =>
      -- without dummy inclusion data the client is not asked
      match if node.config.useDummyInclusionData then inclusionData else some [] with
      | none => some { node with poll := .next isProof }
      | some data => some { node with poll := .saving isProof blob.l1BatchNumber data }
    | _ => none
  | .saveInclusion verdict =>
    match node.poll with
    | .saving isProof number inclusionData =>
      some (node.saveInclusion isProof number inclusionData verdict)
    | _ => none
  | .checkInclusion =>
    match node.poll with
    | .checking isProof number inclusionData =>
      match selectRow node.db number isProof with
      | some row =>
        if row.inclusionData.getD [] = inclusionData then
          some { node with poll := .next isProof }
        else some { node with poll := .done }
      | none => some { node with poll := .done }
    | _ => none
  | .endPoll => some { node with poll := .done }
  | .late i =>
    match node.late[i]? with
    | some statement =>
      some { node with
        db := ((node.db.execute statement).map Prod.fst).getD node.db
        late := node.late.eraseIdx i }
    | none => none
  | .restart config =>
    some { node with config, blob := .done, proof := .done, poll := .done }

def daStep (Address : Type) : StepRel (DaNode Address) DaEvent :=
  StepRel.ofPartial fun node e => DaNode.step node e

def DaNode.initial (Address : Type) (config : DADispatcherConfig) : DaNode Address :=
  ⟨⟨.empty Address, [], [], []⟩, config, .done, .done, .done, []⟩

end Node

section Specs

variable {Address : Type} {db db' : DaDb Address} {node node' : DaNode Address}

/-- Every row stays, with its blob and its time, and with its inclusion data once it has any. -/
def Persists (rows rows' : List DaRow) : Prop :=
  ∀ row ∈ rows, ∃ row' ∈ rows', row'.key = row.key ∧ row'.blobId = row.blobId
    ∧ row'.sentAt = row.sentAt
    ∧ (row.inclusionData ≠ none → row'.inclusionData = row.inclusionData)

theorem Persists.refl (rows : List DaRow) : Persists rows rows :=
  fun row hrow => ⟨row, hrow, rfl, rfl, rfl, fun _ => rfl⟩

theorem Persists.trans {rows rows' rows'' : List DaRow} (h : Persists rows rows')
    (h' : Persists rows' rows'') : Persists rows rows'' := by
  intro row hrow
  obtain ⟨row', hrow', hkey, hblob, hsent, hdata⟩ := h row hrow
  obtain ⟨row'', hrow'', hkey', hblob', hsent', hdata'⟩ := h' row' hrow'
  refine ⟨row'', hrow'', hkey'.trans hkey, hblob'.trans hblob, hsent'.trans hsent, fun hsome => ?_⟩
  have hsame := hdata hsome
  rw [← hsame]
  exact hdata' (hsame ▸ hsome)

variable {number : ℕ} {statement : DaStatement} {e : DaEvent}

theorem DaDb.HasRow.persists {isProof : Bool} (h : db.HasRow number isProof)
    (hrows : Persists db.dataAvailability db'.dataAvailability) : db'.HasRow number isProof := by
  obtain ⟨row, hrow, hkey⟩ := h
  obtain ⟨row', hrow', hkey', -⟩ := hrows row hrow
  exact ⟨row', hrow', hkey'.trans hkey⟩

def DaStatement.proofOf : DaStatement → Option ℕ
  | .insert number true _ _ => some number
  | _ => none

theorem DaDb.execute_persists {affected : Bool} (h : db.execute statement = some (db', affected)) :
    Persists db.dataAvailability db'.dataAvailability
      ∧ ((db.dataAvailability.map DaRow.key).Nodup →
        (db'.dataAvailability.map DaRow.key).Nodup) := by
  cases statement with
  | insert number isProof blobId sentAt =>
    simp only [DaDb.execute] at h
    split at h
    · cases h
      refine ⟨fun row hrow => ⟨row, ?_, rfl, rfl, rfl, fun _ => rfl⟩,
        fun hkeys => nodup_insertIfAbsent hkeys _⟩
      simp only [insertIfAbsent]
      split
      · exact hrow
      · exact List.mem_append_left _ hrow
    · cases h
  | saveInclusionData number isProof inclusionData =>
    cases h
    refine ⟨fun row hrow => ⟨_, List.mem_map_of_mem hrow, ?_⟩, nodup_map_update fun row => ?_⟩
    · split
      · rename_i hnone
        exact ⟨rfl, rfl, rfl, fun hsome => absurd hnone.2 hsome⟩
      · exact ⟨rfl, rfl, rfl, fun _ => rfl⟩
    · split <;> rfl

theorem DaDb.execute_proof {affected : Bool} (h : db.execute statement = some (db', affected))
    (hrow : db'.HasRow number true) : db.HasRow number true ∨ statement.proofOf = some number := by
  obtain ⟨row', hrow', hkey⟩ := hrow
  cases statement with
  | insert number' isProof blobId sentAt =>
    simp only [DaDb.execute] at h
    split at h
    · cases h
      simp only [insertIfAbsent] at hrow'
      split at hrow'
      · exact .inl ⟨row', hrow', hkey⟩
      · rcases List.mem_append.1 hrow' with hold | hnew
        · exact .inl ⟨row', hold, hkey⟩
        · rw [List.mem_singleton.1 hnew] at hkey
          obtain ⟨rfl, rfl⟩ := Prod.mk.inj hkey
          exact .inr rfl
    · cases h
  | saveInclusionData number' isProof inclusionData =>
    cases h
    obtain ⟨row, hrow, rfl⟩ := List.mem_map.1 hrow'
    refine .inl ⟨row, hrow, ?_⟩
    split at hkey <;> exact hkey

def ProofTask.batches : ProofTask → List ℕ
  | .dispatching rest => rest
  | .inserting number _ _ rest => number :: rest
  | _ => []

def DaNode.pending (node : DaNode Address) : List ℕ :=
  node.proof.batches ++ node.late.filterMap DaStatement.proofOf

variable (node node') in
/-- The table is left alone, or one statement is carried out, and a proof that it inserts was
pending.  New pending batches have their blob. -/
structure StepEffect : Prop where
  table : node'.db.dataAvailability = node.db.dataAvailability ∨
    ∃ statement affected, node.db.execute statement = some (node'.db, affected)
      ∧ ∀ number, statement.proofOf = some number → number ∈ node.pending
  pending : ∀ number ∈ node'.pending, number ∈ node.pending ∨ node.db.HasRow number false

/-- Steps that make no statement and do not add to what is pending. -/
theorem StepEffect.of_subset (hdb : node'.db.dataAvailability = node.db.dataAvailability)
    (hpending : node'.pending ⊆ node.pending) : StepEffect node node' :=
  ⟨.inl hdb, fun _ hnumber => .inl (hpending hnumber)⟩

/-- A task gives up what it had in hand, or keeps it. -/
theorem pending_subset {proof : ProofTask} (hproof : proof.batches ⊆ node.proof.batches) :
    { node with proof }.pending ⊆ node.pending := by
  intro number hnumber
  rcases List.mem_append.1 hnumber with hnumber | hnumber
  · exact List.mem_append_left _ (hproof hnumber)
  · exact List.mem_append_right _ hnumber

theorem DaNode.execute_effect
    (hstatement : ∀ number, statement.proofOf = some number → number ∈ node.pending)
    (verdict : Verdict) : StepEffect node (node.execute statement verdict).1 := by
  unfold DaNode.execute
  split
  · exact .of_subset rfl (.refl _)
  · rename_i hexecute
    exact ⟨.inr ⟨statement, _, hexecute, hstatement⟩, fun _ hnumber => .inl hnumber⟩
  · rename_i hexecute
    exact ⟨.inr ⟨statement, _, hexecute, hstatement⟩, fun _ hnumber => .inl hnumber⟩
  · refine ⟨.inl rfl, fun number hnumber => .inl ?_⟩
    rcases List.mem_append.1 hnumber with hnumber | hnumber
    · exact List.mem_append_left _ hnumber
    · obtain ⟨late, hlate, hproof⟩ := List.mem_filterMap.1 hnumber
      rcases List.mem_cons.1 hlate with rfl | hlate
      · exact hstatement number hproof
      · exact List.mem_append_right _ (List.mem_filterMap.2 ⟨late, hlate, hproof⟩)

theorem StepEffect.congr {node'' : DaNode Address} (h : StepEffect node node')
    (hdb : node''.db = node'.db) (hpending : node''.pending ⊆ node'.pending) :
    StepEffect node node'' := by
  refine ⟨?_, fun number hnumber => h.pending number (hpending hnumber)⟩
  rw [hdb]
  exact h.table

theorem DaNode.execute_tasks (node : DaNode Address) (statement : DaStatement) (verdict : Verdict) :
    (node.execute statement verdict).1.blob = node.blob ∧
      (node.execute statement verdict).1.proof = node.proof := by
  unfold DaNode.execute
  split <;> exact ⟨rfl, rfl⟩

section Answers

-- the answer to a statement concerns only the task that made it
variable (node) (number : ℕ) (blobId : Utf8) (sentAt : ℕ) (verdict : Verdict)

theorem DaNode.insertBlob_eq (rest : List L1BatchDA) :
    ∃ blob, (blob = .done ∨ blob = .dispatching rest ∨ blob = .checking number blobId rest) ∧
      node.insertBlob number blobId sentAt rest verdict =
        { (node.execute (.insert number false blobId sentAt) verdict).1 with blob } := by
  unfold DaNode.insertBlob
  rcases node.execute (.insert number false blobId sentAt) verdict with ⟨node₁, _ | _ | _⟩
  · exact ⟨_, .inl rfl, rfl⟩
  · exact ⟨_, .inr (.inr rfl), rfl⟩
  · exact ⟨_, .inr (.inl rfl), rfl⟩

theorem DaNode.insertProof_eq (rest : List ℕ) :
    ∃ proof, (proof = .done ∨ proof = .dispatching rest) ∧
      node.insertProof number blobId sentAt rest verdict =
        { (node.execute (.insert number true blobId sentAt) verdict).1 with proof } := by
  unfold DaNode.insertProof
  rcases node.execute (.insert number true blobId sentAt) verdict with ⟨node₁, _ | _⟩
  · exact ⟨_, .inl rfl, rfl⟩
  · exact ⟨_, .inr rfl, rfl⟩

theorem DaNode.saveInclusion_eq (isProof : Bool) (inclusionData : Bytes) :
    ∃ poll, (poll = .done ∨ poll = .next isProof ∨ poll = .checking isProof number inclusionData) ∧
      node.saveInclusion isProof number inclusionData verdict =
        { (node.execute (.saveInclusionData number isProof inclusionData)
          verdict).1 with poll } := by
  unfold DaNode.saveInclusion
  rcases node.execute (.saveInclusionData number isProof inclusionData)
    verdict with ⟨node₁, _ | _ | _⟩
  · exact ⟨_, .inl rfl, rfl⟩
  · exact ⟨_, .inr (.inr rfl), rfl⟩
  · exact ⟨_, .inr (.inl rfl), rfl⟩

end Answers

theorem hasRow_of_mem_getReadyForDaDispatchProofs {limit : ℕ} {proof : ProofDA}
    (h : proof ∈ getReadyForDaDispatchProofs db limit) : db.HasRow proof.l1BatchNumber false := by
  obtain ⟨row, -, hready⟩ := List.mem_filterMap.1 (mem_of_mem_lowest h)
  obtain ⟨url, -, hready⟩ := Option.bind_eq_some_iff.1 hready
  split at hready
  · rename_i hwhere
    cases hready
    exact hwhere.2.1
  · cases hready

theorem hasRow_of_mem_readyForDummyProofDispatch (h : number ∈ readyForDummyProofDispatch db) :
    db.HasRow number false := by
  obtain ⟨⟨da, batch⟩, hmem, rfl⟩ := List.mem_map.1 h
  obtain ⟨hjoin, hwhere⟩ := List.mem_filter.1 hmem
  obtain ⟨hblob, -⟩ := of_decide_eq_true hwhere
  exact ⟨da, (mem_innerJoin.1 hjoin).1, Prod.ext rfl hblob⟩

inductive DaNode.Stepped (node : DaNode Address) : DaEvent → DaNode Address → Prop
  | other (e : SenderEvent) :
    Stepped node (.other e) { node with db := { node.db with sender := node.db.view.step e } }
  | savePubdata (number : ℕ) (pubdata : Bytes) : Stepped node (.savePubdata number pubdata)
    { node with db := { node.db with pubdataInput := node.db.pubdataInput ++ [(number, pubdata)] } }
  | saveProofGeneration (rows : List ProofGenerationRow) : Stepped node (.saveProofGeneration rows)
    { node with db := { node.db with proofGenerationDetails := rows } }
  | start : Stepped node .start
    { node with blob := .fetching, proof := .fetching, poll := .fetching false }
  | fetchBatches : Stepped node .fetchBatches { node with
    blob := .dispatching (getReadyForDaDispatchL1Batches node.db node.config.maxRowsToDispatch) }
  | dispatchBlob {batch rest}
    (hblob : node.blob = .dispatching (batch :: rest)) (blobId : Utf8) (sentAt : ℕ) :
    Stepped node (.dispatchBlob blobId sentAt)
      { node with blob := .inserting batch.l1BatchNumber blobId sentAt rest }
  | insertBlob {number sentAt blobId rest}
    (hblob : node.blob = .inserting number blobId sentAt rest) (verdict : Verdict) :
    Stepped node (.insertBlob verdict) (node.insertBlob number blobId sentAt rest verdict)
  | checkBlob {number blobId rest} (hblob : node.blob = .checking number blobId rest) :
    Stepped node .checkBlob { node with blob := .dispatching rest }
  | endBlob {e : DaEvent} (he : e = .checkBlob ∨ e = .endBlob) :
    Stepped node e { node with blob := .done }
  | fetchRealProofs : Stepped node .fetchRealProofs { node with
    proof := .dispatching ((getReadyForDaDispatchProofs node.db
      node.config.maxRowsToDispatch).map ProofDA.l1BatchNumber) }
  | fetchDummyProofs {picked} (hdummy : node.config.dispatchRealProof = false)
    (hpicked : GetsReadyForDummyProofDispatch node.db node.config.maxRowsToDispatch picked) :
    Stepped node (.fetchDummyProofs picked) { node with proof := .dispatching picked }
  | skipProof {number rest} (hproof : node.proof = .dispatching (number :: rest)) :
    Stepped node .skipProof { node with proof := .dispatching rest }
  | dispatchProof {number rest}
    (hproof : node.proof = .dispatching (number :: rest)) (blobId : Utf8) (sentAt : ℕ) :
    Stepped node (.dispatchProof blobId sentAt)
      { node with proof := .inserting number blobId sentAt rest }
  | insertProof {number sentAt blobId rest}
    (hproof : node.proof = .inserting number blobId sentAt rest) (verdict : Verdict) :
    Stepped node (.insertProof verdict) (node.insertProof number blobId sentAt rest verdict)
  | endProof : Stepped node .endProof { node with proof := .done }
  | fetchAwaiting {isProof blob}
    (hfirst : getFirstAwaitingInclusion node.db isProof = some blob) :
    Stepped node .fetchAwaiting { node with poll := .asking isProof blob }
  | answerInclusion {isProof blob inclusionData data} (hpoll : node.poll = .asking isProof blob)
    (hdata : (if node.config.useDummyInclusionData then inclusionData else some []) = some data) :
    Stepped node (.answerInclusion inclusionData)
      { node with poll := .saving isProof blob.l1BatchNumber data }
  | saveInclusion {isProof number inclusionData}
    (hpoll : node.poll = .saving isProof number inclusionData) (verdict : Verdict) :
    Stepped node (.saveInclusion verdict) (node.saveInclusion isProof number inclusionData verdict)
  | nextPoll {e : DaEvent} (isProof : Bool)
    (he : e = .fetchAwaiting ∨ e = .answerInclusion none ∨ e = .checkInclusion) :
    Stepped node e { node with poll := .next isProof }
  | endPoll {e : DaEvent} (he : e = .checkInclusion ∨ e = .endPoll) :
    Stepped node e { node with poll := .done }
  | late {i statement} (hlate : node.late[i]? = some statement) :
    Stepped node (.late i) { node with
      db := ((node.db.execute statement).map Prod.fst).getD node.db
      late := node.late.eraseIdx i }
  | restart (config : DADispatcherConfig) : Stepped node (.restart config)
    { node with config, blob := .done, proof := .done, poll := .done }

theorem DaNode.stepped_of_step (h : node.step e = some node') : node.Stepped e node' := by
  cases e with
  | answerInclusion inclusionData =>
    simp only [DaNode.step] at h
    split at h
    · split at h <;> cases h
      · next hnone =>
        split at hnone
        · exact .nextPoll _ (.inr (.inl (congrArg _ hnone)))
        · cases hnone
      · exact .answerInclusion (by assumption) (by assumption)
    · cases h
  | fetchDummyProofs picked =>
    simp only [DaNode.step] at h
    split at h
    · next hdummy =>
      split at h <;> cases h
      exact .fetchDummyProofs hdummy (by assumption)
    · cases h
  | checkBlob | fetchAwaiting | checkInclusion =>
    simp only [DaNode.step] at h
    repeat' split at h
    all_goals cases h
    -- each branch of the step is one of these rules
    all_goals first
      | exact .checkBlob (by assumption)
      | exact .endBlob (.inl rfl)
      | exact .fetchAwaiting (by assumption)
      | exact .nextPoll _ (by simp)
      | exact .endPoll (.inl rfl)
  | endBlob =>
    cases h
    exact .endBlob (.inr rfl)
  | endPoll =>
    cases h
    exact .endPoll (.inr rfl)
  -- elsewhere the premises of the rule are the guards of the step
  | _ =>
    simp only [DaNode.step] at h
    repeat' split at h
    all_goals cases h
    all_goals constructor
    all_goals assumption

theorem DaNode.step_effect (h : node.step e = some node') : StepEffect node node' := by
  cases DaNode.stepped_of_step h with
  | other | savePubdata | saveProofGeneration | fetchBatches | dispatchBlob | checkBlob | endBlob
    | fetchAwaiting | answerInclusion | nextPoll | endPoll =>
    exact .of_subset rfl (.refl _)
  | start | endProof | restart => exact .of_subset rfl (pending_subset (List.nil_subset _))
  | @insertBlob number sentAt blobId rest hblob verdict =>
    obtain ⟨blob, -, heq⟩ := node.insertBlob_eq number blobId sentAt verdict rest
    have heffect := @DaNode.execute_effect _ node (.insert number false blobId sentAt) nofun verdict
    exact heq ▸ heffect.congr rfl (.refl _)
  | @insertProof number sentAt blobId rest hproof verdict =>
    obtain ⟨proof, hnext, heq⟩ := node.insertProof_eq number blobId sentAt verdict rest
    have hbatches : node.proof.batches = number :: rest := by rw [hproof]; rfl
    have heffect := @DaNode.execute_effect _ node (.insert number true blobId sentAt)
      (fun number' h => by
        cases h
        exact List.mem_append_left _ (hbatches ▸ List.mem_cons_self)) verdict
    -- whether the statement took effect or not, the batch is not pending any more
    refine heq ▸ heffect.congr rfl (pending_subset ?_)
    rw [(node.execute_tasks _ verdict).2, hbatches]
    rcases hnext with rfl | rfl
    · exact List.nil_subset _
    · exact List.subset_cons_self _ _
  | @saveInclusion isProof number inclusionData hpoll verdict =>
    obtain ⟨poll, -, heq⟩ := node.saveInclusion_eq number verdict isProof inclusionData
    have heffect := @DaNode.execute_effect _ node (.saveInclusionData number isProof inclusionData)
      nofun verdict
    exact heq ▸ heffect.congr rfl (.refl _)
  | fetchRealProofs =>
    refine ⟨.inl rfl, fun number hnumber => ?_⟩
    rcases List.mem_append.1 hnumber with hnumber | hnumber
    · obtain ⟨proof, hproof, rfl⟩ := List.mem_map.1 hnumber
      exact .inr (hasRow_of_mem_getReadyForDaDispatchProofs hproof)
    · exact .inl (List.mem_append_right _ hnumber)
  | fetchDummyProofs _ hpicked =>
    refine ⟨.inl rfl, fun number hnumber => ?_⟩
    rcases List.mem_append.1 hnumber with hnumber | hnumber
    · exact .inr (hasRow_of_mem_readyForDummyProofDispatch (hpicked.2.1 number hnumber))
    · exact .inl (List.mem_append_right _ hnumber)
  | skipProof hproof =>
    refine .of_subset rfl (pending_subset ?_)
    rw [hproof]
    exact List.subset_cons_self _ _
  | dispatchProof hproof =>
    refine .of_subset rfl (pending_subset ?_)
    rw [hproof]
    exact .refl _
  -- a late statement was pending all the time
  | @late i statement hlate =>
    have hmem : statement ∈ node.late := List.mem_of_getElem? hlate
    have hpending : ∀ number ∈ node.proof.batches
        ++ (node.late.eraseIdx i).filterMap DaStatement.proofOf, number ∈ node.pending := by
      intro number hnumber
      rcases List.mem_append.1 hnumber with hnumber | hnumber
      · exact List.mem_append_left _ hnumber
      · exact List.mem_append_right _
          (((List.eraseIdx_sublist _ _).filterMap _).subset hnumber)
    cases hexecute : node.db.execute statement with
    | none => exact .of_subset rfl hpending
    | some result =>
      refine ⟨.inr ⟨statement, result.2, hexecute, fun number hproof => ?_⟩,
        fun number hnumber => .inl (hpending number hnumber)⟩
      exact List.mem_append_right _ (List.mem_filterMap.2 ⟨statement, hmem, hproof⟩)

/-! ### Runs -/

theorem StepEffect.persists (h : StepEffect node node') :
    Persists node.db.dataAvailability node'.db.dataAvailability := by
  rcases h.table with hsame | ⟨statement, affected, hexecute, -⟩
  · rw [hsame]
    exact .refl _
  · exact (DaDb.execute_persists hexecute).1

/-- **The invariant.**  Keys are distinct, and a proof that is there or that may still be inserted
belongs to a batch whose blob is there. -/
structure DaInv (node : DaNode Address) : Prop where
  keys : (node.db.dataAvailability.map DaRow.key).Nodup
  blobs : ∀ number, node.db.HasRow number true → node.db.HasRow number false
  pending : ∀ number ∈ node.pending, node.db.HasRow number false

theorem DaInv.step (h : DaInv node) (hstep : daStep Address node e node') : DaInv node' := by
  have heffect : StepEffect node node' := DaNode.step_effect hstep
  have hpersists := heffect.persists
  refine ⟨?_, fun number hproof => ?_, fun number hnumber => ?_⟩
  · rcases heffect.table with hsame | ⟨statement, affected, hexecute, -⟩
    · rw [hsame]
      exact h.keys
    · exact (DaDb.execute_persists hexecute).2 h.keys
  · rcases heffect.table with hsame | ⟨statement, affected, hexecute, hpending⟩
    · rw [DaDb.HasRow, hsame] at hproof
      exact (h.blobs number hproof).persists hpersists
    · rcases DaDb.execute_proof hexecute hproof with hold | hnew
      · exact (h.blobs number hold).persists hpersists
      · exact (h.pending number (hpending number hnew)).persists hpersists
  · rcases heffect.pending number hnumber with hold | hblob
    · exact (h.pending number hold).persists hpersists
    · exact hblob.persists hpersists

theorem DaInv.initial (config : DADispatcherConfig) : DaInv (DaNode.initial Address config) := by
  refine ⟨List.nodup_nil, ?_, ?_⟩
  · rintro number ⟨row, hrow, -⟩
    cases hrow
  · nofun

theorem blob_of_ready {limit protocolVersionId : ℕ} {bootloaderHash defaultAaHash : H256}
    {batch : ViaBtcL1BlockDetails}
    (h : batch ∈ getReadyForCommitL1Batches db.view limit bootloaderHash defaultAaHash
      protocolVersionId) :
    ∃ row ∈ db.dataAvailability, row.key = (batch.number, false) ∧ row.inclusionData ≠ none ∧
      batch.blobId = row.blobId := by
  obtain ⟨⟨⟨⟨⟨l1Batch, ins⟩, c⟩, da⟩, version⟩, hr, rfl⟩ := List.mem_map.1 h
  obtain ⟨hjoin, hwhere⟩ := List.mem_filter.1 (mem_of_mem_lowest hr)
  obtain ⟨-, -, -, -, hproof, -, -, -, -, hincluded⟩ := of_decide_eq_true hwhere
  obtain ⟨hjoin, -, -⟩ := mem_innerJoin.1 hjoin
  cases da with
  | none => exact absurd rfl hincluded
  | some da =>
    obtain ⟨-, hda, hnumber⟩ := mem_leftJoin_some.1 hjoin
    obtain ⟨row, hrow, rfl⟩ := List.mem_map.1 hda
    exact ⟨row, hrow, Prod.ext (of_decide_eq_true hnumber) (Option.some.inj hproof), hincluded, rfl⟩

/-- **Records are write-once.**  In every run, whatever fails: a batch has one row for its blob and
one for its proof, and each row keeps its blob, its time, and its inclusion data once it has any. -/
theorem dataAvailability_writeOnce {config : DADispatcherConfig} {es : List DaEvent}
    (hrun : Run (daStep Address) (DaNode.initial Address config) es node) :
    (node.db.dataAvailability.map DaRow.key).Nodup
      ∧ (∀ number, node.db.HasRow number true → node.db.HasRow number false)
      ∧ (∀ limit bootloaderHash defaultAaHash protocolVersionId,
        ∀ batch ∈ getReadyForCommitL1Batches node.db.view limit bootloaderHash defaultAaHash
          protocolVersionId,
        ∃ row ∈ node.db.dataAvailability,
          row.key = (batch.number, false) ∧ row.inclusionData ≠ none)
      ∧ ∀ es' node', Run (daStep Address) node es' node' →
        Persists node.db.dataAvailability node'.db.dataAvailability := by
  have hinv : DaInv node := hrun.invariant (fun _ _ _ h hstep => h.step hstep) (.initial config)
  refine ⟨hinv.keys, hinv.blobs, fun _ _ _ _ _ hbatch => ?_, fun es' node' hrun' => ?_⟩
  · obtain ⟨row, hrow, hkey, hincluded, -⟩ := blob_of_ready hbatch
    exact ⟨row, hrow, hkey, hincluded⟩
  refine hrun'.invariant
    (I := fun node'' => Persists node.db.dataAvailability node''.db.dataAvailability) ?_ (.refl _)
  intro node₁ e node₂ hpersists hstep
  exact hpersists.trans (DaNode.step_effect hstep).persists

def sampleDaConfig : DADispatcherConfig :=
  { maxRowsToDispatch := 10, useDummyInclusionData := true, dispatchRealProof := false }

def sampleAgainId : Utf8 := ⟨ascii "again", by decide +kernel⟩

def sampleSealed : List SenderEvent :=
  .insertProtocolVersion sampleProtocolVersion :: sealBatch 1 ++
    [.saveL1BatchCommitmentArtifacts 1 (.replicate 32 2)
      (some (.replicate 32 3, .replicate 32 4))]

/-- The blob of a batch is dispatched twice: the answer to the first statement is lost, and the
server carries it out after the process has started again. -/
def sampleDispatchRun : List DaEvent :=
  sampleSealed.map .other
    ++ [.savePubdata 1 [1, 2, 3], .start, .fetchBatches, .dispatchBlob sampleBlobId 100,
      .insertBlob (.failed false), .restart sampleDaConfig, .start, .fetchBatches,
      .dispatchBlob sampleAgainId 200, .late 0, .insertBlob .done, .checkBlob]

def sampleInclusionRun : List DaEvent :=
  [.fetchAwaiting, .fetchDummyProofs [1], .answerInclusion (some [7]),
    .dispatchProof sampleProofId 300, .saveInclusion .done, .insertProof .done]

theorem dataAvailability_writeOnce_twice :
    ∃ node node', Run (daStep SampleAddress) (DaNode.initial SampleAddress sampleDaConfig)
        sampleDispatchRun node
      ∧ Run (daStep SampleAddress) node sampleInclusionRun node'
      ∧ node.db.dataAvailability = [⟨⟨1, false, sampleBlobId, none⟩, 100⟩]
      ∧ node'.db.dataAvailability
        = [⟨⟨1, false, sampleBlobId, some [7]⟩, 100⟩, ⟨⟨1, true, sampleProofId, none⟩, 300⟩]
      ∧ (readyForCommitL1Batches sampleSenderConfig node'.db.view).map
        (fun batch => batch.number) = [1]
      ∧ Persists node.db.dataAvailability node'.db.dataAvailability := by
  obtain ⟨node, hrun, hrows, hnext⟩ : ∃ node, Run (daStep SampleAddress)
      (DaNode.initial SampleAddress sampleDaConfig) sampleDispatchRun node ∧
      node.db.dataAvailability = [⟨⟨1, false, sampleBlobId, none⟩, 100⟩] ∧
      (runPartial DaNode.step node sampleInclusionRun).any (fun node' => decide
        (node'.db.dataAvailability
            = [⟨⟨1, false, sampleBlobId, some [7]⟩, 100⟩, ⟨⟨1, true, sampleProofId, none⟩, 300⟩] ∧
          (readyForCommitL1Batches sampleSenderConfig node'.db.view).map
            (fun batch => batch.number) = [1])) = true :=
    Run.witness (fun _ _ h => h) (by decide +kernel)
  obtain ⟨node', hrun', hrows', hready⟩ := Run.witness (fun _ _ h => h) hnext
  exact ⟨node, node', hrun, hrun', hrows, hrows', hready,
    (dataAvailability_writeOnce hrun).2.2.2 _ _ hrun'⟩

end Specs
