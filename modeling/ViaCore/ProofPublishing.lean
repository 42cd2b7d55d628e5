/-
From submitted proofs to published ones.

A prover submits the proof of a batch.  The server stores it, compares its auxiliary output with the
values of the batch, and marks the batch as proved; a proof that differs makes the request panic.
The dispatcher takes the batches that are marked, and loads their proofs from the store by batch and
version.  The comparison comes after the proof was stored, so a proof that fails it can have
replaced one that did not.

The state (`ProofServer`) has the tables and tasks of the dispatcher, the batches, the store, the
requests that are being served and what was handed to the client.  A request can end after any step;
one that stays where it is and goes on later stands for a statement that is carried out late.

* `published_matches` — all runs whose steps are `Orderly`.
-/
import ViaCore.DaDispatcher
import ViaCore.ProofBlob

structure L2ToL1Log where
  shardId : UInt8
  isService : Bool
  txNumberInBlock : ℕ
  sender : EVMAddress
  key : H256
  value : H256
  deriving DecidableEq

def L2ToL1Log.serializeCommitment (log : L2ToL1Log) : Bytes :=
  [log.shardId, if log.isService then 1 else 0] ++ (FixedBytes.ofNat 2 log.txNumberInBlock).bytes
    ++ log.sender.bytes ++ log.key.bytes ++ log.value.bytes

def serializeCommitments (logs : List L2ToL1Log) : Bytes :=
  logs.flatMap L2ToL1Log.serializeCommitment

/-- What `get_l1_batch_metadata` returns, with the fields that a submission is compared with. -/
structure ProvedBatch where
  batch : L1BatchWithMetadata
  systemLogs : List L2ToL1Log
  eventsQueueCommitment : Option H256
  bootloaderInitialContentCommitment : Option H256

section Compare

variable {FinalProof : Type} (L : ProofLibrary FinalProof)

def L1BatchProofForL1.coord (proof : L1BatchProofForL1 FinalProof) (i : Fin 4) : H256 :=
  proof.aggregationResultCoords.get (i.cast proof.coords_length.symm)

namespace ProvedBatch

variable (self : ProvedBatch)

def isBeforeBoojum : Bool := (self.batch.header.protocolVersion.map isPreBoojum).getD true

def systemLogsHash : H256 := L.keccak256 (serializeCommitments self.systemLogs)

def stateDiffHash : Option H256 :=
  (self.systemLogs.find? fun log => log.key = FixedBytes.ofNat 32 2).map L2ToL1Log.value

/-- The server's values, in the order of the coordinates of a proof. -/
def auxiliaryOutput : Option (List H256) := do
  let stateDiffHash ← self.stateDiffHash
  let bootloaderHeap ← self.bootloaderInitialContentCommitment
  let eventsQueue ← self.eventsQueueCommitment
  some [self.systemLogsHash L, stateDiffHash, bootloaderHeap, eventsQueue]

def compare (proof : L1BatchProofForL1 FinalProof) : Outcome Unit Unit :=
  if self.isBeforeBoojum then .ok ()
  else do
    let eventsQueue ← Outcome.unwrap self.eventsQueueCommitment
    let bootloaderHeap ← Outcome.unwrap self.bootloaderInitialContentCommitment
    if eventsQueue ≠ proof.coord 3 ∨ bootloaderHeap ≠ proof.coord 2 then .panic
    else
      let stateDiffHash ← Outcome.unwrap self.stateDiffHash
      if stateDiffHash ≠ proof.coord 1 ∨ self.systemLogsHash L ≠ proof.coord 0 then .panic
      else .ok ()

def Matches (proof : L1BatchProofForL1 FinalProof) : Prop :=
  self.auxiliaryOutput L = some proof.aggregationResultCoords
deriving Decidable

end ProvedBatch

theorem L1BatchProofForL1.coords_eq (proof : L1BatchProofForL1 FinalProof) :
    proof.aggregationResultCoords = [proof.coord 0, proof.coord 1, proof.coord 2,
      proof.coord 3] := by
  refine List.ext_getElem proof.coords_length fun i hi hi' => ?_
  have hlt : i < 4 := hi'
  interval_cases i <;> rfl

theorem ProvedBatch.matches_of_compare {self : ProvedBatch} {proof : L1BatchProofForL1 FinalProof}
    (h : self.compare L proof = .ok ()) (hversion : self.isBeforeBoojum = false) :
    self.Matches L proof := by
  rw [ProvedBatch.compare, if_neg (by simp [hversion])] at h
  simp only [Outcome.bind_eq_ok] at h
  obtain ⟨eventsQueue, hevents, bootloaderHeap, hheap, h⟩ := h
  split_ifs at h with hfirst
  obtain ⟨stateDiffHash, hdiff, h⟩ := Outcome.bind_eq_ok.1 h
  split_ifs at h with hsecond
  obtain ⟨heventsEq, hheapEq⟩ := not_or.1 hfirst
  obtain ⟨hdiffEq, hlogsEq⟩ := not_or.1 hsecond
  rw [ProvedBatch.Matches, ProvedBatch.auxiliaryOutput, Outcome.unwrap_eq_ok.1 hevents,
    Outcome.unwrap_eq_ok.1 hheap, Outcome.unwrap_eq_ok.1 hdiff, proof.coords_eq,
    ← not_not.1 heventsEq, ← not_not.1 hheapEq, ← not_not.1 hdiffEq, ← not_not.1 hlogsEq]
  rfl

end Compare

section Proofs

variable {Address : Type} {db : DaDb Address} {node node' : DaNode Address}

def DaDb.Generated (db : DaDb Address) (number : ℕ) : Prop :=
  ∃ row ∈ db.proofGenerationDetails, row.l1BatchNumber = number ∧ row.status = .generated
deriving Decidable

theorem generated_of_mem_getReadyForDaDispatchProofs {limit : ℕ} {proof : ProofDA}
    (h : proof ∈ getReadyForDaDispatchProofs db limit) : db.Generated proof.l1BatchNumber := by
  obtain ⟨row, hrow, hready⟩ := List.mem_filterMap.1 (mem_of_mem_lowest h)
  obtain ⟨url, -, hready⟩ := Option.bind_eq_some_iff.1 hready
  split at hready
  · rename_i hwhere
    cases hready
    exact ⟨row, hrow, rfl, hwhere.1⟩
  · cases hready

/-- The table of proofs stays as it is, and the dispatcher goes on publishing real proofs. -/
def DaEvent.keepsProofs : DaEvent → Bool
  | .saveProofGeneration _ => false
  | .restart config => config.dispatchRealProof
  | _ => true

variable (node node') in
/-- The marks stay as they are, and new batches in hand are marked. -/
structure ProofEffect : Prop where
  details : node'.db.proofGenerationDetails = node.db.proofGenerationDetails
  batches : ∀ number ∈ node'.proof.batches, number ∈ node.proof.batches ∨ node.db.Generated number
  real : node'.config.dispatchRealProof = true

theorem ProofEffect.of_subset (hreal : node.config.dispatchRealProof = true)
    (hconfig : node'.config = node.config)
    (hdetails : node'.db.proofGenerationDetails = node.db.proofGenerationDetails)
    (hproof : node'.proof.batches ⊆ node.proof.batches) : ProofEffect node node' :=
  ⟨hdetails, fun _ hnumber => .inl (hproof hnumber), (congrArg _ hconfig).trans hreal⟩

theorem DaDb.execute_details {statement : DaStatement} {result : DaDb Address × Bool}
    (h : db.execute statement = some result) :
    result.1.proofGenerationDetails = db.proofGenerationDetails := by
  cases statement with
  | insert number isProof blobId sentAt =>
    simp only [DaDb.execute] at h
    split at h
    · cases h
      rfl
    · cases h
  | saveInclusionData number isProof inclusionData =>
    cases h
    rfl

theorem DaNode.execute_proofs (hreal : node.config.dispatchRealProof = true)
    (statement : DaStatement) (verdict : Verdict) :
    ProofEffect node (node.execute statement verdict).1 := by
  unfold DaNode.execute
  split
  · exact .of_subset hreal rfl rfl (.refl _)
  · rename_i hexecute
    exact .of_subset hreal rfl (DaDb.execute_details hexecute) (.refl _)
  · rename_i hexecute
    exact .of_subset hreal rfl (DaDb.execute_details hexecute) (.refl _)
  · exact .of_subset hreal rfl rfl (.refl _)

theorem ProofEffect.congr {node'' : DaNode Address} (h : ProofEffect node node')
    (hdb : node''.db = node'.db) (hconfig : node''.config = node'.config)
    (hproof : node''.proof.batches ⊆ node'.proof.batches) : ProofEffect node node'' :=
  ⟨hdb ▸ h.details, fun number hnumber => h.batches number (hproof hnumber),
    (congrArg _ hconfig).trans h.real⟩

theorem DaNode.step_proofs {e : DaEvent} (h : node.step e = some node')
    (hreal : node.config.dispatchRealProof = true) (he : e.keepsProofs = true) :
    ProofEffect node node' := by
  cases DaNode.stepped_of_step h with
  | saveProofGeneration => cases he
  | other | savePubdata | fetchBatches | dispatchBlob | checkBlob | endBlob | fetchAwaiting
    | answerInclusion | nextPoll | endPoll => exact .of_subset hreal rfl rfl (.refl _)
  | start | endProof => exact .of_subset hreal rfl rfl (List.nil_subset _)
  | restart => exact ⟨rfl, nofun, he⟩
  | @insertBlob number sentAt blobId rest hblob verdict =>
    obtain ⟨blob, -, heq⟩ := node.insertBlob_eq number blobId sentAt verdict rest
    exact heq ▸ (DaNode.execute_proofs hreal _ verdict).congr rfl rfl (.refl _)
  | @insertProof number sentAt blobId rest hproof verdict =>
    obtain ⟨proof, hnext, heq⟩ := node.insertProof_eq number blobId sentAt verdict rest
    refine heq ▸ (DaNode.execute_proofs hreal _ verdict).congr rfl rfl ?_
    rw [(node.execute_tasks _ verdict).2, hproof]
    rcases hnext with rfl | rfl
    · exact List.nil_subset _
    · exact List.subset_cons_self _ _
  | @saveInclusion isProof number inclusionData hpoll verdict =>
    obtain ⟨poll, -, heq⟩ := node.saveInclusion_eq number verdict isProof inclusionData
    exact heq ▸ (DaNode.execute_proofs hreal _ verdict).congr rfl rfl (.refl _)
  -- only this step gets new batches, and they are marked as generated
  | fetchRealProofs =>
    refine ⟨rfl, fun number hnumber => .inr ?_, hreal⟩
    obtain ⟨proof, hproof, rfl⟩ := List.mem_map.1 hnumber
    exact generated_of_mem_getReadyForDaDispatchProofs hproof
  | fetchDummyProofs hdummy =>
    cases hreal.symm.trans hdummy
  | skipProof hproof =>
    refine .of_subset hreal rfl rfl ?_
    rw [hproof]
    exact List.subset_cons_self _ _
  | dispatchProof hproof =>
    refine .of_subset hreal rfl rfl ?_
    rw [hproof]
    exact .refl _
  | @late i statement =>
    refine .of_subset hreal rfl ?_ (.refl _)
    cases hexecute : node.db.execute statement with
    | none => rfl
    | some result => exact DaDb.execute_details hexecute

end Proofs

/-! ### The server -/

/-- Names of proofs in the store; the second is that of earlier versions of the software. -/
inductive ProofKey where
  | versioned (l1BatchNumber : ℕ) (version : ProtocolSemanticVersion)
  | deprecated (l1BatchNumber : ℕ)
  deriving DecidableEq

def ProofKey.batch : ProofKey → ℕ
  | .versioned l1BatchNumber _ => l1BatchNumber
  | .deprecated l1BatchNumber => l1BatchNumber

/-- A request with a proof: before it is stored, before the comparison, and before the batch is
marked. -/
inductive SubmitTask (FinalProof : Type) where
  | storing (number : ℕ) (version : ProtocolSemanticVersion) (proof : L1BatchProofForL1 FinalProof)
  | comparing (number : ℕ) (proof : L1BatchProofForL1 FinalProof) (blobUrl : Utf8)
  | saving (number : ℕ) (blobUrl : Utf8)

/-- `call` is the operation that was loaded for the batch in front, `published` what was handed to
the client, the latest first. -/
structure ProofServer (Address FinalProof : Type) where
  node : DaNode Address
  batches : List (ℕ × ProvedBatch)
  store : List (ProofKey × L1BatchProofForL1 FinalProof)
  requests : List (SubmitTask FinalProof)
  call : Option (ℕ × ProveBatches FinalProof)
  published : List (ℕ × ProveBatches FinalProof)

/-- The answers to `load_real_proof_operation`: those of tables that are not modelled, and which of
the others fail. -/
structure LoadAnswers where
  lastL1BatchWithProveTx : Option ℕ
  batchProtocolVersionId : Option ℕ
  latestSemanticVersion : Option ProtocolSemanticVersion
  vkHash : Option H256
  patchVersionsForVk : Option (List ℕ)
  failingMetadata : List ℕ
  failingVersions : List ProtocolSemanticVersion
  deprecatedFails : Bool

/-- What can happen.  `setStatus` stands for the other statements on `proof_generation_details`: a
prover takes a batch, gives it back, or skips it. -/
inductive ProofEvent (FinalProof : Type) where
  | node (e : DaEvent)
  | saveBatch (number : ℕ) (batch : ProvedBatch)
  | insertProofGenerationDetails (number : ℕ)
  | setStatus (number : ℕ) (status : ProofGenerationJobStatus)
  | receive (number : ℕ) (version : ProtocolSemanticVersion) (proof : L1BatchProofForL1 FinalProof)
  | put (i : ℕ) (blobUrl : Utf8)
  | compare (i : ℕ)
  | save (i : ℕ)
  | drop (i : ℕ)
  | load (answers : LoadAnswers)
  | dispatch (answer : Option (Utf8 × ℕ))

/-- The steps of the dispatcher in which a loaded proof is used up. -/
def DaEvent.usesProof : DaEvent → Bool
  | .skipProof => true
  | .dispatchProof .. => true
  | _ => false

def DaEvent.endsProof : DaEvent → Bool
  | .endProof => true
  | .restart _ => true
  | _ => false

namespace ProofServer

variable {Address FinalProof : Type} (L : ProofLibrary FinalProof)
    (s : ProofServer Address FinalProof)

def getProof (key : ProofKey) (fails : Bool) : StoreAnswer (L1BatchProofForL1 FinalProof) :=
  if fails then .error
  else
    match s.store.lookup key with
    | some proof => .found proof
    | none => .keyNotFound

def sources (answers : LoadAnswers) : ProofSources FinalProof where
  getLastL1BatchWithProveTx := answers.lastL1BatchWithProveTx
  getBatchProtocolVersionId _ := answers.batchProtocolVersionId
  latestSemanticVersion := answers.latestSemanticVersion
  l1VerifierConfigForVersion _ := answers.vkHash
  getPatchVersionsForVk _ _ := answers.patchVersionsForVk
  getL1BatchMetadata number :=
    if number ∈ answers.failingMetadata then none
    else (s.batches.lookup number).map ProvedBatch.batch
  getProof number version :=
    s.getProof (.versioned number version) (version ∈ answers.failingVersions)
  getProofByDeprecatedKey number := s.getProof (.deprecated number) answers.deprecatedFails

def withDetails (details : List ProofGenerationRow) : ProofServer Address FinalProof :=
  { s with node := { s.node with db := { s.node.db with proofGenerationDetails := details } } }

/-- `UPDATE proof_generation_details ... WHERE l1_batch_number = number`. -/
def updateDetails (number : ℕ) (f : ProofGenerationRow → ProofGenerationRow) :
    ProofServer Address FinalProof :=
  s.withDetails (s.node.db.proofGenerationDetails.map fun row =>
    if row.l1BatchNumber = number then f row else row)

/-- The comparison; without the metadata of the batch the request panics, too. -/
def compareProof (number : ℕ) (proof : L1BatchProofForL1 FinalProof) : Outcome Unit Unit :=
  Outcome.unwrap (s.batches.lookup number) >>= fun batch => batch.compare L proof

def step : ProofEvent FinalProof → Option (ProofServer Address FinalProof)
  | .node e =>
    if e.keepsProofs ∧ ¬ e.usesProof then
      (s.node.step e).map fun node => { s with node, call := if e.endsProof then none else s.call }
    else none
  | .saveBatch number batch =>
    some { s with batches := insertIfAbsent Prod.fst s.batches (number, batch) }
  | .insertProofGenerationDetails number =>
    some (s.withDetails (insertIfAbsent ProofGenerationRow.l1BatchNumber
      s.node.db.proofGenerationDetails ⟨number, .unpicked, none⟩))
  | .setStatus number status =>
    if status = .generated then none
    else some (s.updateDetails number fun row => { row with status })
  -- `submit_proof`
  | .receive number version proof =>
    some { s with requests := s.requests ++ [.storing number version proof] }
  | .put i blobUrl =>
    match s.requests[i]? with
    | some (.storing number version proof) =>
      some { s with
        store := (.versioned number version, proof) :: s.store
        requests := s.requests.set i (.comparing number proof blobUrl) }
    | _ => none
  | .compare i =>
    match s.requests[i]? with
    | some (.comparing number proof blobUrl) =>
      match s.compareProof L number proof with
      | .ok () => some { s with requests := s.requests.set i (.saving number blobUrl) }
      | _ => some { s with requests := s.requests.eraseIdx i }
    | _ => none
  | .save i =>
    match s.requests[i]? with
    | some (.saving number blobUrl) =>
      some { s.updateDetails number fun row =>
          { row with status := .generated, proofBlobUrl := some blobUrl } with
        requests := s.requests.eraseIdx i }
    | _ => none
  | .drop i => some { s with requests := s.requests.eraseIdx i }
  -- `dispatch_real_proofs`
  | .load answers =>
    match s.node.proof, s.call with
    | .dispatching (number :: _), none =>
      match loadRealProofOperation (s.sources answers) number with
      | some call => some { s with call := some (number, call) }
      | none => (s.node.step .skipProof).map fun node => { s with node }
    | _, _ => none
  | .dispatch answer =>
    match s.call with
    | some (number, call) =>
      match realProofBlob L call, answer with
      -- the conversion panics, and the task ends
      | .ok _, some (blobId, sentAt) =>
        (s.node.step (.dispatchProof blobId sentAt)).map fun node =>
          { s with node, call := none, published := (number, call) :: s.published }
      -- the client fails, and is called again
      | .ok _, none => some { s with published := (number, call) :: s.published }
      | _, _ => (s.node.step .endProof).map fun node => { s with node, call := none }
    | none => none

def initial (Address FinalProof : Type) (config : DADispatcherConfig) :
    ProofServer Address FinalProof :=
  ⟨DaNode.initial Address { config with dispatchRealProof := true }, [], [], [], none, []⟩

end ProofServer

def proofStep (Address : Type) {FinalProof : Type} (L : ProofLibrary FinalProof) :
    StepRel (ProofServer Address FinalProof) (ProofEvent FinalProof) :=
  StepRel.ofPartial fun s e => s.step L e

/-! ### Checked proofs -/

def SubmitTask.marks {FinalProof : Type} : SubmitTask FinalProof → Option ℕ
  | .saving number _ => some number
  | _ => none

namespace ProofServer

variable {Address FinalProof : Type} (L : ProofLibrary FinalProof)
    (s : ProofServer Address FinalProof)

def Matches (number : ℕ) (proof : L1BatchProofForL1 FinalProof) : Prop :=
  ∃ batch ∈ s.batches.lookup number, batch.Matches L proof
deriving Decidable

/-- The operation has one proof, and it is one with the server's values. -/
def CallMatches (number : ℕ) (call : ProveBatches FinalProof) : Prop :=
  ∃ proof, call.proofs = [proof] ∧ s.Matches L number proof

instance (number : ℕ) (call : ProveBatches FinalProof) : Decidable (s.CallMatches L number call) :=
  decidable_of_iff (call.proofs.length = 1 ∧ ∀ proof ∈ call.proofs, s.Matches L number proof) (by
    constructor
    · rintro ⟨hlength, hall⟩
      obtain ⟨proof, hproof⟩ := List.length_eq_one_iff.1 hlength
      exact ⟨proof, hproof, hall proof (hproof ▸ List.mem_singleton_self proof)⟩
    · rintro ⟨proof, hproof, hmatches⟩
      rw [hproof]
      exact ⟨rfl, List.forall_mem_singleton.2 hmatches⟩)

/-- The batch is marked as proved, a request is about to mark it, or the dispatcher has it in
hand. -/
def Accepted (number : ℕ) : Prop :=
  s.node.db.Generated number ∨ number ∈ s.node.proof.batches ∨
    some number ∈ s.requests.map SubmitTask.marks
deriving Decidable

/-- **The condition.**  A proof without the server's values is not stored for an accepted batch, and
what is stored when a submission passes has its coordinates or the server's values. -/
def Orderly (s : ProofServer Address FinalProof) : ProofEvent FinalProof → Prop
  | .put i _ =>
    match s.requests[i]? with
    | some (.storing number _ proof) => s.Matches L number proof ∨ ¬ s.Accepted number
    | _ => True
  | .compare i =>
    match s.requests[i]? with
    | some (.comparing number proof _) =>
      s.compareProof L number proof = .ok () →
        (∃ batch ∈ s.batches.lookup number, batch.isBeforeBoojum = false) ∧
          ∀ key ∈ s.store.map Prod.fst, key.batch = number → ∀ stored ∈ s.store.lookup key,
            stored.aggregationResultCoords = proof.aggregationResultCoords ∨
              s.Matches L number stored
    | _ => True
  | _ => True

instance (e : ProofEvent FinalProof) : Decidable (Orderly L s e) := by
  unfold Orderly
  split
  · split <;> infer_instance
  · split <;> infer_instance
  · infer_instance

/-- A step of a submission that does not pass the comparison. -/
def FailsComparison : ProofEvent FinalProof → Prop
  | .put i _ =>
    match s.requests[i]? with
    | some (.storing number _ proof) => s.compareProof L number proof ≠ .ok ()
    | _ => False
  | .compare i =>
    match s.requests[i]? with
    | some (.comparing number proof _) => s.compareProof L number proof ≠ .ok ()
    | _ => False
  | _ => False

/-- What is going to be published for a batch, as things stand. -/
def toPublish (number : ℕ) (answers : LoadAnswers) : Option (ProveBatches FinalProof) :=
  if s.node.db.Generated number ∨ number ∈ s.node.proof.batches then
    loadRealProofOperation (s.sources answers) number
  else none

end ProofServer

section Runs

variable {Address FinalProof : Type} {L : ProofLibrary FinalProof}
  {s s' : ProofServer Address FinalProof}

variable {proof : L1BatchProofForL1 FinalProof} {number : ℕ} {call : ProveBatches FinalProof}
  {e : ProofEvent FinalProof}

theorem ProvedBatch.compare_of_matches {batch : ProvedBatch} (h : batch.Matches L proof) :
    batch.compare L proof = .ok () := by
  rw [ProvedBatch.Matches, ProvedBatch.auxiliaryOutput, proof.coords_eq] at h
  simp only [Option.bind_eq_bind, Option.bind_eq_some_iff, Option.some.injEq, List.cons.injEq,
    and_true] at h
  obtain ⟨stateDiffHash, hdiff, bootloaderHeap, hheap, eventsQueue, hevents, hlogs,
    rfl, rfl, rfl⟩ := h
  rw [ProvedBatch.compare]
  split
  · rfl
  · rw [hevents, hheap, hdiff, hlogs]
    simp

theorem ProofServer.compareProof_of_matches (h : s.Matches L number proof) :
    s.compareProof L number proof = .ok () := by
  obtain ⟨batch, hbatch, hmatches⟩ := h
  rw [ProofServer.compareProof, Option.mem_def.1 hbatch]
  exact ProvedBatch.compare_of_matches hmatches

theorem ProofServer.getProof_found {key : ProofKey} {fails : Bool}
    (h : s.getProof key fails = .found proof) : s.store.lookup key = some proof := by
  unfold ProofServer.getProof at h
  split at h
  · cases h
  · split at h
    · rename_i hlookup
      rw [hlookup, StoreAnswer.found.inj h]
    · cases h

theorem loadRealProofOperation_stored {answers : LoadAnswers}
    (h : loadRealProofOperation (s.sources answers) number = some call) :
    ∃ proof key, call.proofs = [proof] ∧ key.batch = number ∧ s.store.lookup key = some proof := by
  obtain ⟨_, _, _, _, _, proof, version, _, _, -, -, -, -, -, -, -,
    hfound | ⟨-, hfound⟩, -, -, rfl⟩ :=
    loadRealProofOperation_eq h
  · exact ⟨proof, .versioned number version, rfl, rfl, ProofServer.getProof_found hfound⟩
  · exact ⟨proof, .deprecated number, rfl, rfl, ProofServer.getProof_found hfound⟩

theorem loadRealProofOperation_congr (hbatches : s'.batches = s.batches)
    (hstore : ∀ key, key.batch = number → s'.store.lookup key = s.store.lookup key)
    (answers : LoadAnswers) :
    loadRealProofOperation (s'.sources answers) number
      = loadRealProofOperation (s.sources answers) number := by
  have hget : ∀ key fails, key.batch = number → s'.getProof key fails = s.getProof key fails := by
    intro key fails hkey
    rw [ProofServer.getProof, ProofServer.getProof, hstore key hkey]
  -- the versions are tried one after the other
  have hfirst : ∀ versions, firstProof (s'.sources answers) number versions
      = firstProof (s.sources answers) number versions := by
    intro versions
    induction versions with
    | nil => rfl
    | cons version rest ih =>
      have hsame : (s'.sources answers).getProof number version
          = (s.sources answers).getProof number version := hget _ _ rfl
      rw [firstProof, firstProof, hsame, ih]
  have hrange : ∀ versions, loadWrappedFriProofsForRange (s'.sources answers) number versions
      = loadWrappedFriProofsForRange (s.sources answers) number versions := by
    intro versions
    have hdeprecated : (s'.sources answers).getProofByDeprecatedKey number
        = (s.sources answers).getProofByDeprecatedKey number := hget _ _ rfl
    rw [loadWrappedFriProofsForRange, loadWrappedFriProofsForRange, hfirst, hdeprecated]
  have hmetadata : (s'.sources answers).getL1BatchMetadata =
    (s.sources answers).getL1BatchMetadata := by
    funext n
    simp only [ProofServer.sources, hbatches]
  simp only [loadRealProofOperation, hrange, hmetadata]
  rfl

/-! ### Steps -/

/-- What is accepted has the server's values, and so has what is in hand and what was published. -/
structure PublishInv (L : ProofLibrary FinalProof) (s : ProofServer Address FinalProof) : Prop where
  stored : ∀ number, s.Accepted number → ∀ key proof, key.batch = number →
    s.store.lookup key = some proof → s.Matches L number proof
  call : ∀ number call, s.call = some (number, call) → s.CallMatches L number call
  published : ∀ entry ∈ s.published, s.CallMatches L entry.1 entry.2
  real : s.node.config.dispatchRealProof = true

theorem ProofServer.Matches.mono (h : s.Matches L number proof)
    (hbatches : ∀ n batch, s.batches.lookup n = some batch → s'.batches.lookup n = some batch) :
    s'.Matches L number proof := by
  obtain ⟨batch, hbatch, hmatches⟩ := h
  exact ⟨batch, hbatches number batch hbatch, hmatches⟩

theorem ProofServer.CallMatches.mono (h : s.CallMatches L number call)
    (hbatches : ∀ n batch, s.batches.lookup n = some batch → s'.batches.lookup n = some batch) :
    s'.CallMatches L number call := by
  obtain ⟨proof, hproofs, hmatches⟩ := h
  exact ⟨proof, hproofs, hmatches.mono hbatches⟩

theorem PublishInv.frame (h : PublishInv L s)
    (hbatches : ∀ n batch, s.batches.lookup n = some batch → s'.batches.lookup n = some batch)
    (hstore : s'.store = s.store) (haccepted : ∀ number, s'.Accepted number → s.Accepted number)
    (hcall : ∀ call, s'.call = some call → s.call = some call)
    (hpublished : s'.published = s.published) (hreal : s'.node.config.dispatchRealProof = true) :
    PublishInv L s' := by
  refine ⟨fun number hnumber key proof hkey hlookup => ?_, fun number call h' => ?_,
    fun entry hentry => ?_, hreal⟩
  · rw [hstore] at hlookup
    exact (h.stored number (haccepted number hnumber) key proof hkey hlookup).mono hbatches
  · exact (h.call number call (hcall _ h')).mono hbatches
  · rw [hpublished] at hentry
    exact (h.published entry hentry).mono hbatches

variable {requests : List (SubmitTask FinalProof)}

theorem PublishInv.accepts (h : PublishInv L s) {node : DaNode Address}
    (hconfig : node.config = s.node.config)
    (haccepted : ∀ number, ({ s with node, requests } : ProofServer Address FinalProof).Accepted
      number → s.Accepted number) : PublishInv L { s with node, requests } :=
  h.frame (fun _ _ hb => hb) rfl haccepted (fun _ hc => hc) rfl (hconfig ▸ h.real)

theorem accepted_of_requests (h : s'.Accepted number) (hnode : s'.node = s.node)
    (hrequests : some number ∈ s'.requests.map SubmitTask.marks →
      some number ∈ s.requests.map SubmitTask.marks) : s.Accepted number := by
  unfold ProofServer.Accepted at h ⊢
  rw [hnode] at h
  exact h.imp_right fun h => h.imp_right hrequests

theorem marks_eraseIdx {i : ℕ} (h : some number ∈ (requests.eraseIdx i).map SubmitTask.marks) :
    some number ∈ requests.map SubmitTask.marks :=
  ((List.eraseIdx_sublist _ _).map _).subset h

theorem marks_set {i : ℕ} {task : SubmitTask FinalProof}
    (h : some number ∈ (requests.set i task).map SubmitTask.marks) :
    some number ∈ requests.map SubmitTask.marks ∨ task.marks = some number := by
  obtain ⟨other, hother, hmarks⟩ := List.mem_map.1 h
  rcases List.mem_or_eq_of_mem_set hother with hother | rfl
  · exact .inl (List.mem_map.2 ⟨other, hother, hmarks⟩)
  · exact .inr hmarks

theorem accepted_of_proofEffect (h : s'.Accepted number) (hrequests : s'.requests = s.requests)
    (heffect : ProofEffect s.node s'.node) : s.Accepted number := by
  rcases h with ⟨row, hrow, hmarked⟩ | hbatch | hrequest
  · exact .inl ⟨row, heffect.details ▸ hrow, hmarked⟩
  · rcases heffect.batches number hbatch with hbatch | hgenerated
    · exact .inr (.inl hbatch)
    · exact .inl hgenerated
  · exact .inr (.inr (hrequests ▸ hrequest))

theorem accepted_of_details {details : List ProofGenerationRow}
    (h : (s.withDetails details).Accepted number)
    (hdetails : ∀ row ∈ details, row.status = .generated → s.Accepted row.l1BatchNumber) :
    s.Accepted number := by
  rcases h with ⟨row, hrow, rfl, hstatus⟩ | h
  · exact hdetails row hrow hstatus
  · exact .inr h

variable {proof : L1BatchProofForL1 FinalProof}

section

variable (h : PublishInv L s)
include h

theorem PublishInv.put {i number : ℕ} {version : ProtocolSemanticVersion} (blobUrl : Utf8)
    (hchecked : s.Matches L number proof ∨ ¬ s.Accepted number) :
    PublishInv L { s with
      store := (.versioned number version, proof) :: s.store
      requests := s.requests.set i (.comparing number proof blobUrl) } := by
  have haccepted : ∀ n, ({ s with
      store := (.versioned number version, proof) :: s.store
      requests := s.requests.set i (.comparing number proof blobUrl) } :
        ProofServer Address FinalProof).Accepted n → s.Accepted n := by
    intro n hn
    exact accepted_of_requests hn rfl fun hn' => (marks_set hn').resolve_right nofun
  refine ⟨fun n hn key stored hkey hlookup => ?_, h.call, h.published, h.real⟩
  rw [List.lookup_cons] at hlookup
  split at hlookup
  · -- the key is the one that was written
    rename_i hsame
    cases hlookup
    rw [beq_iff_eq.1 hsame] at hkey
    obtain rfl : number = n := hkey
    exact hchecked.resolve_right (not_not.2 (haccepted number hn))
  · exact h.stored n (haccepted n hn) key stored hkey hlookup

theorem PublishInv.compare {i number : ℕ}
    {blobUrl : Utf8} (hrequest : s.requests[i]? = some (.comparing number proof blobUrl))
    (hcompare : s.compareProof L number proof = .ok ())
    (hversion : ∃ batch ∈ s.batches.lookup number, batch.isBeforeBoojum = false)
    (hstored : ∀ key ∈ s.store.map Prod.fst, key.batch = number → ∀ stored ∈ s.store.lookup key,
      stored.aggregationResultCoords = proof.aggregationResultCoords ∨ s.Matches L number stored) :
    PublishInv L { s with requests := s.requests.set i (.saving number blobUrl) } := by
  have hmatches : s.Matches L number proof := by
    obtain ⟨batch, hbatch, hversion⟩ := hversion
    rw [ProofServer.compareProof, Option.mem_def.1 hbatch] at hcompare
    exact ⟨batch, hbatch, ProvedBatch.matches_of_compare L hcompare hversion⟩
  refine ⟨fun n hn key stored hkey hlookup => ?_, h.call, h.published, h.real⟩
  -- the batch of this request, and the others
  by_cases hsame : n = number
  · subst hsame
    have hmem : key ∈ s.store.map Prod.fst := by
      obtain ⟨front, rest, hsplit, -⟩ := List.lookup_eq_some_iff.1 hlookup
      rw [hsplit, List.map_append]
      exact List.mem_append_right _ List.mem_cons_self
    rcases hstored key hmem hkey stored hlookup with hcoords | hmatches'
    · obtain ⟨batch, hbatch, hproof⟩ := hmatches
      exact ⟨batch, hbatch, hproof.trans (congrArg some hcoords.symm)⟩
    · exact hmatches'
  · refine h.stored n ?_ key stored hkey hlookup
    rcases hn with hn | hn | hn
    · exact .inl hn
    · exact .inr (.inl hn)
    · rcases marks_set hn with hn | hmarks
      · exact .inr (.inr hn)
      · exact absurd (Option.some.inj hmarks).symm hsame

theorem PublishInv.node {e : DaEvent} {node : DaNode Address}
    {call : Option (ℕ × ProveBatches FinalProof)} (hstep : s.node.step e = some node)
    (he : e.keepsProofs = true) (hcall : ∀ c, call = some c → s.call = some c) :
    PublishInv L { s with node, call } := by
  have heffect := DaNode.step_proofs hstep h.real he
  exact h.frame (fun _ _ hb => hb) rfl (fun _ hn =>
    accepted_of_proofEffect hn rfl heffect) hcall rfl
    heffect.real

theorem PublishInv.step
    (hstep : ((proofStep Address L).under (ProofServer.Orderly L)) s e s') : PublishInv L s' := by
  obtain ⟨hstep, hcond⟩ := hstep
  change s.step L e = some s' at hstep
  cases e <;> simp only [ProofServer.step] at hstep
  case node e =>
    split at hstep
    · rename_i he
      obtain ⟨node, hnode, rfl⟩ := Option.map_eq_some_iff.1 hstep
      refine h.node hnode he.1 fun call hcall => ?_
      split at hcall
      · cases hcall
      · exact hcall
    · cases hstep
  case saveBatch number batch =>
    cases hstep
    refine h.frame (fun n batch hlookup => ?_) rfl (fun _ hn => hn) (fun _ hc => hc) rfl h.real
    unfold insertIfAbsent
    split
    · exact hlookup
    · exact (List.lookup_append ..).trans (hlookup.symm ▸ rfl)
  -- a new row is not accepted yet
  case insertProofGenerationDetails number =>
    cases hstep
    refine h.accepts rfl fun _ hn => accepted_of_details hn fun row hrow hstatus => ?_
    unfold insertIfAbsent at hrow
    split at hrow
    · exact .inl ⟨row, hrow, rfl, hstatus⟩
    · rcases List.mem_append.1 hrow with hrow | hrow
      · exact .inl ⟨row, hrow, rfl, hstatus⟩
      · rw [List.mem_singleton.1 hrow] at hstatus
        cases hstatus
  case setStatus number status =>
    split at hstep
    · cases hstep
    · rename_i hother
      cases hstep
      refine h.accepts rfl fun _ hn => accepted_of_details hn fun row hrow hstatus => ?_
      obtain ⟨old, hold, rfl⟩ := List.mem_map.1 hrow
      split at hstatus
      · exact absurd hstatus hother
      · rename_i hne
        rw [if_neg hne]
        exact .inl ⟨old, hold, rfl, hstatus⟩
  case receive number version proof =>
    cases hstep
    refine h.accepts rfl fun _ hn => accepted_of_requests hn rfl fun hn => ?_
    rw [List.map_append] at hn
    rcases List.mem_append.1 hn with hn | hn
    · exact hn
    · cases List.mem_singleton.1 hn
  case put i blobUrl =>
    split at hstep
    · rename_i hrequest
      cases hstep
      simp only [ProofServer.Orderly, hrequest] at hcond
      -- the condition: nothing wrong is put over an accepted batch
      exact h.put blobUrl hcond
    · cases hstep
  case compare i =>
    split at hstep
    · rename_i hrequest
      simp only [ProofServer.Orderly, hrequest] at hcond
      split at hstep
      · rename_i hcompare
        cases hstep
        obtain ⟨hversion, hstored⟩ := hcond hcompare
        exact h.compare hrequest hcompare hversion hstored
      -- the panic only ends the request
      · cases hstep
        exact h.accepts rfl fun _ hn => accepted_of_requests hn rfl marks_eraseIdx
    · cases hstep
  case save i =>
    split at hstep
    · rename_i number blobUrl hrequest
      cases hstep
      -- the batch was accepted since the comparison
      have hsaving : s.Accepted number := .inr (.inr
        (List.mem_map.2 ⟨_, List.mem_of_getElem? hrequest, rfl⟩))
      refine h.accepts rfl fun n hn => ?_
      have hdetails : (s.updateDetails number fun row =>
          { row with status := .generated, proofBlobUrl := some blobUrl }).Accepted n :=
        accepted_of_requests hn rfl marks_eraseIdx
      refine accepted_of_details hdetails fun row hrow hstatus => ?_
      obtain ⟨old, hold, rfl⟩ := List.mem_map.1 hrow
      split
      · rename_i heq
        exact heq ▸ hsaving
      · rename_i hne
        rw [if_neg hne] at hstatus
        exact .inl ⟨old, hold, rfl, hstatus⟩
    · cases hstep
  case drop i =>
    cases hstep
    exact h.accepts rfl fun _ hn => accepted_of_requests hn rfl marks_eraseIdx
  case load answers =>
    split at hstep
    · rename_i number rest hproof _
      split at hstep
      · rename_i call hload
        cases hstep
        refine ⟨h.stored, fun number' call' hcall => ?_, h.published, h.real⟩
        cases hcall
        -- what is loaded was stored, and the batch in hand is accepted
        obtain ⟨proof, key, hproofs, hkey, hlookup⟩ := loadRealProofOperation_stored hload
        have hinHand : number ∈ s.node.proof.batches := by
          rw [hproof]
          exact List.mem_cons_self
        exact ⟨proof, hproofs, h.stored number (.inr (.inl hinHand)) key proof hkey hlookup⟩
      · obtain ⟨node, hnode, rfl⟩ := Option.map_eq_some_iff.1 hstep
        exact h.node hnode rfl fun _ hc => hc
    · cases hstep
  case dispatch answer =>
    split at hstep
    · rename_i number call hcall
      have hmatches := h.call number call hcall
      -- the client has the operation, whatever it answers
      have hpublish : PublishInv L { s with published := (number, call) :: s.published } :=
        ⟨h.stored, h.call, List.forall_mem_cons.2 ⟨hmatches, h.published⟩, h.real⟩
      split at hstep
      · obtain ⟨node, hnode, rfl⟩ := Option.map_eq_some_iff.1 hstep
        exact hpublish.node hnode rfl (by rintro _ ⟨⟩)
      · cases hstep
        exact hpublish
      · obtain ⟨node, hnode, rfl⟩ := Option.map_eq_some_iff.1 hstep
        exact h.node hnode rfl (by rintro _ ⟨⟩)
    · cases hstep

end

theorem PublishInv.initial (config : DADispatcherConfig) :
    PublishInv L (ProofServer.initial Address FinalProof config) where
  stored _ _ _ _ _ hlookup := by cases hlookup
  call _ _ hcall := by cases hcall
  published _ hentry := by cases hentry
  real := rfl

theorem toPublish_of_failsComparison (hstep : s.step L e = some s')
    (hcond : ProofServer.Orderly L s e) (hfails : s.FailsComparison L e) :
    s'.published = s.published ∧ ∀ number answers, s'.toPublish number answers
      = s.toPublish number answers := by
  cases e with
  | put i blobUrl =>
    simp only [ProofServer.step] at hstep
    split at hstep
    · rename_i number version proof hrequest
      simp only [ProofServer.Orderly, hrequest] at hcond
      simp only [ProofServer.FailsComparison, hrequest] at hfails
      cases hstep
      have hrejected : ¬ s.Accepted number :=
        hcond.resolve_left fun h => hfails (ProofServer.compareProof_of_matches h)
      refine ⟨rfl, fun n answers => ?_⟩
      unfold ProofServer.toPublish
      by_cases hsame : n = number
      · -- the proof is stored for a batch that nothing is published for
        have hnot : ¬ (s.node.db.Generated n ∨ n ∈ s.node.proof.batches) := by
          intro h
          rw [hsame] at h
          exact hrejected (h.imp_right Or.inl)
        rw [if_neg hnot, if_neg hnot]
      · have hload := @loadRealProofOperation_congr _ _ s { s with
          store := (.versioned number version, proof) :: s.store
          requests := s.requests.set i (.comparing number proof blobUrl) } n rfl (by
            intro key hkey
            have hne : (key == ProofKey.versioned number version) = false := by
              rw [beq_eq_false_iff_ne]
              rintro rfl
              exact hsame hkey.symm
            rw [List.lookup_cons, hne]) answers
        rw [hload]
    · cases hstep
  | compare i =>
    simp only [ProofServer.step] at hstep
    split at hstep
    · rename_i number proof blobUrl hrequest
      simp only [ProofServer.FailsComparison, hrequest] at hfails
      split at hstep
      · rename_i hcompare
        exact absurd hcompare hfails
      · cases hstep
        exact ⟨rfl, fun _ _ => rfl⟩
    · cases hstep
  | _ => cases hfails

/-- **Only checked proofs are published.**  Every proof that was handed to the client has the
server's values, and a submission that fails the comparison changes nothing. -/
theorem published_matches {config : DADispatcherConfig} {es : List (ProofEvent FinalProof)}
    (hrun : Run ((proofStep Address L).under (ProofServer.Orderly L))
      (ProofServer.initial Address FinalProof config) es s) :
    (∀ entry ∈ s.published, s.CallMatches L entry.1 entry.2) ∧
      ∀ e s', s.step L e = some s' → ProofServer.Orderly L s e → s.FailsComparison L e →
        s'.published = s.published ∧
          ∀ number answers, s'.toPublish number answers = s.toPublish number answers := by
  have hinv : PublishInv L s := hrun.invariant (I := PublishInv L)
    (fun _ _ _ h hstep => h.step hstep) (.initial config)
  exact ⟨hinv.published, fun e s' => toPublish_of_failsComparison⟩

end Runs

/-- The values of batch 1: a log with the hash of the state diffs, and two commitments. -/
def sampleProvedBatch : ProvedBatch where
  batch := sampleBatchWithMetadata 1
  systemLogs := [⟨0, true, 0, .replicate 20 0, .ofNat 32 2, .replicate 32 1⟩]
  eventsQueueCommitment := some (.replicate 32 3)
  bootloaderInitialContentCommitment := some (.replicate 32 2)

def sampleLogsHash : H256 :=
  .ofNat 32 0x25de7905dc8b4a41e6dc963c6c3e8962d2e294594b8c351a29d9dea01d8a23e2

def sampleProvedLibrary : ProofLibrary (List ℕ) where
  serializeProof := sampleProofLibrary.serializeProof
  keccak256 preimage :=
    if preimage = serializeCommitments sampleProvedBatch.systemLogs then sampleLogsHash
    else sampleProofLibrary.keccak256 preimage

def sampleCheckedProof : L1BatchProofForL1 (List ℕ) where
  aggregationResultCoords := [sampleLogsHash, .replicate 32 1, .replicate 32 2, .replicate 32 3]
  coords_length := rfl
  schedulerProof := [5, 6, 7]

def sampleProvable : List (ProofEvent (List ℕ)) :=
  (sampleSealed.map fun e => .node (.other e)) ++
    [.node (.savePubdata 1 [1, 2, 3]), .node .start, .node .fetchBatches,
      .node (.dispatchBlob sampleBlobId 100), .node (.insertBlob .done),
      .saveBatch 0 { sampleProvedBatch with batch := sampleBatchWithMetadata 0 },
      .saveBatch 1 sampleProvedBatch, .insertProofGenerationDetails 1]

/-- A request with a proof for batch 1, as far as it comes before the batch is marked. -/
def sampleSubmission (proof : L1BatchProofForL1 (List ℕ)) : List (ProofEvent (List ℕ)) :=
  [.receive 1 ⟨24, 0⟩ proof, .put 0 sampleProofId, .compare 0]

def samplePublication : List (ProofEvent (List ℕ)) :=
  [.node .fetchRealProofs,
    .load ⟨some 0, some 24, some ⟨24, 0⟩, some (.replicate 32 9), some [0], [], [], false⟩,
    .dispatch (some (sampleProofId, 300))]

theorem published_matches_second :
    ∃ s, Run ((proofStep SampleAddress sampleProvedLibrary).under
          (ProofServer.Orderly sampleProvedLibrary))
        (ProofServer.initial SampleAddress (List ℕ) sampleDaConfig)
        (sampleProvable ++ sampleSubmission (sampleProof 9) ++
          sampleSubmission sampleCheckedProof ++
          [.save 0] ++ samplePublication) s ∧
      s.published.map (fun entry => entry.1) = [1] ∧
      ∀ entry ∈ s.published, s.CallMatches sampleProvedLibrary entry.1 entry.2 :=
  Run.witnessUnder (fun _ hrun hresult => ⟨hresult, (published_matches hrun).1⟩) (by decide +kernel)

/-- **A proof that fails the comparison is published.**  It replaces the proof that was accepted,
and the panic that follows leaves it in the store. -/
theorem published_unchecked :
    ∃ s, Run (proofStep SampleAddress sampleProvedLibrary)
        (ProofServer.initial SampleAddress (List ℕ) sampleDaConfig)
        (sampleProvable ++ sampleSubmission sampleCheckedProof ++ [.save 0] ++
          sampleSubmission (sampleProof 9) ++ samplePublication) s ∧
      ∃ entry ∈ s.published, entry.2.proofs.map (fun proof => proof.aggregationResultCoords)
          = [(sampleProof 9).aggregationResultCoords] ∧
        ¬ s.CallMatches sampleProvedLibrary entry.1 entry.2 :=
  Run.witness (fun _ _ h => h) (by decide +kernel)
