/-
Commit requests and available blobs.

Batches are dispatched, their inclusion is polled for, and commit requests are created by tasks that
only share the table of blobs.  A request should be created only after the client has returned
inclusion data for the blob that it names.  Polling asks the client if `use_dummy_inclusion_data` is
set, and saves empty inclusion data without asking if it is not.

* `commitRequests_available` — all runs in which the client is asked.
-/
import ViaCore.DaDispatcher

section Available

variable {Address : Type}

/-- The public data that the client was given and the blob id that it returned, and the inclusion
data that it returned. -/
structure DaTrace (Address : Type) where
  node : DaNode Address
  dispatched : List (ℕ × Bytes × Utf8)
  included : List (Utf8 × Bytes)

def DaNode.dispatches (node : DaNode Address) : DaEvent → List (ℕ × Bytes × Utf8)
  | .dispatchBlob blobId _ =>
    match node.blob with
    | .dispatching (batch :: _) => [(batch.l1BatchNumber, batch.pubdata, blobId)]
    | _ => []
  | _ => []

def DaNode.includes (node : DaNode Address) : DaEvent → List (Utf8 × Bytes)
  | .answerInclusion (some data) =>
    match node.poll with
    | .asking _ blob => if node.config.useDummyInclusionData then [(blob.blobId, data)] else []
    | _ => []
  | _ => []

def DaTrace.step (t : DaTrace Address) (e : DaEvent) : Option (DaTrace Address) :=
  (t.node.step e).map fun node =>
    { node
      dispatched := t.node.dispatches e ++ t.dispatched
      included := t.node.includes e ++ t.included }

def daTraceStep (Address : Type) : StepRel (DaTrace Address) DaEvent :=
  StepRel.ofPartial DaTrace.step

def DaTrace.initial (Address : Type) (config : DADispatcherConfig) : DaTrace Address :=
  ⟨DaNode.initial Address config, [], []⟩

def BlobTask.statements : BlobTask → List DaStatement
  | .inserting number blobId sentAt _ => [.insert number false blobId sentAt]
  | _ => []

def PollTask.statements : PollTask → List DaStatement
  | .saving isProof number inclusionData => [.saveInclusionData number isProof inclusionData]
  | _ => []

def ProofTask.statements : ProofTask → List DaStatement
  | .inserting number blobId sentAt _ => [.insert number true blobId sentAt]
  | _ => []

def DaNode.statements (node : DaNode Address) : List DaStatement :=
  node.blob.statements ++ node.proof.statements ++ node.poll.statements ++ node.late

def BlobTask.batches : BlobTask → List L1BatchDA
  | .dispatching rest => rest
  | .inserting _ _ _ rest => rest
  | .checking _ _ rest => rest
  | _ => []

def PollTask.asked : PollTask → Option DaRow
  | .asking false blob => some blob
  | _ => none

section Sound

variable (dispatched : List (ℕ × Bytes × Utf8)) (included : List (Utf8 × Bytes)) (db : DaDb Address)

def Dispatched (number : ℕ) (blobId : Utf8) : Prop :=
  ∃ pubdata, (number, pubdata, blobId) ∈ dispatched ∧ db.pubdataInput.lookup number = some pubdata

def Included (blobId : Utf8) : Prop := blobId ∈ included.map Prod.fst

def RowIncluded (number : ℕ) : Prop :=
  ∃ row ∈ db.dataAvailability, row.key = (number, false) ∧ Included included row.blobId

def DaStatement.Sound : DaStatement → Prop
  | .insert number false blobId _ => Dispatched dispatched db number blobId
  | .saveInclusionData number false _ => RowIncluded included db number
  | _ => True

def DaRow.Sound (row : DaRow) : Prop :=
  row.isProof = false → Dispatched dispatched db row.l1BatchNumber row.blobId ∧
    (row.inclusionData ≠ none → Included included row.blobId)

/-- The request to commit a batch names a blob with the public data of the batch, and with inclusion
data. -/
def Available (request : InscriptionRequestRow Address) : Prop :=
  request.requestType = .commitL1BatchOnchain →
    ∃ reference number, request.inscriptionMessage = .l1BatchDAReference reference ∧
      reference.l1BatchIndex = .ofNat number ∧
      Dispatched dispatched db number reference.blobId ∧ Included included reference.blobId

end Sound

/-- **The invariant**, for given records. -/
structure NodeSound (dispatched : List (ℕ × Bytes × Utf8)) (included : List (Utf8 × Bytes))
    (node : DaNode Address) : Prop where
  keys : (node.db.dataAvailability.map DaRow.key).Nodup
  rows : ∀ row ∈ node.db.dataAvailability, row.Sound dispatched included node.db
  statements : ∀ statement ∈ node.statements, statement.Sound dispatched included node.db
  fetched : ∀ batch ∈ node.blob.batches,
    node.db.pubdataInput.lookup batch.l1BatchNumber = some batch.pubdata
  asked : ∀ blob, node.poll.asked = some blob →
    ∃ row ∈ node.db.dataAvailability, row.key = (blob.l1BatchNumber, false) ∧
      row.blobId = blob.blobId
  requests : ∀ request ∈ node.db.sender.inscriptionRequests,
    Available dispatched included node.db request

variable {dispatched dispatched' : List (ℕ × Bytes × Utf8)}
    {included included' : List (Utf8 × Bytes)}
  {db db' : DaDb Address} {node node' : DaNode Address}

/-! ### Later tables and records -/

variable (dispatched dispatched' included included' db db') in
structure Later : Prop where
  dispatched : dispatched ⊆ dispatched'
  included : included ⊆ included'
  pubdata : ∀ number pubdata, db.pubdataInput.lookup number = some pubdata →
    db'.pubdataInput.lookup number = some pubdata
  rows : Persists db.dataAvailability db'.dataAvailability

variable {number : ℕ} {blobId : Utf8} {statement : DaStatement}

section

variable (h : Later dispatched dispatched' included included' db db')
include h

theorem Dispatched.later (hd : Dispatched dispatched db number blobId) :
    Dispatched dispatched' db' number blobId := by
  obtain ⟨pubdata, hmem, hlookup⟩ := hd
  exact ⟨pubdata, h.dispatched hmem, h.pubdata number pubdata hlookup⟩

theorem Included.later (hi : Included included blobId) : Included included' blobId :=
  List.map_subset _ h.included hi

theorem RowIncluded.later (hr : RowIncluded included db number) :
    RowIncluded included' db' number := by
  obtain ⟨row, hrow, hkey, hincluded⟩ := hr
  obtain ⟨row', hrow', hkey', hblob, -⟩ := h.rows row hrow
  exact ⟨row', hrow', hkey'.trans hkey, hblob ▸ hincluded.later h⟩

theorem DaStatement.Sound.later (hs : statement.Sound dispatched included db) :
    statement.Sound dispatched' included' db' := by
  cases statement with
  | insert number isProof blobId sentAt =>
    cases isProof with
    | false => exact Dispatched.later h hs
    | true => trivial
  | saveInclusionData number isProof inclusionData =>
    cases isProof with
    | false => exact RowIncluded.later h hs
    | true => trivial

theorem DaRow.Sound.later {row : DaRow} (hs : row.Sound dispatched included db) :
    row.Sound dispatched' included' db' := by
  intro hproof
  obtain ⟨hdispatched, hincluded⟩ := hs hproof
  exact ⟨hdispatched.later h, fun hdata => (hincluded hdata).later h⟩

theorem Available.later {request : InscriptionRequestRow Address}
    (ha : Available dispatched included db request) :
    Available dispatched' included' db' request := by
  intro htype
  obtain ⟨reference, number, hmessage, hnumber, hdispatched, hincluded⟩ := ha htype
  exact ⟨reference, number, hmessage, hnumber, hdispatched.later h, hincluded.later h⟩

end

variable (h : NodeSound dispatched included node)

include h in
/-- **The frame rule.**  The table stays as it is, records grow, and the tasks have no more in hand
than before. -/
theorem NodeSound.frame (hdispatched : dispatched ⊆ dispatched') (hincluded : included ⊆ included')
    (hrows : node'.db.dataAvailability = node.db.dataAvailability)
    (hpubdata : ∀ number pubdata, node.db.pubdataInput.lookup number = some pubdata →
      node'.db.pubdataInput.lookup number = some pubdata)
    (hstatements : ∀ statement ∈ node'.statements, statement ∈ node.statements ∨
      statement.Sound dispatched' included' node'.db)
    (hbatches : node'.blob.batches ⊆ node.blob.batches)
    (hasked : ∀ blob, node'.poll.asked = some blob → node.poll.asked = some blob)
    (hrequests : node'.db.sender.inscriptionRequests = node.db.sender.inscriptionRequests) :
    NodeSound dispatched' included' node' := by
  have hlater : Later dispatched dispatched' included included' node.db node'.db :=
    ⟨hdispatched, hincluded, hpubdata, by rw [hrows]; exact .refl _⟩
  -- each fact about old data is kept by `Later`
  refine ⟨?_, ?_, ?_, ?_, ?_, ?_⟩
  · rw [hrows]
    exact h.keys
  · rw [hrows]
    exact fun row hrow => (h.rows row hrow).later hlater
  · intro statement hstatement
    exact (hstatements statement hstatement).elim
      (fun hold => (h.statements statement hold).later hlater) id
  · intro batch hbatch
    exact hpubdata _ _ (h.fetched batch (hbatches hbatch))
  · rw [hrows]
    exact fun blob hblob => h.asked blob (hasked blob hblob)
  · rw [hrequests]
    exact fun request hrequest => (h.requests request hrequest).later hlater

/-! ### Statements -/

variable {affected : Bool}

theorem DaDb.execute_tables (h : db.execute statement = some (db', affected)) :
    db'.sender = db.sender ∧ db'.pubdataInput = db.pubdataInput := by
  cases statement with
  | insert number isProof blobId sentAt =>
    simp only [DaDb.execute] at h
    split at h
    · cases h
      exact ⟨rfl, rfl⟩
    · cases h
  | saveInclusionData number isProof inclusionData =>
    cases h
    exact ⟨rfl, rfl⟩

theorem DaDb.execute_rows (h : db.execute statement = some (db', affected))
    (hsound : statement.Sound dispatched included db)
    (hkeys : (db.dataAvailability.map DaRow.key).Nodup)
    (hrows : ∀ row ∈ db.dataAvailability, row.Sound dispatched included db) :
    ∀ row ∈ db'.dataAvailability, row.Sound dispatched included db := by
  intro row hrow
  cases statement with
  | insert number isProof blobId sentAt =>
    simp only [DaDb.execute] at h
    split at h
    · cases h
      simp only [insertIfAbsent] at hrow
      split at hrow
      · exact hrows row hrow
      · rcases List.mem_append.1 hrow with hold | hnew
        · exact hrows row hold
        · rw [List.mem_singleton.1 hnew]
          intro hproof
          obtain rfl : isProof = false := hproof
          exact ⟨hsound, fun hdata => absurd rfl hdata⟩
    · cases h
  | saveInclusionData number isProof inclusionData =>
    cases h
    obtain ⟨old, hold, rfl⟩ := List.mem_map.1 hrow
    split
    · rename_i hupdated
      intro hproof
      refine ⟨(hrows old hold hproof).1, fun _ => ?_⟩
      -- the key is that of one row, and the client has answered for its blob
      obtain ⟨-, hisProof⟩ := Prod.mk.inj hupdated.1
      obtain rfl : isProof = false := hisProof.symm.trans hproof
      obtain ⟨row', hrow', hkey', hincluded⟩ := hsound
      have hsame : row' = old :=
        List.inj_on_of_nodup_map hkeys hrow' hold (hkey'.trans hupdated.1.symm)
      exact hsame ▸ hincluded
    · exact hrows old hold

include h

variable {statement : DaStatement}

theorem NodeSound.executed (hsound : statement.Sound dispatched included node.db)
    (hexecute : node.db.execute statement = some (db', affected)) :
    NodeSound dispatched included { node with db := db' } := by
  obtain ⟨hpersists, hkeys⟩ := DaDb.execute_persists hexecute
  obtain ⟨hsender, hpubdata⟩ := DaDb.execute_tables hexecute
  have hlater : Later dispatched dispatched included included node.db db' :=
    ⟨.refl _, .refl _, fun _ _ hp => hpubdata ▸ hp, hpersists⟩
  refine ⟨hkeys h.keys, fun row hrow => ?_, fun s hs => (h.statements s hs).later hlater,
    fun batch hbatch => ?_, fun blob hblob => ?_, fun request hrequest => ?_⟩
  · exact (DaDb.execute_rows hexecute hsound h.keys h.rows row hrow).later hlater
  · exact hlater.pubdata _ _ (h.fetched batch hbatch)
  · obtain ⟨row, hrow, hkey, hblobId⟩ := h.asked blob hblob
    obtain ⟨row', hrow', hkey', hblobId', -⟩ := hpersists row hrow
    exact ⟨row', hrow', hkey'.trans hkey, hblobId'.trans hblobId⟩
  · exact (h.requests request (hsender ▸ hrequest)).later hlater

theorem NodeSound.execute (hsound : statement.Sound dispatched included node.db)
    (verdict : Verdict) :
    NodeSound dispatched included (node.execute statement verdict).1 := by
  unfold DaNode.execute
  split
  · exact h
  · rename_i hexecute
    exact h.executed hsound hexecute
  · rename_i hexecute
    exact h.executed hsound hexecute
  · refine h.frame (.refl _) (.refl _) rfl (fun _ _ hp => hp) ?_
      (.refl _) (fun _ hb => hb) rfl
    intro statement' hstatement'
    rcases List.mem_append.1 hstatement' with hold | hlate
    · exact .inl (List.mem_append_left _ hold)
    · rcases List.mem_cons.1 hlate with rfl | hlate
      · exact .inr hsound
      · exact .inl (List.mem_append_right _ hlate)

variable {config : DADispatcherConfig}

theorem NodeSound.tasks {blob : BlobTask} {proof : ProofTask}
    {poll : PollTask} (hblob : blob.statements ⊆ node.blob.statements)
    (hproof : proof.statements ⊆ node.proof.statements)
    (hpoll : poll.statements ⊆ node.poll.statements) (hbatches : blob.batches ⊆ node.blob.batches)
    (hasked : ∀ row, poll.asked = some row → node.poll.asked = some row) :
    NodeSound dispatched included { node with config, blob, proof, poll } := by
  refine h.frame (.refl _) (.refl _) rfl (fun _ _ hp => hp)
    (fun statement hstatement => .inl ?_) hbatches hasked rfl
  simp only [DaNode.statements, List.mem_append] at hstatement ⊢
  exact hstatement.imp_left (Or.imp (Or.imp (@hblob _) (@hproof _)) (@hpoll _))

/-! ### Requests -/

omit h

theorem SenderDb.step_requests {sender : SenderDb Address} {e : SenderEvent}
    (he : ∀ config answers, e ≠ .iterate config answers) :
    ∀ request' ∈ (sender.step e).inscriptionRequests, ∃ request ∈ sender.inscriptionRequests,
      request'.requestType = request.requestType ∧
        request'.inscriptionMessage = request.inscriptionMessage := by
  intro request' hrequest'
  cases e with
  | iterate config answers => exact absurd rfl (he config answers)
  | confirmInscription requestId historyId =>
    simp only [SenderDb.step, confirmInscription] at hrequest'
    split at hrequest'
    · obtain ⟨request, hrequest, rfl⟩ := List.mem_map.1 hrequest'
      refine ⟨request, hrequest, ?_⟩
      split <;> exact ⟨rfl, rfl⟩
    · exact ⟨request', hrequest', rfl, rfl⟩
  | saveL1BatchCommitmentArtifacts number commitment auxCommitments =>
    simp only [SenderDb.step, saveL1BatchCommitmentArtifacts] at hrequest'
    split at hrequest' <;> exact ⟨request', hrequest', rfl, rfl⟩
  | insertInscriptionRequestHistory commitTxId revealTxId inscriptionRequestId
    sentAtBlock createdAt =>
    simp only [SenderDb.step, insertInscriptionRequestHistory] at hrequest'
    split at hrequest' <;> exact ⟨request', hrequest', rfl, rfl⟩
  | _ => exact ⟨request', hrequest', rfl, rfl⟩

include h in
theorem NodeSound.iterate (config : ViaBtcSenderConfig) (answers : AggregatorAnswers) :
    ∀ request ∈ (aggregatorLoopIteration config node.db.view answers).1.inscriptionRequests,
      Available dispatched included node.db request := by
  rcases @aggregatorLoopIteration_cases _ config node.db.view answers
    with ⟨sequence, -, hdb⟩ | ⟨op, hop, hok, hdb⟩
  · rw [hdb]
    exact h.requests
  · rw [hdb]
    -- what an operation to commit batches is about has inclusion data
    have hready : op.getInscriptionRequestType = .commitL1BatchOnchain →
        ∀ batch ∈ op.getL1BatchesDetail, Dispatched dispatched node.db batch.number batch.blobId ∧
          Included included batch.blobId := by
      intro htype batch hbatch
      rcases getNextReadyOperation_eq_some hop with ⟨-, k, rfl⟩ | ⟨-, k, rfl⟩
      · cases htype
      · obtain ⟨row, hrow, hkey, hdata, hblob⟩ := blob_of_ready (List.mem_of_mem_take hbatch)
        obtain ⟨hnumber, hproof⟩ := Prod.mk.inj hkey
        obtain ⟨hdispatched, hincluded⟩ := h.rows row hrow hproof
        rw [hblob, ← hnumber]
        exact ⟨hdispatched, hincluded hdata⟩
    have hstart : ∀ request ∈ node.db.view.inscriptionRequests,
        Available dispatched included node.db request := h.requests
    refine (saveRequests_invariant
      (I := fun db batches =>
        (∀ request ∈ db.inscriptionRequests, Available dispatched included node.db request) ∧
          batches ⊆ op.getL1BatchesDetail) ?_ ⟨hstart, .refl _⟩ hok).1
    rintro db batch rest message fee db' ⟨hrequests, hsubset⟩ hmessage hinsert
    refine ⟨?_, List.Subset.trans (List.subset_cons_self _ _) hsubset⟩
    rw [(savedRequest_tables hinsert).1]
    intro request hrequest
    rcases List.mem_append.1 hrequest with hold | hnew
    · exact hrequests request hold
    · rw [List.mem_singleton.1 hnew]
      intro htype
      obtain ⟨hdispatched, hincluded⟩ := hready htype batch (hsubset List.mem_cons_self)
      simp only at htype
      rw [htype] at hmessage
      obtain ⟨hash, -, rfl⟩ := Option.map_eq_some_iff.1 hmessage
      exact ⟨_, batch.number, rfl, rfl, hdispatched, hincluded⟩

include h in
theorem NodeSound.other (e : SenderEvent) :
    NodeSound dispatched included
      { node with db := { node.db with sender := node.db.view.step e } } := by
  have hrequests : ∀ request ∈ (node.db.view.step e).inscriptionRequests,
      Available dispatched included node.db request := by
    by_cases he : ∃ config answers, e = .iterate config answers
    · obtain ⟨config, answers, rfl⟩ := he
      exact h.iterate config answers
    · push Not at he
      intro request' hrequest' htype
      obtain ⟨request, hrequest, hsame, hmessage⟩ := SenderDb.step_requests he request' hrequest'
      rw [hmessage]
      exact h.requests request hrequest (hsame.symm.trans htype)
  exact ⟨h.keys, h.rows, h.statements, h.fetched, h.asked, hrequests⟩

/-! ### Steps -/

theorem fetched_of_mem_getReadyForDaDispatchL1Batches {limit : ℕ} {batch : L1BatchDA}
    (h : batch ∈ getReadyForDaDispatchL1Batches db limit) :
    db.pubdataInput.lookup batch.l1BatchNumber = some batch.pubdata := by
  obtain ⟨r, hr, rfl⟩ := List.mem_map.1 h
  obtain ⟨-, hwhere⟩ := List.mem_filter.1 (mem_of_mem_lowest hr)
  obtain ⟨-, -, -, hsome⟩ := of_decide_eq_true hwhere
  obtain ⟨pubdata, hpubdata⟩ := Option.isSome_iff_exists.1 hsome
  simp only [hpubdata, Option.getD_some]

/-- **The condition.**  When the inclusion of the blob of a batch is polled for, the client is
asked, or it has answered for this blob before. -/
def AsksClient (t : DaTrace Address) : DaEvent → Prop
  | .answerInclusion _ =>
    match t.node.poll.asked with
    | some blob => t.node.config.useDummyInclusionData = true ∨ Included t.included blob.blobId
    | none => True
  | _ => True

instance (t : DaTrace Address) (e : DaEvent) : Decidable (AsksClient t e) := by
  unfold AsksClient Included
  split
  · split <;> infer_instance
  · infer_instance

include h

variable {rest : List L1BatchDA}

theorem NodeSound.insertBlob {sentAt : ℕ}
    (hblob : node.blob = .inserting number blobId sentAt rest) (verdict : Verdict) :
    NodeSound dispatched included (node.insertBlob number blobId sentAt rest verdict) := by
  have hsound : (DaStatement.insert number false blobId sentAt).Sound dispatched
    included node.db := by
    refine h.statements _ ?_
    rw [DaNode.statements, hblob]
    exact List.mem_append_left _
      (List.mem_append_left _ (List.mem_append_left _ List.mem_cons_self))
  have hexecuted := h.execute hsound verdict
  have hbatches : rest ⊆
      (node.execute (.insert number false blobId sentAt) verdict).1.blob.batches := by
    rw [(node.execute_tasks _ verdict).1, hblob]
    exact .refl _
  obtain ⟨blob, hnext, heq⟩ := node.insertBlob_eq number blobId sentAt verdict rest
  rw [heq]
  rcases hnext with rfl | rfl | rfl
  · exact hexecuted.tasks (List.nil_subset _) (.refl _) (.refl _) (List.nil_subset _) fun _ hb => hb
  all_goals exact hexecuted.tasks (List.nil_subset _) (.refl _) (.refl _) hbatches fun _ hb => hb

theorem NodeSound.insertProof (number : ℕ) (blobId : Utf8) (sentAt : ℕ) (rest : List ℕ)
    (verdict : Verdict) :
    NodeSound dispatched included (node.insertProof number blobId sentAt rest verdict) := by
  have hsound : (DaStatement.insert number true blobId sentAt).Sound dispatched included node.db :=
    trivial
  obtain ⟨proof, hnext, heq⟩ := node.insertProof_eq number blobId sentAt verdict rest
  rw [heq]
  rcases hnext with rfl | rfl
  all_goals
    exact (h.execute hsound verdict).tasks (.refl _) (List.nil_subset _) (.refl _) (.refl _)
      fun _ hb => hb

theorem NodeSound.polled {poll : PollTask} (hstatements : poll.statements = [])
    (hasked : poll.asked = none) : NodeSound dispatched included { node with poll } := by
  refine h.tasks (.refl _) (.refl _) ?_ (.refl _) fun blob hb => ?_
  · rw [hstatements]
    exact List.nil_subset _
  · rw [hasked] at hb
    cases hb

omit h

theorem PollTask.statements_next (isProof : Bool) : (PollTask.next isProof).statements = [] := by
  cases isProof <;> rfl

theorem PollTask.asked_next (isProof : Bool) : (PollTask.next isProof).asked = none := by
  cases isProof <;> rfl

section

variable (h : NodeSound dispatched included node)
include h

theorem NodeSound.saveInclusion {isProof : Bool} {inclusionData : Bytes}
    (hpoll : node.poll = .saving isProof number inclusionData) (verdict : Verdict) :
    NodeSound dispatched included (node.saveInclusion isProof number inclusionData verdict) := by
  have hsound : (DaStatement.saveInclusionData number isProof inclusionData).Sound
    dispatched included
      node.db := by
    refine h.statements _ ?_
    rw [DaNode.statements, hpoll]
    exact List.mem_append_left _ (List.mem_append_right _ List.mem_cons_self)
  have hexecuted := h.execute hsound verdict
  obtain ⟨poll, rfl | rfl | rfl, heq⟩ := node.saveInclusion_eq number verdict isProof inclusionData
  · exact heq ▸ hexecuted.polled rfl rfl
  · exact heq ▸ hexecuted.polled (PollTask.statements_next _) (PollTask.asked_next _)
  · exact heq ▸ hexecuted.polled rfl rfl

theorem NodeSound.dispatchBlob {batch : L1BatchDA}
    (hblob : node.blob = .dispatching (batch :: rest)) (blobId : Utf8) (sentAt : ℕ) :
    NodeSound ((batch.l1BatchNumber, batch.pubdata, blobId) :: dispatched) included
      { node with blob := .inserting batch.l1BatchNumber blobId sentAt rest } := by
  have hbatches : node.blob.batches = batch :: rest := by
    rw [hblob]
    rfl
  refine h.frame (List.subset_cons_self _ _) (.refl _) rfl (fun _ _ hp => hp) ?_ ?_
    (fun _ hb => hb) rfl
  · intro statement hstatement
    simp only [DaNode.statements, List.mem_append] at hstatement ⊢
    rcases hstatement with ((hnew | hproof) | hpoll) | hlate
    · rw [List.mem_singleton.1 hnew]
      exact .inr ⟨batch.pubdata, List.mem_cons_self,
        h.fetched batch (hbatches ▸ List.mem_cons_self)⟩
    · exact .inl (.inl (.inl (.inr hproof)))
    · exact .inl (.inl (.inr hpoll))
    · exact .inl (.inr hlate)
  · rw [hbatches]
    exact List.subset_cons_self _ _

theorem NodeSound.answerInclusion {isProof : Bool} {blob : DaRow}
    (hpoll : node.poll = .asking isProof blob) (hincluded : included ⊆ included')
    (hasked : isProof = false → Included included' blob.blobId) (data : Bytes) :
    NodeSound dispatched included'
      { node with poll := .saving isProof blob.l1BatchNumber data } := by
  refine h.frame (.refl _) hincluded rfl (fun _ _ hp => hp) ?_ (.refl _)
    nofun rfl
  intro statement hstatement
  simp only [DaNode.statements, List.mem_append] at hstatement ⊢
  rcases hstatement with ((hblob | hproof) | hnew) | hlate
  · exact .inl (.inl (.inl (.inl hblob)))
  · exact .inl (.inl (.inl (.inr hproof)))
  · rw [List.mem_singleton.1 hnew]
    cases isProof with
    | true => exact .inr trivial
    | false =>
      obtain ⟨row, hrow, hkey, hblobId⟩ := h.asked blob (by rw [hpoll]; rfl)
      exact .inr ⟨row, hrow, hkey, hblobId ▸ hasked rfl⟩
  · exact .inl (.inr hlate)

theorem NodeSound.late {i : ℕ} (hlate : node.late[i]? = some statement) :
    NodeSound dispatched included { node with
      db := ((node.db.execute statement).map Prod.fst).getD node.db
      late := node.late.eraseIdx i } := by
  have hdropped : ∀ {db : DaDb Address}, NodeSound dispatched included { node with db } →
      NodeSound dispatched included { node with db, late := node.late.eraseIdx i } := by
    intro db hdb
    refine hdb.frame (.refl _) (.refl _) rfl (fun _ _ hp => hp)
      (fun s hs => .inl ?_) (.refl _) (fun _ hb => hb) rfl
    exact (List.mem_append.1 hs).elim (List.mem_append_left _)
      fun hs => List.mem_append_right _ ((List.eraseIdx_sublist _ _).subset hs)
  have hsound := h.statements statement (List.mem_append_right _ (List.mem_of_getElem? hlate))
  cases hexecute : node.db.execute statement with
  | none => exact hdropped h
  | some result => exact hdropped (h.executed hsound hexecute)

theorem NodeSound.step {e : DaEvent} (hstep : node.step e = some node')
    (hcond : AsksClient ⟨node, dispatched, included⟩ e) :
    NodeSound (node.dispatches e ++ dispatched) (node.includes e ++ included) node' := by
  cases DaNode.stepped_of_step hstep with
  | other e => exact h.other e
  | savePubdata number pubdata =>
    refine h.frame (.refl _) (.refl _) rfl (fun n p hp => ?_)
      (fun _ hs => .inl hs) (.refl _) (fun _ hb => hb) rfl
    rw [List.lookup_append, hp]
    rfl
  | saveProofGeneration =>
    exact h.frame (.refl _) (.refl _) rfl (fun _ _ hp => hp)
      (fun _ hs => .inl hs) (.refl _) (fun _ hb => hb) rfl
  | start | restart =>
    exact h.tasks (List.nil_subset _) (List.nil_subset _) (List.nil_subset _) (List.nil_subset _)
      nofun
  | fetchBatches =>
    have hdone : NodeSound dispatched included { node with blob := .done } :=
      h.tasks (List.nil_subset _) (.refl _) (.refl _) (List.nil_subset _)
        fun _ hb => hb
    exact ⟨hdone.keys, hdone.rows, hdone.statements,
      fun _ => fetched_of_mem_getReadyForDaDispatchL1Batches, hdone.asked, hdone.requests⟩
  | dispatchBlob hblob blobId sentAt =>
    simp only [DaNode.dispatches, hblob]
    exact h.dispatchBlob hblob blobId sentAt
  | insertBlob hblob verdict => exact h.insertBlob hblob verdict
  | @checkBlob number blobId rest hblob =>
    have hbatches : rest ⊆ node.blob.batches := by
      rw [hblob]
      exact .refl _
    exact h.tasks (List.nil_subset _) (.refl _) (.refl _) hbatches
      fun _ hb => hb
  | endBlob he =>
    have hdone : NodeSound dispatched included { node with blob := .done } :=
      h.tasks (List.nil_subset _) (.refl _) (.refl _) (List.nil_subset _)
        fun _ hb => hb
    rcases he with rfl | rfl <;> exact hdone
  | fetchRealProofs | skipProof | fetchDummyProofs | endProof =>
    exact h.tasks (.refl _) (List.nil_subset _) (.refl _) (.refl _)
      fun _ hb => hb
  | dispatchProof =>
    refine h.frame (.refl _) (.refl _) rfl (fun _ _ hp => hp) ?_
      (.refl _) (fun _ hb => hb) rfl
    intro statement hstatement
    simp only [DaNode.statements, List.mem_append] at hstatement ⊢
    rcases hstatement with ((hblob | hnew) | hpoll) | hlate
    · exact .inl (.inl (.inl (.inl hblob)))
    · rw [List.mem_singleton.1 hnew]
      exact .inr trivial
    · exact .inl (.inl (.inr hpoll))
    · exact .inl (.inr hlate)
  | insertProof _ verdict => exact h.insertProof _ _ _ _ verdict
  | @fetchAwaiting isProof blob hfirst =>
    have hdone : NodeSound dispatched included { node with poll := .done } := h.polled rfl rfl
    refine ⟨hdone.keys, hdone.rows, hdone.statements, hdone.fetched, ?_, hdone.requests⟩
    intro asked hasked
    obtain ⟨hrow, hwhere⟩ := List.mem_filter.1 (mem_of_mem_lowest (List.mem_of_mem_head? hfirst))
    cases isProof with
    | true => cases hasked
    | false =>
      cases hasked
      exact ⟨blob, hrow, Prod.ext rfl (of_decide_eq_true hwhere).2, rfl⟩
  | @answerInclusion isProof blob inclusionData data hpoll hdata =>
    by_cases hasks : node.config.useDummyInclusionData = true
    · rw [if_pos hasks] at hdata
      have hincludes : node.includes (.answerInclusion inclusionData) = [(blob.blobId, data)] := by
        simp only [DaNode.includes, hpoll, hasks, hdata, if_true]
      rw [hincludes]
      exact h.answerInclusion hpoll (List.subset_cons_self _ _) (fun _ => List.mem_cons_self) data
    · -- empty inclusion data, without asking
      refine h.answerInclusion hpoll (List.subset_append_right _ _) (fun hproof => ?_) data
      subst hproof
      simp only [AsksClient, hpoll, PollTask.asked] at hcond
      exact List.map_subset _ (List.subset_append_right _ _) (hcond.resolve_left hasks)
  | saveInclusion hpoll verdict => exact h.saveInclusion hpoll verdict
  | nextPoll isProof he =>
    have hnext := h.polled (PollTask.statements_next isProof) (PollTask.asked_next isProof)
    rcases he with rfl | rfl | rfl <;> exact hnext
  | endPoll he =>
    have hdone : NodeSound dispatched included { node with poll := .done } := h.polled rfl rfl
    rcases he with rfl | rfl <;> exact hdone
  | late hlate => exact h.late hlate

end

theorem NodeSound.initial (config : DADispatcherConfig) :
    NodeSound [] [] (DaNode.initial Address config) where
  keys := List.nodup_nil
  rows _ hrow := by cases hrow
  statements _ hstatement := by cases hstatement
  fetched _ hbatch := by cases hbatch
  asked _ hasked := by cases hasked
  requests _ hrequest := by cases hrequest

/-- **Committed batches are available.**  In every run in which the client is asked: once there is a
request to commit a batch, the client has its public data and has returned inclusion data for its
blob. -/
theorem commitRequests_available {es : List DaEvent} {t : DaTrace Address}
    (hrun : Run ((daTraceStep Address).under AsksClient) (DaTrace.initial Address config) es t) :
    ∀ request ∈ t.node.db.sender.inscriptionRequests,
      Available t.dispatched t.included t.node.db request := by
  refine (hrun.invariant (I := fun t => NodeSound t.dispatched t.included t.node) ?_
    (.initial config)).requests
  rintro t e t' h ⟨hstep, hcond⟩
  obtain ⟨node', hnode, rfl⟩ := Option.map_eq_some_iff.1 hstep
  exact h.step hnode hcond

def NeverAsks (t : DaTrace Address) (_ : DaEvent) : Prop :=
  t.node.config.useDummyInclusionData = false
deriving Decidable

theorem DaNode.includes_eq_nil {node : DaNode Address}
    (hflag : node.config.useDummyInclusionData = false) (e : DaEvent) : node.includes e = [] := by
  unfold DaNode.includes
  split
  · split
    · rw [hflag, if_neg Bool.false_ne_true]
    · rfl
  · rfl

/-- **Without dummy inclusion data no request to commit is available**: the client never answers. -/
theorem commitRequests_unavailable {es : List DaEvent} {t : DaTrace Address}
    (hrun : Run ((daTraceStep Address).under NeverAsks) (DaTrace.initial Address config) es t) :
    ∀ request ∈ t.node.db.sender.inscriptionRequests,
      request.requestType = .commitL1BatchOnchain →
        ¬ Available t.dispatched t.included t.node.db request := by
  have hincluded : t.included = [] := by
    refine hrun.invariant (I := fun t => t.included = []) ?_ rfl
    rintro t e t' h ⟨hstep, hflag⟩
    obtain ⟨node', -, rfl⟩ := Option.map_eq_some_iff.1 hstep
    show t.node.includes e ++ t.included = []
    rw [DaNode.includes_eq_nil hflag, h, List.nil_append]
  intro request _ htype havailable
  obtain ⟨reference, number, -, -, -, hanswered⟩ := havailable htype
  rw [hincluded] at hanswered
  cases hanswered

end Available

def sampleCommitAvailable : List DaEvent :=
  sampleSealed.map .other ++
    [.savePubdata 1 [1, 2, 3], .start, .fetchBatches, .dispatchBlob sampleBlobId 100,
      .insertBlob .done, .fetchAwaiting, .answerInclusion (some [7]), .saveInclusion .done,
      .other sampleIteration]

theorem commitRequests_available_first :
    ∃ t, Run ((daTraceStep SampleAddress).under AsksClient)
        (DaTrace.initial SampleAddress sampleDaConfig) sampleCommitAvailable t ∧
      t.dispatched = [(1, [1, 2, 3], sampleBlobId)] ∧ t.included = [(sampleBlobId, [7])] ∧
      t.node.db.sender.inscriptionRequests.map (fun request => request.requestType)
        = [.commitL1BatchOnchain] ∧
      ∀ request ∈ t.node.db.sender.inscriptionRequests,
        Available t.dispatched t.included t.node.db request :=
  Run.witnessUnder (P := fun t => t.dispatched = [(1, [1, 2, 3], sampleBlobId)] ∧
      t.included = [(sampleBlobId, [7])] ∧ t.node.db.sender.inscriptionRequests.map
        (fun request => request.requestType) = [.commitL1BatchOnchain])
    (fun _ hrun ⟨hdispatched, hincluded, hrequests⟩ =>
      ⟨hdispatched, hincluded, hrequests, commitRequests_available hrun⟩) (by decide +kernel)

/-- The same events without dummy inclusion data. -/
theorem commitRequests_unavailable_first :
    ∃ t, Run ((daTraceStep SampleAddress).under NeverAsks)
        (DaTrace.initial SampleAddress { sampleDaConfig with useDummyInclusionData := false })
        sampleCommitAvailable t ∧
      t.node.db.sender.inscriptionRequests.map (fun request => request.requestType)
        = [.commitL1BatchOnchain] ∧
      ∀ request ∈ t.node.db.sender.inscriptionRequests,
        request.requestType = .commitL1BatchOnchain →
          ¬ Available t.dispatched t.included t.node.db request :=
  Run.witnessUnder (fun _ hrun hrequests => ⟨hrequests, commitRequests_unavailable hrun⟩)
    (by decide +kernel)

/-- **The flag is read the other way round.**  Without dummy inclusion data the client is never
asked, and the request is created all the same. -/
theorem commitRequests_unasked :
    ∃ t, Run (daTraceStep SampleAddress)
        (DaTrace.initial SampleAddress { sampleDaConfig with useDummyInclusionData := false })
        sampleCommitAvailable t ∧
      t.node.config.useDummyInclusionData = false ∧ t.included = [] ∧
      t.node.db.sender.inscriptionRequests.map (fun request => request.requestType)
        = [.commitL1BatchOnchain] ∧
      ¬ ∀ request ∈ t.node.db.sender.inscriptionRequests,
        Available t.dispatched t.included t.node.db request := by
  refine Run.witness (P := fun t => t.node.config.useDummyInclusionData = false ∧ t.included = [] ∧
    t.node.db.sender.inscriptionRequests.map (fun request => request.requestType)
      = [.commitL1BatchOnchain]) ?_ (by decide +kernel)
  rintro t - ⟨hconfig, hincluded, hrequests⟩
  refine ⟨hconfig, hincluded, hrequests, fun hall => ?_⟩
  obtain ⟨request, hrequest, htype⟩ : ∃ request ∈ t.node.db.sender.inscriptionRequests,
      request.requestType = .commitL1BatchOnchain :=
    List.mem_map.1 (hrequests ▸ List.mem_cons_self)
  obtain ⟨reference, number, -, -, -, hanswered⟩ := hall request hrequest htype
  rw [hincluded] at hanswered
  cases hanswered
