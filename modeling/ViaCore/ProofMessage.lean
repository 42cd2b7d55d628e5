/-
The proof message of a batch.

A proof message names the reveal transaction that put the commitment of the batch on the chain, and
the blob with the proof.  A commit request can have any number of attempts, one of which is
confirmed in the end.  The query behind the message reads the attempt that was created last, and the
id of its *commit* transaction.

* `proofMessages_refer` — what the messages say, in every run of the node.
-/
import ViaCore.BroadcastRecord
import ViaCore.ProofOrder

section ProofMessage

variable {Address : Type} {db db' : SenderDb Address}

def Confirms (db : SenderDb Address) (requestId : ℕ) (attempt : InscriptionHistoryRow) : Prop :=
  attempt ∈ db.history ∧ attempt.inscriptionRequestId = requestId
    ∧ ∃ request ∈ db.inscriptionRequests, request.id = requestId
      ∧ request.confirmedInscriptionsRequestHistoryId = some attempt.id

/-- The commit request of the batch is confirmed, the last of its attempts has the given commit
transaction, and the proof of the batch is dispatched as the given blob. -/
structure Announced (db : SenderDb Address) (number commitId : ℕ) (txid : Txid) (blobId : Utf8) :
    Prop where
  confirmed : ∃ attempt, Confirms db commitId attempt
  latest : (latestHistory db commitId).map InscriptionHistoryRow.commitTxId = some txid
  blob : ∃ blob ∈ db.dataAvailability, blob.key = (number, true) ∧ blob.blobId = blobId

/-- The request with this id is a proof request, and its message announces the batch of the row. -/
def SavedMessage (db : SenderDb Address) (ins : BatchInscriptionRow) (id : ℕ) : Prop :=
  ∃ request ∈ db.inscriptionRequests, request.id = id
    ∧ request.requestType = .commitProofOnchain
    ∧ ∃ reference, request.inscriptionMessage = .proofDAReference reference
      ∧ Announced db ins.l1BatchNumber ins.commitL1BatchInscriptionId reference.l1BatchRevealTxid
        reference.blobId

/-! ### What no step undoes -/

variable (db db') in
/-- Requests keep their messages, confirmed ones stay as they are and have no further attempts, and
blobs keep their ids. -/
structure Evolves : Prop where
  kept : ∀ request ∈ db.inscriptionRequests, ∃ request' ∈ db'.inscriptionRequests,
    request'.id = request.id ∧ request'.requestType = request.requestType
      ∧ request'.inscriptionMessage = request.inscriptionMessage
  confirmed : ∀ request ∈ db.inscriptionRequests, request.IsConfirmed →
    request ∈ db'.inscriptionRequests
  attempts : ∀ request ∈ db.inscriptionRequests, request.IsConfirmed →
    db'.history.filter (fun row => row.inscriptionRequestId = request.id)
      = db.history.filter fun row => row.inscriptionRequestId = request.id
  blobs : ∀ blob ∈ db.dataAvailability, ∃ blob' ∈ db'.dataAvailability,
    blob'.key = blob.key ∧ blob'.blobId = blob.blobId

theorem Evolves.of_subset (hrequests : db.inscriptionRequests ⊆ db'.inscriptionRequests)
    (hhistory : db'.history = db.history)
    (hblobs : ∀ blob ∈ db.dataAvailability, ∃ blob' ∈ db'.dataAvailability,
      blob'.key = blob.key ∧ blob'.blobId = blob.blobId) : Evolves db db' where
  kept := fun request hrequest => ⟨request, hrequests hrequest, rfl, rfl, rfl⟩
  confirmed := fun _ hrequest _ => hrequests hrequest
  attempts := fun _ _ _ => by rw [hhistory]
  blobs := hblobs

variable {requestId number : ℕ} {ins : BatchInscriptionRow}
  {request : InscriptionRequestRow Address}

theorem Announced.evolves {commitId : ℕ} {txid : Txid} {blobId : Utf8}
    (h : Announced db number commitId txid blobId) (hdb : Evolves db db') :
    Announced db' number commitId txid blobId := by
  obtain ⟨⟨attempt, hmem, hown, request, hrequest, rfl, hattempt⟩, hlatest, blob, hblob,
    hkey, hid⟩ := h
  have hconfirmed : request.IsConfirmed := by
    rw [InscriptionRequestRow.IsConfirmed, hattempt]
    exact Option.some_ne_none _
  have hattempts := hdb.attempts request hrequest hconfirmed
  refine ⟨⟨attempt, ?_, hown, request, hdb.confirmed request hrequest hconfirmed, rfl, hattempt⟩,
    ?_, ?_⟩
  · have hmem' : attempt ∈ db'.history.filter
        fun row => row.inscriptionRequestId = request.id := by
      rw [hattempts]
      exact List.mem_filter.2 ⟨hmem, decide_eq_true hown⟩
    exact (List.mem_filter.1 hmem').1
  · rw [← hlatest, latestHistory, hattempts, latestHistory]
  · obtain ⟨blob', hblob', hkey', hid'⟩ := hdb.blobs blob hblob
    exact ⟨blob', hblob', hkey'.trans hkey, hid'.trans hid⟩

theorem SavedMessage.evolves {ins' : BatchInscriptionRow} {id : ℕ} (h : SavedMessage db ins id)
    (hdb : Evolves db db') (hnumber : ins'.l1BatchNumber = ins.l1BatchNumber)
    (hcommit : ins'.commitL1BatchInscriptionId = ins.commitL1BatchInscriptionId) :
    SavedMessage db' ins' id := by
  obtain ⟨request, hrequest, rfl, htype, reference, hmessage, hannounced⟩ := h
  obtain ⟨request', hrequest', hid, htype', hmessage'⟩ := hdb.kept request hrequest
  refine ⟨request', hrequest', hid, htype'.trans htype, reference, hmessage'.trans hmessage, ?_⟩
  rw [hnumber, hcommit]
  exact hannounced.evolves hdb

/-! ### The tables -/

variable (db) in
structure MessageInv : Prop where
  keyed : Keyed db
  historyIds : (db.history.map InscriptionHistoryRow.id).Nodup
  historyBound : ∀ row ∈ db.history, row.id ≤ db.historySequence
  confirmedRow : ∀ request ∈ db.inscriptionRequests, ∀ id,
    request.confirmedInscriptionsRequestHistoryId = some id →
      ∃ row ∈ db.history, row.id = id ∧ row.inscriptionRequestId = request.id
  saved : ∀ ins ∈ db.batchInscriptions, ∀ id, ins.commitProofInscriptionId = some id →
    SavedMessage db ins id
  owner : ∀ request ∈ db.inscriptionRequests, request.requestType = .commitProofOnchain →
    ∃ ins ∈ db.batchInscriptions, ins.commitProofInscriptionId = some request.id
  once : ∀ ins ∈ db.batchInscriptions, ∀ ins' ∈ db.batchInscriptions, ∀ id,
    ins.commitProofInscriptionId = some id → ins'.commitProofInscriptionId = some id → ins = ins'

variable (db) in
def Unconfirmed (requestId : ℕ) : Prop :=
  ∃ request ∈ db.inscriptionRequests, request.id = requestId ∧ ¬ request.IsConfirmed

namespace MessageInv

variable (h : MessageInv db)

include h

theorem proofId_le {id : ℕ} (hins : ins ∈ db.batchInscriptions)
    (hid : ins.commitProofInscriptionId = some id) : id ≤ db.requestSequence := by
  obtain ⟨request, hrequest, rfl, -⟩ := h.saved ins hins id hid
  exact h.keyed.bound _ (List.mem_map_of_mem hrequest)

theorem other (hkeyed : Keyed db') (hdb : Untouched db db') : MessageInv db' := by
  have hevolves : Evolves db db' :=
    .of_subset (by rw [hdb.inscriptionRequests]; exact .refl _) hdb.history hdb.blobs
  refine ⟨hkeyed, ?_, ?_, ?_, ?_, ?_, ?_⟩
  · rw [hdb.history]
    exact h.historyIds
  · rw [hdb.history, hdb.historySequence]
    exact h.historyBound
  · rw [hdb.inscriptionRequests, hdb.history]
    exact h.confirmedRow
  · intro ins hins id hid
    rw [hdb.batchInscriptions] at hins
    exact (h.saved ins hins id hid).evolves hevolves rfl rfl
  · rw [hdb.inscriptionRequests, hdb.batchInscriptions]
    exact h.owner
  · rw [hdb.batchInscriptions]
    exact h.once

theorem rollback {sequence : ℕ} (hle : db.requestSequence ≤ sequence) :
    MessageInv { db with requestSequence := sequence } :=
  h.other (h.keyed.rollback hle)
    ⟨rfl, rfl, rfl, rfl, fun blob hblob => ⟨blob, hblob, rfl, rfl⟩⟩

omit h

variable {config : ViaBtcSenderConfig} {batch : ViaBtcL1BlockDetails}

section Saving

variable {message : InscriptionMessage Address} {fee : ℕ}

variable {requestType : ViaBtcInscriptionRequestType}

theorem evolves_saved (hinsert : SavesRequest db requestType message fee number db') :
    Evolves db db' := by
  obtain ⟨hrequests, hhistory, -⟩ := savedRequest_tables hinsert
  refine .of_subset ?_ hhistory ?_
  · rw [hrequests]
    exact List.subset_append_left _ _
  · rw [(savedRequest hinsert).dataAvailability]
    exact fun blob hblob => ⟨blob, hblob, rfl, rfl⟩

include h in
theorem save (hinsert : SavesRequest db requestType message fee number db') (hkeyed : Keyed db')
    (hsaved : ∀ ins ∈ db'.batchInscriptions, ∀ id, ins.commitProofInscriptionId = some id →
      SavedMessage db' ins id)
    (howner : ∀ request ∈ db'.inscriptionRequests, request.requestType = .commitProofOnchain →
      ∃ ins ∈ db'.batchInscriptions, ins.commitProofInscriptionId = some request.id)
    (honce : ∀ ins ∈ db'.batchInscriptions, ∀ ins' ∈ db'.batchInscriptions, ∀ id,
      ins.commitProofInscriptionId = some id → ins'.commitProofInscriptionId = some id →
        ins = ins') : MessageInv db' := by
  obtain ⟨hrequests, hhistory, hsequence⟩ := savedRequest_tables hinsert
  refine ⟨hkeyed, ?_, ?_, ?_, hsaved, howner, honce⟩
  · rw [hhistory]
    exact h.historyIds
  · rw [hhistory, hsequence]
    exact h.historyBound
  · intro request hrequest id hid
    rw [hrequests] at hrequest
    rw [hhistory]
    rcases List.mem_append.1 hrequest with hold | hnew
    · exact h.confirmedRow request hold id hid
    · rw [List.mem_singleton.1 hnew] at hid
      cases hid

include h in
theorem commit (hnumber : number ≠ 0)
    (hinsert : SavesRequest db .commitL1BatchOnchain message fee number db') : MessageInv db' := by
  obtain ⟨hrequests, -, -⟩ := savedRequest_tables hinsert
  obtain ⟨-, -, hrows⟩ := savedRequest_commit hinsert
  -- the new row has no proof request
  have hold : ∀ ins ∈ db'.batchInscriptions, ∀ id, ins.commitProofInscriptionId = some id →
      ins ∈ db.batchInscriptions := by
    intro ins hins id hid
    rw [hrows] at hins
    rcases List.mem_append.1 hins with hins | hnew
    · exact hins
    · rw [List.mem_singleton.1 hnew] at hid
      cases hid
  refine h.save hinsert (h.keyed.commit hnumber hinsert) ?_ ?_ ?_
  · intro ins hins id hid
    exact (h.saved ins (hold ins hins id hid) id hid).evolves (evolves_saved hinsert) rfl rfl
  · intro request hrequest htype
    rw [hrequests] at hrequest
    rcases List.mem_append.1 hrequest with hrequest | hnew
    · obtain ⟨ins, hins, hid⟩ := h.owner request hrequest htype
      rw [hrows]
      exact ⟨ins, List.mem_append_left _ hins, hid⟩
    · rw [List.mem_singleton.1 hnew] at htype
      cases htype
  · intro ins hins ins' hins' id hid hid'
    exact h.once ins (hold ins hins id hid) ins' (hold ins' hins' id hid') id hid hid'

include h in
theorem proof (hready : ∃ ins ∈ db.batchInscriptions, ins.l1BatchNumber = batch.number
      ∧ Announced db ins.l1BatchNumber ins.commitL1BatchInscriptionId batch.revealTxId batch.blobId)
    (hmessage : constructInscriptionMessage config .commitProofOnchain batch = some message)
    (hinsert : SavesRequest db .commitProofOnchain message fee batch.number db') :
    MessageInv db' := by
  obtain ⟨hrequests, -, -⟩ := savedRequest_tables hinsert
  obtain ⟨-, ⟨row, hrow, hrownumber, hrownone⟩, hrows⟩ := savedRequest_proof hinsert
  obtain ⟨ready, hreadymem, hreadynumber, hannounced⟩ := hready
  have hevolves : Evolves db db' := evolves_saved hinsert
  refine h.save hinsert (h.keyed.proof hinsert) ?_ ?_ ?_
  · intro ins' hins' id hid
    rw [hrows] at hins'
    obtain ⟨ins, hins, rfl⟩ := List.mem_map.1 hins'
    rcases proofId_withProofRequest hid with ⟨hnumber, rfl⟩ | hid
    · obtain rfl := h.keyed.row_unique hins hreadymem (hnumber.trans hreadynumber.symm)
      rw [SavedMessage, withProofRequest_l1BatchNumber, withProofRequest_commitId, hrequests]
      refine ⟨_, List.mem_append_right _ (List.mem_singleton_self _), rfl, rfl, _,
        (Option.some.inj hmessage).symm, hannounced.evolves hevolves⟩
    · exact (h.saved ins hins id hid).evolves hevolves (withProofRequest_l1BatchNumber _ _ _)
        (withProofRequest_commitId _ _ _)
  · intro request hrequest htype
    rw [hrequests] at hrequest
    rw [hrows]
    rcases List.mem_append.1 hrequest with hrequest | hnew
    · obtain ⟨ins, hins, hid⟩ := h.owner request hrequest htype
      refine ⟨_, List.mem_map_of_mem hins, ?_⟩
      rw [withProofRequest, if_neg fun hnone => by cases hid.symm.trans hnone.2]
      exact hid
    · refine ⟨_, List.mem_map_of_mem hrow, ?_⟩
      rw [List.mem_singleton.1 hnew, withProofRequest, if_pos ⟨hrownumber, hrownone⟩]
  · intro ins₁ hins₁ ins₂ hins₂ id hid₁ hid₂
    rw [hrows] at hins₁ hins₂
    obtain ⟨row₁, hrow₁, rfl⟩ := List.mem_map.1 hins₁
    obtain ⟨row₂, hrow₂, rfl⟩ := List.mem_map.1 hins₂
    -- the new id is above the old ones
    rcases proofId_withProofRequest hid₁ with ⟨hnumber₁, hnew₁⟩ | hold₁
    · rcases proofId_withProofRequest hid₂ with ⟨hnumber₂, -⟩ | hold₂
      · rw [h.keyed.row_unique hrow₁ hrow₂ (hnumber₁.trans hnumber₂.symm)]
      · have hle := h.proofId_le hrow₂ hold₂
        omega
    · rcases proofId_withProofRequest hid₂ with ⟨-, hnew₂⟩ | hold₂
      · have hle := h.proofId_le hrow₁ hold₁
        omega
      · rw [h.once row₁ hrow₁ row₂ hrow₂ id hold₁ hold₂]

end Saving

include h

/-- **A batch that is ready** for a proof request is announced: the last attempt is read, with its
commit transaction in the place of the reveal transaction. -/
theorem announced_of_ready (hbatch : batch ∈ readyForCommitProofL1Batches config db) :
    ∃ ins ∈ db.batchInscriptions, ins.l1BatchNumber = batch.number
      ∧ Announced db ins.l1BatchNumber ins.commitL1BatchInscriptionId batch.revealTxId
        batch.blobId := by
  obtain ⟨r, hr, rfl⟩ := List.mem_map.1 hbatch
  obtain ⟨row, ins, da, request, rfl, -, ⟨hins, hnumber, -⟩, ⟨hda, hkey⟩, hrequest, hid,
    hconfirmed⟩ := of_mem_readyForCommitProofRows (mem_of_mem_lowest hr)
  obtain ⟨historyId, hhistoryId⟩ := Option.ne_none_iff_exists'.1 hconfirmed
  obtain ⟨attempt, hattempt, hattemptId, hown⟩ :=
    h.confirmedRow request hrequest historyId hhistoryId
  -- there is an attempt, so there is a last one
  obtain ⟨latest, hlatest⟩ : ∃ latest, latestHistory db request.id = some latest := by
    rw [← Option.ne_none_iff_exists', latestHistory, ne_eq, List.argmax_eq_none]
    exact List.ne_nil_of_mem (List.mem_filter.2 ⟨hattempt, decide_eq_true hown⟩)
  refine ⟨ins, hins, hnumber, ⟨attempt, hattempt, hown.trans hid, request, hrequest, hid, ?_⟩, ?_,
    da, hda, ?_, rfl⟩
  · rw [hhistoryId, hattemptId]
  · rw [← hid, hlatest]
    show some latest.commitTxId = some (((latestHistory db request.id).map _).getD _)
    rw [hlatest]
    rfl
  · rw [hkey, hnumber]

theorem iterate {answers : AggregatorAnswers} :
    MessageInv (aggregatorLoopIteration config db answers).1 := by
  rcases @aggregatorLoopIteration_cases _ config db answers
    with ⟨sequence, hle, hdb⟩ | ⟨op, hop, hok, hdb⟩
  · rw [hdb]
    exact h.rollback hle
  · rw [hdb]
    rcases getNextReadyOperation_eq_some hop with ⟨-, k, rfl⟩ | ⟨-, k, rfl⟩
    · -- the batches that are still to come stay announced while requests are saved
      have hsaved := saveRequests_invariant
        (I := fun db' batches => MessageInv db'
          ∧ ∀ batch ∈ batches, ∃ ins ∈ db'.batchInscriptions, ins.l1BatchNumber = batch.number
            ∧ Announced db' ins.l1BatchNumber ins.commitL1BatchInscriptionId batch.revealTxId
              batch.blobId) ?_
        ⟨h, fun batch hbatch => h.announced_of_ready (List.mem_of_mem_take hbatch)⟩ hok
      · exact hsaved.1
      · rintro db' batch rest message fee db'' ⟨h', hready⟩ hmessage hinsert
        refine ⟨h'.proof (hready batch List.mem_cons_self) hmessage hinsert, fun next hnext => ?_⟩
        obtain ⟨ins, hins, hnumber, hannounced⟩ := hready next (List.mem_cons_of_mem _ hnext)
        obtain ⟨-, -, hrows⟩ := savedRequest_proof hinsert
        refine ⟨withProofRequest batch.number (db'.requestSequence + 1) ins, ?_, ?_, ?_⟩
        · rw [hrows]
          exact List.mem_map_of_mem hins
        · rw [withProofRequest_l1BatchNumber, hnumber]
        · rw [withProofRequest_l1BatchNumber, withProofRequest_commitId]
          exact hannounced.evolves (evolves_saved hinsert)
    · have hsaved := saveRequests_invariant
        (I := fun db' batches => MessageInv db' ∧ ∀ batch ∈ batches, batch.number ≠ 0) ?_
        ⟨h, fun batch hbatch => number_ne_zero_of_mem_ready (List.mem_of_mem_take hbatch)⟩ hok
      · exact hsaved.1
      · rintro db' batch rest message fee db'' ⟨h', hnumbers⟩ - hinsert
        exact ⟨h'.commit (hnumbers batch List.mem_cons_self) hinsert,
          fun next hnext => hnumbers next (List.mem_cons_of_mem _ hnext)⟩

section

variable (hunconfirmed : Unconfirmed db requestId)
include hunconfirmed

theorem ne_of_unconfirmed
    (hrequest : request ∈ db.inscriptionRequests) (hconfirmed : request.IsConfirmed) :
    request.id ≠ requestId := by
  rintro rfl
  obtain ⟨request', hrequest', hid, hnot⟩ := hunconfirmed
  rw [List.inj_on_of_nodup_map h.keyed.requests hrequest' hrequest hid] at hnot
  exact hnot hconfirmed

theorem confirm {last : InscriptionHistoryRow}
    (hlast : last ∈ db.history) (hown : last.inscriptionRequestId = requestId) :
    MessageInv (confirmInscription db requestId last.id) := by
  have hkeyed := h.keyed.frame (frame_confirmInscription db requestId last.id)
  rw [confirmInscription, if_pos (List.any_eq_true.2 ⟨last, hlast, decide_eq_true rfl⟩)] at hkeyed ⊢
  -- only the request changes, and it was not confirmed before
  have hevolves : Evolves db { db with
      inscriptionRequests := db.inscriptionRequests.map fun row =>
        if row.id = requestId then
          { row with confirmedInscriptionsRequestHistoryId := some last.id }
        else row } := by
    refine ⟨fun request hrequest => ⟨_, List.mem_map_of_mem hrequest, ?_⟩,
      fun request hrequest hconfirmed => ?_, fun _ _ _ => rfl,
      fun blob hblob => ⟨blob, hblob, rfl, rfl⟩⟩
    · split <;> exact ⟨rfl, rfl, rfl⟩
    · refine List.mem_map.2 ⟨request, hrequest, ?_⟩
      rw [if_neg (h.ne_of_unconfirmed hunconfirmed hrequest hconfirmed)]
  refine ⟨hkeyed, h.historyIds, h.historyBound, ?_, ?_, ?_, h.once⟩
  · intro request' hrequest' id hid
    obtain ⟨request, hrequest, rfl⟩ := List.mem_map.1 hrequest'
    split at hid
    · rename_i hrequestId
      cases hid
      rw [if_pos hrequestId]
      exact ⟨last, hlast, rfl, hown.trans hrequestId.symm⟩
    · rename_i hrequestId
      rw [if_neg hrequestId]
      exact h.confirmedRow request hrequest id hid
  · intro ins hins id hid
    exact (h.saved ins hins id hid).evolves hevolves rfl rfl
  · intro request' hrequest' htype
    obtain ⟨request, hrequest, rfl⟩ := List.mem_map.1 hrequest'
    split at htype
    · rename_i hrequestId
      rw [if_pos hrequestId]
      exact h.owner request hrequest htype
    · rename_i hrequestId
      rw [if_neg hrequestId]
      exact h.owner request hrequest htype

theorem record (commitTxId revealTxId : Txid) (sentAtBlock createdAt : ℕ) :
    MessageInv (insertInscriptionRequestHistory db commitTxId revealTxId requestId sentAtBlock
      createdAt) := by
  unfold insertInscriptionRequestHistory
  split
  · have hevolves : Evolves db { db with
        history := db.history ++
          [⟨db.historySequence + 1, commitTxId, revealTxId, requestId, sentAtBlock, createdAt⟩]
        historySequence := db.historySequence + 1 } := by
      refine ⟨fun request hrequest => ⟨request, hrequest, rfl, rfl, rfl⟩,
        fun request hrequest _ => hrequest, fun request hrequest hconfirmed => ?_,
        fun blob hblob => ⟨blob, hblob, rfl, rfl⟩⟩
      rw [List.filter_append, List.append_right_eq_self, List.filter_eq_nil_iff]
      intro row hrow
      rw [List.mem_singleton.1 hrow, decide_eq_true_eq]
      exact (h.ne_of_unconfirmed hunconfirmed hrequest hconfirmed).symm
    refine ⟨⟨h.keyed.l1Batches, h.keyed.dataAvailability, h.keyed.batchInscriptions,
      h.keyed.nonzero, h.keyed.requests, h.keyed.bound⟩, ?_, ?_, ?_, ?_, h.owner, h.once⟩
    -- the id comes from the sequence, which is above all rows
    · rw [List.map_append, List.map_singleton]
      refine h.historyIds.append (List.nodup_singleton _) fun id hold hnew => ?_
      obtain ⟨row, hrow, rfl⟩ := List.mem_map.1 hold
      have hle : row.id ≤ db.historySequence := h.historyBound row hrow
      have hid : row.id = db.historySequence + 1 := List.mem_singleton.1 hnew
      omega
    · intro row hrow
      rcases List.mem_append.1 hrow with hold | hnew
      · exact (h.historyBound row hold).trans (Nat.le_succ _)
      · rw [List.mem_singleton.1 hnew]
    · intro request hrequest id hid
      obtain ⟨row, hrow, hrowId, hown⟩ := h.confirmedRow request hrequest id hid
      exact ⟨row, List.mem_append_left _ hrow, hrowId, hown⟩
    · intro ins hins id hid
      exact (h.saved ins hins id hid).evolves hevolves rfl rfl
  · exact h

end

omit h

end MessageInv

/-! ### The node -/

/-- **The invariant of the node**: the manager works on different requests, all unconfirmed. -/
structure NodeInv (node : SenderNode Address) : Prop where
  tables : MessageInv node.db
  unconfirmed : ∀ request ∈ node.phase.requests, Unconfirmed node.db request.id
  distinct : (node.phase.requests.map InscriptionRequestRow.id).Nodup

namespace NodeInv

variable {B : RustBitcoin Address} {config : ManagerConfig} {node node' : SenderNode Address}

theorem proceed (h : NodeInv node) (hdb : node'.db = node.db)
    (hphase : node'.phase.requests.Sublist node.phase.requests) : NodeInv node' := by
  refine ⟨?_, ?_, h.distinct.sublist (hphase.map _)⟩
  · rw [hdb]
    exact h.tables
  · rw [hdb]
    exact fun request hrequest => h.unconfirmed request (hphase.subset hrequest)

theorem other (h : NodeInv node) {e : SenderEvent} (he : e.isManagers = false) :
    NodeInv { node with db := node.db.step e } := by
  have htables : MessageInv (node.db.step e) := by
    rcases node.db.step_untouched he with ⟨config, answers, rfl⟩ | huntouched
    · exact h.tables.iterate
    · rcases node.db.step_frame e with ⟨config, answers, rfl⟩ | hframe
      · exact h.tables.iterate
      · exact h.tables.other (h.tables.keyed.frame hframe) huntouched
  refine ⟨htables, fun request hrequest => ?_, h.distinct⟩
  obtain ⟨row, hrow, hid, hnot⟩ := h.unconfirmed request hrequest
  obtain ⟨-, new, hrequests, -⟩ := node.db.step_requestsGrow he
  exact ⟨row, hrequests ▸ List.mem_append_left _ hrow, hid, hnot⟩

variable {rest : List (InscriptionRequestRow Address)}

theorem check (h : NodeInv node) (hphase : node.phase = .updating (request :: rest))
    (confirm : Verdict) : NodeInv (node.check config request rest confirm) := by
  have hrequests : node.phase.requests = request :: rest := by rw [hphase]; rfl
  rcases @SenderNode.check_cases _ config node request rest confirm
    with ⟨hdb, hsublist⟩ | ⟨last, hlast, hdb, hsublist⟩
  · exact h.proceed hdb (hrequests ▸ hsublist)
  · have hunconfirmed := h.unconfirmed request (hrequests ▸ List.mem_cons_self)
    have hmem := List.mem_filter.1 (List.argmax_mem hlast)
    have hdistinct := h.distinct
    rw [hrequests, List.map_cons, List.nodup_cons] at hdistinct
    refine ⟨?_, ?_, hdistinct.2.sublist (hsublist.map _)⟩
    · rw [hdb]
      exact h.tables.confirm hunconfirmed hmem.1 (of_decide_eq_true hmem.2)
    · -- the other requests of the loop are not confirmed by this statement
      intro next hnext
      have hnext : next ∈ rest := hsublist.subset hnext
      obtain ⟨row, hrow, hid, hnot⟩ :=
        h.unconfirmed next (hrequests ▸ List.mem_cons_of_mem _ hnext)
      have hne : row.id ≠ request.id := by
        rw [hid]
        exact fun heq => hdistinct.1 (heq ▸ List.mem_map_of_mem hnext)
      rw [hdb, confirmInscription]
      split
      · refine ⟨_, List.mem_map_of_mem hrow, ?_⟩
        rw [if_neg hne]
        exact ⟨hid, hnot⟩
      · exact ⟨row, hrow, hid, hnot⟩

theorem attempt (h : NodeInv node) (hrequests : node.phase.requests = request :: rest)
    {inscriptionConfig : InscriptionConfig} {answers : SendAnswers} {next : ManagerPhase Address}
    (hnext : next.requests = rest) :
    NodeInv (node.attempt B request inscriptionConfig answers next) := by
  have hphase : (node.attempt B request inscriptionConfig answers next).phase.requests.Sublist
      node.phase.requests := by
    rw [hrequests]
    unfold SenderNode.attempt
    simp only
    split
    · rw [hnext]
      exact List.sublist_cons_self _ _
    · exact List.nil_sublist _
  rcases @sendInscriptionTx_db _ B node.inscriber node.db request inscriptionConfig answers
    with hdb | ⟨commitTxId, revealTxId, sentAtBlock, hdb⟩
  · exact h.proceed hdb hphase
  · have hunconfirmed := h.unconfirmed request (hrequests ▸ List.mem_cons_self)
    refine ⟨?_, fun request' hrequest' => ?_, h.distinct.sublist (hphase.map _)⟩
    · simp only [SenderNode.attempt, hdb]
      exact h.tables.record hunconfirmed _ _ _ _
    · obtain ⟨row, hrow, hid, hnot⟩ := h.unconfirmed request' (hphase.subset hrequest')
      refine ⟨row, ?_, hid, hnot⟩
      simp only [SenderNode.attempt, hdb, insertInscriptionRequestHistory]
      split <;> exact hrow

theorem step (h : NodeInv node) {e : NodeEvent} (hstep : nodeStep B config node e node') :
    NodeInv node' := by
  cases SenderNode.stepped_of_step hstep with
  | other he => exact h.other he
  | block => exact h.proceed rfl (List.Sublist.refl _)
  | fetchInflight =>
    refine ⟨h.tables, fun request hrequest => ?_,
      nodup_getInflightInscriptions h.tables.keyed.requests h.tables.historyIds⟩
    obtain ⟨hmem, hnot, -⟩ := mem_getInflightInscriptions.1 hrequest
    exact ⟨request, hmem, rfl, hnot⟩
  | check hphase confirm => exact h.check hphase confirm
  | fetchBlockHeight hphase =>
    unfold SenderNode.fetchBlockHeight
    split
    · refine h.proceed rfl ?_
      rw [hphase]
      exact List.sublist_cons_self _ _
    · refine h.proceed rfl ?_
      rw [hphase]
      exact List.Sublist.refl _
  | resend hphase | send hphase => exact h.attempt (by rw [hphase]; rfl) rfl
  | fetchNew =>
    refine ⟨h.tables, fun request hrequest => ?_, List.pairwise_map.2
      ((pairwise_listNewInscriptionRequest h.tables.keyed.requests).imp Nat.ne_of_lt)⟩
    obtain ⟨hmem, hnone⟩ := of_mem_listNewInscriptionRequest hrequest
    refine ⟨request, hmem, rfl, fun hconfirmed => ?_⟩
    -- a confirmed request has an attempt
    obtain ⟨id, hid⟩ := Option.ne_none_iff_exists'.1 hconfirmed
    obtain ⟨row, hrow, -, hown⟩ := h.tables.confirmedRow request hmem id hid
    exact hnone ⟨row, hrow, hown⟩
  | finish | fail | restart => exact h.proceed rfl (List.nil_sublist _)

theorem initial (signer : BitcoinSigner) (network : Network) (chain : List (List Txid)) :
    NodeInv (SenderNode.initial signer network chain : SenderNode Address) :=
  { tables :=
      { keyed := ⟨List.nodup_nil, List.nodup_nil, List.nodup_nil, List.not_mem_nil, List.nodup_nil,
          nofun⟩
        historyIds := List.nodup_nil
        historyBound := nofun
        confirmedRow := nofun
        saved := nofun
        owner := nofun
        once := nofun }
    unconfirmed := nofun
    distinct := List.nodup_nil }

end NodeInv

/-! ### The messages -/

def ProofRequestOf (db : SenderDb Address) (number : ℕ) (request : InscriptionRequestRow Address) :
    Prop :=
  request ∈ db.inscriptionRequests ∧ request.requestType = .commitProofOnchain
    ∧ ∃ ins ∈ db.batchInscriptions, ins.l1BatchNumber = number
      ∧ ins.commitProofInscriptionId = some request.id

def ConfirmsCommitOf (db : SenderDb Address) (number : ℕ) (attempt : InscriptionHistoryRow) :
    Prop :=
  ∃ ins ∈ db.batchInscriptions, ins.l1BatchNumber = number
    ∧ Confirms db ins.commitL1BatchInscriptionId attempt

/-- **The proof messages.**  In every run of the node: a proof request belongs to one batch, a batch
has at most one, and its commit request is confirmed.  The message names the confirmed reveal
transaction exactly if that is the *commit* transaction of the last attempt. -/
theorem proofMessages_refer {B : RustBitcoin Address} {config : ManagerConfig}
    {signer : BitcoinSigner} {network : Network} {chain : List (List Txid)} {es : List NodeEvent}
    {node : SenderNode Address}
    (hrun : Run (nodeStep B config) (SenderNode.initial signer network chain) es node) :
    (∀ request ∈ node.db.inscriptionRequests, request.requestType = .commitProofOnchain →
      ∃! number, ProofRequestOf node.db number request)
    ∧ (∀ number request request', ProofRequestOf node.db number request →
      ProofRequestOf node.db number request' → request = request')
    ∧ ∀ number request, ProofRequestOf node.db number request →
      ∃ reference attempt, request.inscriptionMessage = .proofDAReference reference
        ∧ ConfirmsCommitOf node.db number attempt
        ∧ (∃ blob ∈ node.db.dataAvailability, blob.key = (number, true)
          ∧ reference.blobId = blob.blobId)
        ∧ (reference.l1BatchRevealTxid = attempt.revealTxId ↔
          (latestHistory node.db attempt.inscriptionRequestId).map InscriptionHistoryRow.commitTxId
            = some attempt.revealTxId) := by
  have hinv : NodeInv node := hrun.invariant (fun _ _ _ h hstep => h.step hstep) (.initial _ _ _)
  have htables := hinv.tables
  refine ⟨fun request hrequest htype => ?_, ?_, ?_⟩
  · obtain ⟨ins, hins, hid⟩ := htables.owner request hrequest htype
    refine ⟨ins.l1BatchNumber, ⟨hrequest, htype, ins, hins, rfl, hid⟩, ?_⟩
    rintro number ⟨-, -, ins', hins', rfl, hid'⟩
    rw [htables.once ins' hins' ins hins request.id hid' hid]
  · rintro number request request' ⟨hrequest, -, ins, hins, hnumber, hid⟩
      ⟨hrequest', -, ins', hins', hnumber', hid'⟩
    obtain rfl := htables.keyed.row_unique hins hins' (hnumber.trans hnumber'.symm)
    exact List.inj_on_of_nodup_map htables.keyed.requests hrequest hrequest'
      (Option.some.inj (hid.symm.trans hid'))
  -- the message has what was announced when it was saved
  · rintro number request ⟨hrequest, -, ins, hins, rfl, hid⟩
    obtain ⟨row, hrow, hrowId, -, reference, hmessage, hannounced⟩ :=
      htables.saved ins hins request.id hid
    obtain rfl := List.inj_on_of_nodup_map htables.keyed.requests hrow hrequest hrowId
    obtain ⟨⟨attempt, hconfirms⟩, hlatest, blob, hblob, hkey, hblobId⟩ := hannounced
    refine ⟨reference, attempt, hmessage, ⟨ins, hins, rfl, hconfirms⟩, ⟨blob, hblob, hkey,
      hblobId.symm⟩, ?_⟩
    rw [hconfirms.2.1, hlatest]
    exact ⟨fun h => congrArg some h, Option.some.inj⟩

def sampleNode : SenderNode SampleAddress := .initial sampleSigner .testnet []

def sampleManagerConfig : ManagerConfig := { blockConfirmations := 1, maxTxsInFlight := 1 }

def sampleSentRun : List NodeEvent :=
  (.insertProtocolVersion sampleProtocolVersion :: sealBatch 1 ++ readyBatch 1
    ++ [sampleIteration]).map .other
    ++ [.fetchInflight, .fetchNew, .send (sampleSendAnswers true .done), .finish]

def sampleMessageRun : List NodeEvent :=
  sampleSentRun ++ [.block [sampleCommitTxid, sampleRevealTxid], .fetchInflight, .check .done,
    .other (dispatchProof 1), .other sampleIteration]

def namedTxid : InscriptionMessage Address → Option Txid
  | .proofDAReference reference => some reference.l1BatchRevealTxid
  | _ => none

def SampleMessage (db : SenderDb SampleAddress) : Prop :=
  ∃ ins ∈ db.batchInscriptions, ins.l1BatchNumber = 1
    ∧ (∃ request ∈ db.inscriptionRequests, request.requestType = .commitProofOnchain
      ∧ ins.commitProofInscriptionId = some request.id
      ∧ namedTxid request.inscriptionMessage = some sampleCommitTxid)
    ∧ ∃ attempt ∈ db.history, attempt.revealTxId = sampleRevealTxid
      ∧ attempt.inscriptionRequestId = ins.commitL1BatchInscriptionId
      ∧ ∃ commit ∈ db.inscriptionRequests, commit.id = ins.commitL1BatchInscriptionId
        ∧ commit.confirmedInscriptionsRequestHistoryId = some attempt.id
deriving Decidable

theorem sampleMessageRun_computed :
    ∃ node, Run (nodeStep inscriberBitcoin sampleManagerConfig) sampleNode sampleMessageRun node
      ∧ SampleMessage node.db :=
  Run.witness (fun _ _ h => h) (by decide +kernel)

theorem proofMessages_refer_one :
    ∃ node request reference,
      Run (nodeStep inscriberBitcoin sampleManagerConfig) sampleNode sampleMessageRun node
      ∧ ProofRequestOf node.db 1 request
      ∧ request.inscriptionMessage = .proofDAReference reference
      ∧ ∃ blob ∈ node.db.dataAvailability, blob.key = (1, true)
        ∧ reference.blobId = blob.blobId := by
  obtain ⟨node, hrun, ins, hins, hnumber, ⟨request, hrequest, htype, hid, -⟩, -⟩ :=
    sampleMessageRun_computed
  have hof : ProofRequestOf node.db 1 request := ⟨hrequest, htype, ins, hins, hnumber, hid⟩
  obtain ⟨reference, -, hmessage, -, hblob, -⟩ := (proofMessages_refer hrun).2.2 1 request hof
  exact ⟨node, request, reference, hrun, hof, hmessage, hblob⟩

/-- **The wrong transaction.**  The message names the commit transaction of the attempt that was
confirmed, not its reveal transaction. -/
theorem proofMessages_name_commit :
    ∃ node request attempt,
      Run (nodeStep inscriberBitcoin sampleManagerConfig) sampleNode sampleMessageRun node
      ∧ ProofRequestOf node.db 1 request ∧ ConfirmsCommitOf node.db 1 attempt
      ∧ namedTxid request.inscriptionMessage = some sampleCommitTxid
      ∧ attempt.revealTxId = sampleRevealTxid ∧ sampleCommitTxid ≠ sampleRevealTxid := by
  obtain ⟨node, hrun, ins, hins, hnumber, ⟨request, hrequest, htype, hid, hnamed⟩, attempt,
    hattempt, hreveal, hown, hcommit⟩ := sampleMessageRun_computed
  exact ⟨node, request, attempt, hrun, ⟨hrequest, htype, ins, hins, hnumber, hid⟩,
    ⟨ins, hins, hnumber, hattempt, hown, hcommit⟩, hnamed, hreveal, by decide⟩

/-- **The manager's books.**  In every run, the manager has no request twice in hand, and none that
is confirmed; and a confirmed request names exactly one attempt, its own. -/
theorem nodeRun_books {B : RustBitcoin Address} {config : ManagerConfig} {signer : BitcoinSigner}
    {network : Network} {chain : List (List Txid)} {es : List NodeEvent} {node : SenderNode Address}
    (hrun : Run (nodeStep B config) (.initial signer network chain) es node) :
    (node.phase.requests.map InscriptionRequestRow.id).Nodup
    ∧ (∀ request ∈ node.phase.requests, Unconfirmed node.db request.id)
    ∧ ∀ request ∈ node.db.inscriptionRequests, ∀ id ∈ request.confirmedInscriptionsRequestHistoryId,
      ∃! row, row ∈ node.db.history ∧ row.id = id ∧ row.inscriptionRequestId = request.id := by
  have hinv : NodeInv node := hrun.invariant (fun _ _ _ h hstep => h.step hstep) (.initial _ _ _)
  refine ⟨hinv.distinct, hinv.unconfirmed, fun request hrequest id hid => ?_⟩
  obtain ⟨row, hrow, rfl, hown⟩ := hinv.tables.confirmedRow request hrequest id hid
  refine ⟨row, ⟨hrow, rfl, hown⟩, fun row' hrow' => ?_⟩
  exact List.inj_on_of_nodup_map hinv.tables.historyIds hrow'.1 hrow hrow'.2.1

theorem nodeRun_books_sample :
    ∃ node, Run (nodeStep inscriberBitcoin sampleManagerConfig) sampleNode sampleMessageRun node
      ∧ ∃ request ∈ node.db.inscriptionRequests,
        ∃ id ∈ request.confirmedInscriptionsRequestHistoryId,
        ∃! row, row ∈ node.db.history ∧ row.id = id ∧ row.inscriptionRequestId = request.id := by
  obtain ⟨node, hrun, -, -, -, -, attempt, -, -, -, request, hrequest, -, hid⟩ :=
    sampleMessageRun_computed
  exact ⟨node, hrun, request, hrequest, _, hid, (nodeRun_books hrun).2.2 request hrequest _ hid⟩

end ProofMessage
