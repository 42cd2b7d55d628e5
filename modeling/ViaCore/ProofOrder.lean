/-
The order of proof inscriptions.

A batch is ready for a proof request when its commit inscription is confirmed and its proof is
dispatched.  Both happen in any order, so the ready batches may have holes, and then the check of
the aggregator panics, or a batch gets its request before an earlier one.  Neither happens as long
as all batches before a ready one are ready too or have their request.

* `proofRequests_inOrder` — all runs in which iterations find no hole.
-/
import ViaCore.CommitOrder

section ProofOrder

variable {Address : Type} {db db' : SenderDb Address}

/-! ### Keys -/

variable (db) in
/-- The keys of the tables are distinct, and the sequence is ahead of the requests. -/
structure Keyed : Prop where
  l1Batches : (db.l1Batches.map L1BatchRow.number).Nodup
  dataAvailability : (db.dataAvailability.map DataAvailabilityRow.key).Nodup
  batchInscriptions : (commitBatches db).Nodup
  nonzero : 0 ∉ commitBatches db
  requests : (db.inscriptionRequests.map InscriptionRequestRow.id).Nodup
  bound : ∀ id ∈ db.inscriptionRequests.map InscriptionRequestRow.id, id ≤ db.requestSequence

variable {batch : ViaBtcL1BlockDetails} {message : InscriptionMessage Address}
  {ins : BatchInscriptionRow} {number fee : ℕ}

theorem number_ne_zero_of_mem_ready {config : ViaBtcSenderConfig}
    (h : batch ∈ readyForCommitL1Batches config db) : batch.number ≠ 0 := by
  obtain ⟨r, hr, rfl⟩ := List.mem_map.1 h
  exact (mem_readyForCommitRows.1 ⟨r, mem_of_mem_lowest hr, rfl⟩).1

namespace Keyed

section

variable (h : Keyed db)
include h

theorem frame (hframe : Frame db db') : Keyed db' where
  l1Batches := hframe.l1BatchKeys h.l1Batches
  dataAvailability := hframe.dataAvailabilityKeys h.dataAvailability
  batchInscriptions := by
    rw [commitBatches, hframe.batchInscriptions]
    exact h.batchInscriptions
  nonzero := by
    rw [commitBatches, hframe.batchInscriptions]
    exact h.nonzero
  requests := by
    rw [hframe.requestIds]
    exact h.requests
  bound := by
    rw [hframe.requestIds, hframe.requestSequence]
    exact h.bound

theorem rollback {sequence : ℕ} (hle : db.requestSequence ≤ sequence) :
    Keyed { db with requestSequence := sequence } :=
  { h with bound := fun id hid => (h.bound id hid).trans hle }

theorem saved (hsaved : SavedRequest db db') (hrows : (commitBatches db').Nodup)
    (hzero : 0 ∉ commitBatches db') : Keyed db' := by
  obtain ⟨request, hid, hrequests⟩ := hsaved.inscriptionRequests
  have hids : db'.inscriptionRequests.map InscriptionRequestRow.id
      = db.inscriptionRequests.map InscriptionRequestRow.id ++ [db.requestSequence + 1] := by
    rw [hrequests, List.map_append, List.map_singleton, hid]
  refine ⟨?_, ?_, hrows, hzero, ?_, ?_⟩
  · rw [hsaved.l1Batches]
    exact h.l1Batches
  · rw [hsaved.dataAvailability]
    exact h.dataAvailability
  · rw [hids]
    refine h.requests.append (List.nodup_singleton _) fun id hold hnew => ?_
    have hle := h.bound id hold
    rw [List.mem_singleton.1 hnew] at hle
    omega
  · intro id hmem
    rw [hids] at hmem
    rw [hsaved.requestSequence]
    rcases List.mem_append.1 hmem with hold | hnew
    · exact (h.bound id hold).trans (Nat.le_succ _)
    · exact (List.mem_singleton.1 hnew).le

theorem commit (hnumber : number ≠ 0)
    (hinsert : SavesRequest db .commitL1BatchOnchain message fee number db') : Keyed db' := by
  obtain ⟨hsaved, hfresh, hrows⟩ := savedRequest_commit hinsert
  have hbatches : commitBatches db' = commitBatches db ++ [number] := by
    rw [commitBatches, hrows, List.map_append]
    rfl
  refine h.saved hsaved ?_ ?_
  · rw [hbatches]
    refine h.batchInscriptions.append (List.nodup_singleton _) fun k hold hnew => ?_
    obtain ⟨row, hrow, hk⟩ := List.mem_map.1 hold
    exact hfresh row hrow (hk.trans (List.mem_singleton.1 hnew))
  · intro hmem
    rw [hbatches] at hmem
    rcases List.mem_append.1 hmem with hold | hnew
    · exact h.nonzero hold
    · exact hnumber (List.mem_singleton.1 hnew).symm

theorem proof (hinsert : SavesRequest db .commitProofOnchain message fee number db') :
    Keyed db' := by
  obtain ⟨hsaved, -, hrows⟩ := savedRequest_proof hinsert
  have hbatches : commitBatches db' = commitBatches db := by
    rw [commitBatches, hrows, List.map_map]
    exact List.map_congr_left fun row _ => withProofRequest_l1BatchNumber _ _ row
  refine h.saved hsaved ?_ ?_
  · rw [hbatches]
    exact h.batchInscriptions
  · rw [hbatches]
    exact h.nonzero

theorem row_unique {ins' : BatchInscriptionRow} (hins : ins ∈ db.batchInscriptions)
    (hins' : ins' ∈ db.batchInscriptions) (hnumber : ins.l1BatchNumber = ins'.l1BatchNumber) :
    ins = ins' :=
  List.inj_on_of_nodup_map h.batchInscriptions hins hins' hnumber

end

end Keyed

theorem nodup_readyForCommitProofRows (h : Keyed db) :
    ((readyForCommitProofRows db).map ProofJoin.number).Nodup := by
  have hbatches := leftJoin_pairwise (List.pairwise_map.1 h.l1Batches)
    (fun batch _ => pairwise_filter_key (p := fun ins => ins.l1BatchNumber = batch.number)
      h.batchInscriptions fun _ _ hp => of_decide_eq_true hp)
  -- a batch may have two blobs, of which one is a proof
  have hblobs : ∀ number, (db.dataAvailability.filter fun da => da.l1BatchNumber = number).Pairwise
      fun da da' => da.isProof ≠ da'.isProof := by
    intro number
    refine ((List.pairwise_map.1 h.dataAvailability).filter _).imp_of_mem ?_
    intro da da' hda hda' hne hproof
    have hnumber := of_decide_eq_true (List.mem_filter.1 hda).2
    have hnumber' := of_decide_eq_true (List.mem_filter.1 hda').2
    exact hne (Prod.ext (hnumber.trans hnumber'.symm) hproof)
  have hbatches := leftJoin_pairwise hbatches fun r _ => hblobs r.1.number
  have hbatches := leftJoin_pairwise hbatches fun r _ =>
    pairwise_filter_key
      (p := fun request => r.1.2.map BatchInscriptionRow.commitL1BatchInscriptionId
        = some request.id)
      (k := (r.1.2.map BatchInscriptionRow.commitL1BatchInscriptionId).getD 0)
      h.requests fun request _ hp => by rw [of_decide_eq_true hp, Option.getD_some]
  refine List.pairwise_map.2 ((hbatches.filter _).imp_of_mem ?_)
  intro r r' hr hr' hne
  obtain ⟨-, -, -, hproof⟩ := of_decide_eq_true (List.mem_filter.1 hr).2
  obtain ⟨-, -, -, hproof'⟩ := of_decide_eq_true (List.mem_filter.1 hr').2
  rcases hne with ((hne | ⟨_, _, -, -, habsurd⟩) | ⟨da, da', hda, hda', hne⟩) |
    ⟨_, _, -, -, habsurd⟩
  · exact hne
  · exact habsurd.elim
  · rw [hda] at hproof
    rw [hda'] at hproof'
    exact absurd ((Option.some.inj hproof).trans (Option.some.inj hproof').symm) hne
  · exact habsurd.elim

/-! ### The invariant -/

def HasProofRequest (db : SenderDb Address) (number : ℕ) : Prop :=
  ∃ ins ∈ db.batchInscriptions, ins.l1BatchNumber = number ∧ ins.commitProofInscriptionId ≠ none
deriving Decidable

def CommitConfirmed (db : SenderDb Address) (ins : BatchInscriptionRow) : Prop :=
  ∃ request ∈ db.inscriptionRequests,
    request.id = ins.commitL1BatchInscriptionId ∧ request.IsConfirmed
deriving Decidable

def confirmedCommits (db : SenderDb Address) : ℕ :=
  (db.batchInscriptions.filter fun ins => CommitConfirmed db ins).length

def ProofIdsOrdered (db : SenderDb Address) : Prop :=
  ∀ ins ∈ db.batchInscriptions, ∀ ins' ∈ db.batchInscriptions,
    ins.l1BatchNumber < ins'.l1BatchNumber →
    ∀ id ∈ ins.commitProofInscriptionId, ∀ id' ∈ ins'.commitProofInscriptionId, id < id'

/-- The batches with a proof request are `1, ..., m`, all with a confirmed commit inscription, and
the requests were created in that order. -/
def ProofsInOrder (db : SenderDb Address) : Prop :=
  (∃ m, (∀ number, HasProofRequest db number ↔ 1 ≤ number ∧ number ≤ m)
    ∧ m ≤ confirmedCommits db)
    ∧ ProofIdsOrdered db

variable (db) in
/-- Proof requests for `1, ..., m`, with ids that the sequence has given out one after the other. -/
structure ProofInv (m : ℕ) : Prop where
  keyed : Keyed db
  requested : ∀ number, HasProofRequest db number ↔ 1 ≤ number ∧ number ≤ m
  confirmed : ∀ ins ∈ db.batchInscriptions, ins.commitProofInscriptionId ≠ none →
    CommitConfirmed db ins
  bound : ∀ ins ∈ db.batchInscriptions, ∀ id ∈ ins.commitProofInscriptionId, id ≤ db.requestSequence
  ordered : ProofIdsOrdered db

theorem CommitConfirmed.frame (h : CommitConfirmed db ins) (hframe : Frame db db') :
    CommitConfirmed db' ins := by
  obtain ⟨request, hrequest, hid, hconfirmed⟩ := h
  obtain ⟨request', hrequest', hid', hconfirmed'⟩ := hframe.confirmed request hrequest hconfirmed
  exact ⟨request', hrequest', hid'.trans hid, hconfirmed'⟩

theorem CommitConfirmed.saved (h : CommitConfirmed db ins) (hsaved : SavedRequest db db') :
    CommitConfirmed db' ins := by
  obtain ⟨request, hrequest, hconfirmed⟩ := h
  obtain ⟨_, -, hrequests⟩ := hsaved.inscriptionRequests
  exact ⟨request, hrequests ▸ List.mem_append_left _ hrequest, hconfirmed⟩

theorem proofId_withProofRequest {requestId id : ℕ}
    (h : (withProofRequest number requestId ins).commitProofInscriptionId = some id) :
    (ins.l1BatchNumber = number ∧ id = requestId) ∨ ins.commitProofInscriptionId = some id := by
  unfold withProofRequest at h
  split at h
  · rename_i hrow
    exact .inl ⟨hrow.1, (Option.some.inj h).symm⟩
  · exact .inr h

namespace ProofInv

variable {m : ℕ}

section

variable (h : ProofInv db m)
include h

theorem frame (hframe : Frame db db') : ProofInv db' m where
  keyed := h.keyed.frame hframe
  requested number := by
    rw [HasProofRequest, hframe.batchInscriptions]
    exact h.requested number
  confirmed ins hins hproof := by
    rw [hframe.batchInscriptions] at hins
    exact (h.confirmed ins hins hproof).frame hframe
  bound ins hins := by
    rw [hframe.batchInscriptions] at hins
    rw [hframe.requestSequence]
    exact h.bound ins hins
  ordered := by
    rw [ProofIdsOrdered, hframe.batchInscriptions]
    exact h.ordered

theorem rollback {sequence : ℕ} (hle : db.requestSequence ≤ sequence) :
    ProofInv { db with requestSequence := sequence } m :=
  { h with
    keyed := h.keyed.rollback hle
    bound := fun ins hins id hid => (h.bound ins hins id hid).trans hle }

theorem commit (hnumber : number ≠ 0)
    (hinsert : SavesRequest db .commitL1BatchOnchain message fee number db') : ProofInv db' m := by
  obtain ⟨hsaved, -, hrows⟩ := savedRequest_commit hinsert
  -- the new row has no proof request
  have hold : ∀ ins ∈ db'.batchInscriptions, ins.commitProofInscriptionId ≠ none →
      ins ∈ db.batchInscriptions := by
    intro ins hins hproof
    rw [hrows] at hins
    rcases List.mem_append.1 hins with hins | hnew
    · exact hins
    · rw [List.mem_singleton.1 hnew] at hproof
      exact absurd rfl hproof
  have hsome : ∀ {ins : BatchInscriptionRow} {id : ℕ}, id ∈ ins.commitProofInscriptionId →
      ins.commitProofInscriptionId ≠ none :=
    fun hid => Option.ne_none_iff_exists'.2 ⟨_, hid⟩
  refine ⟨h.keyed.commit hnumber hinsert, ?_, ?_, ?_, ?_⟩
  · intro k
    rw [← h.requested k]
    constructor
    · rintro ⟨ins, hins, hk, hproof⟩
      exact ⟨ins, hold ins hins hproof, hk, hproof⟩
    · rintro ⟨ins, hins, hk, hproof⟩
      exact ⟨ins, hrows ▸ List.mem_append_left _ hins, hk, hproof⟩
  · intro ins hins hproof
    exact (h.confirmed ins (hold ins hins hproof) hproof).saved hsaved
  · intro ins hins id hid
    rw [hsaved.requestSequence]
    exact (h.bound ins (hold ins hins (hsome hid)) id hid).trans (Nat.le_succ _)
  · intro ins hins ins' hins' hlt id hid id' hid'
    exact h.ordered ins (hold ins hins (hsome hid)) ins' (hold ins' hins' (hsome hid')) hlt
      id hid id' hid'

theorem row_of_proof (hrows : db'.batchInscriptions
      = db.batchInscriptions.map (withProofRequest (m + 1) (db.requestSequence + 1)))
    (hins : ins ∈ db'.batchInscriptions) {id : ℕ} (hid : id ∈ ins.commitProofInscriptionId) :
    ∃ old ∈ db.batchInscriptions, old.l1BatchNumber = ins.l1BatchNumber
      ∧ old.commitL1BatchInscriptionId = ins.commitL1BatchInscriptionId
      ∧ ((ins.l1BatchNumber = m + 1 ∧ id = db.requestSequence + 1) ∨
        (1 ≤ ins.l1BatchNumber ∧ ins.l1BatchNumber ≤ m ∧ id ≤ db.requestSequence
          ∧ id ∈ old.commitProofInscriptionId)) := by
  rw [hrows] at hins
  obtain ⟨old, hold, rfl⟩ := List.mem_map.1 hins
  rw [withProofRequest_l1BatchNumber, withProofRequest_commitId]
  refine ⟨old, hold, rfl, rfl, ?_⟩
  rcases proofId_withProofRequest hid with hnew | hsame
  · exact .inl hnew
  · obtain ⟨hlow, hhigh⟩ := (h.requested old.l1BatchNumber).1
      ⟨old, hold, rfl, Option.ne_none_iff_exists'.2 ⟨id, hsame⟩⟩
    exact .inr ⟨hlow, hhigh, h.bound old hold id hsame, hsame⟩

theorem requested_of_proof (hrows : db'.batchInscriptions
      = db.batchInscriptions.map (withProofRequest (m + 1) (db.requestSequence + 1)))
    {row : BatchInscriptionRow} (hrow : row ∈ db.batchInscriptions)
    (hnumber : row.l1BatchNumber = m + 1) (hnoproof : row.commitProofInscriptionId = none)
    (number : ℕ) : HasProofRequest db' number ↔ 1 ≤ number ∧ number ≤ m + 1 := by
  constructor
  · rintro ⟨ins, hins, rfl, hproof⟩
    obtain ⟨id, hid⟩ := Option.ne_none_iff_exists'.1 hproof
    obtain ⟨-, -, -, -, ⟨hnew, -⟩ | ⟨hlow, hhigh, -⟩⟩ := h.row_of_proof hrows hins hid
    · omega
    · omega
  · rintro ⟨hlow, hhigh⟩
    by_cases hnext : number = m + 1
    · refine ⟨_, hrows ▸ List.mem_map_of_mem hrow, ?_, ?_⟩
      · rw [withProofRequest_l1BatchNumber, hnumber, hnext]
      · rw [withProofRequest, if_pos ⟨hnumber, hnoproof⟩]
        exact Option.some_ne_none _
    · obtain ⟨ins, hins, hold, hproof⟩ := (h.requested number).2 ⟨hlow, by omega⟩
      refine ⟨_, hrows ▸ List.mem_map_of_mem hins, ?_, ?_⟩
      · rw [withProofRequest_l1BatchNumber, hold]
      · rw [withProofRequest, if_neg fun hrow => hproof hrow.2]
        exact hproof

theorem proof
    (hconfirmed : ∀ ins ∈ db.batchInscriptions, ins.l1BatchNumber = m + 1 → CommitConfirmed db ins)
    (hinsert : SavesRequest db .commitProofOnchain message fee (m + 1) db') :
    ProofInv db' (m + 1) := by
  obtain ⟨hsaved, ⟨row, hrow, hnumber, hnoproof⟩, hrows⟩ := savedRequest_proof hinsert
  refine ⟨h.keyed.proof hinsert, h.requested_of_proof hrows hrow hnumber hnoproof, ?_, ?_, ?_⟩
  · intro ins hins hproof
    obtain ⟨id, hid⟩ := Option.ne_none_iff_exists'.1 hproof
    obtain ⟨old, hold, hk, hcommit, hcase⟩ := h.row_of_proof hrows hins hid
    have hcommitted : CommitConfirmed db old := by
      rcases hcase with ⟨hnew, -⟩ | ⟨-, -, -, hsame⟩
      · exact hconfirmed old hold (hk.trans hnew)
      · exact h.confirmed old hold (Option.ne_none_iff_exists'.2 ⟨id, hsame⟩)
    have hkept := hcommitted.saved hsaved
    rw [CommitConfirmed, hcommit] at hkept
    exact hkept
  · intro ins hins id hid
    rw [hsaved.requestSequence]
    obtain ⟨-, -, -, -, ⟨-, hnew⟩ | ⟨-, -, hle, -⟩⟩ := h.row_of_proof hrows hins hid
    · exact hnew.le
    · omega
  · intro ins hins ins' hins' hlt id hid id' hid'
    obtain ⟨old, hold, hk, -, hcase⟩ := h.row_of_proof hrows hins hid
    obtain ⟨old', hold', hk', -, hcase'⟩ := h.row_of_proof hrows hins' hid'
    rcases hcase' with ⟨hnew', hid'⟩ | ⟨-, hhigh', -, hsame'⟩
    · -- the new request has the highest id so far
      rcases hcase with ⟨hnew, -⟩ | ⟨-, -, hle, -⟩
      · omega
      · omega
    · rcases hcase with ⟨hnew, -⟩ | ⟨-, -, -, hsame⟩
      · omega
      · exact h.ordered old hold old' hold' (by omega) id hsame id' hsame'

theorem lt_of_ready (hready : ReadyForCommitProof db number) : m < number := by
  obtain ⟨-, ⟨ins, hins, hnumber, hnoproof, -⟩, -⟩ := hready
  by_contra hle
  have hzero : number ≠ 0 := by
    rintro rfl
    exact h.keyed.nonzero (hnumber ▸ List.mem_map_of_mem hins)
  obtain ⟨ins', hins', hnumber', hproof⟩ := (h.requested number).2 (by omega)
  rw [h.keyed.row_unique hins' hins (hnumber'.trans hnumber.symm)] at hproof
  exact hproof hnoproof

theorem le_confirmedCommits : m ≤ confirmedCommits db := by
  have hsubset : List.range' 1 m
      ⊆ (db.batchInscriptions.filter fun ins => CommitConfirmed db ins).map
        BatchInscriptionRow.l1BatchNumber := by
    intro k hk
    rw [List.mem_range'_1] at hk
    obtain ⟨ins, hins, rfl, hproof⟩ := (h.requested k).2 (by omega)
    exact List.mem_map_of_mem
      (List.mem_filter.2 ⟨hins, decide_eq_true (h.confirmed ins hins hproof)⟩)
  have hlength := (List.subperm_of_subset List.nodup_range' hsubset).length_le
  rw [List.length_range', List.length_map] at hlength
  exact hlength

end

end ProofInv

/-! ### Runs -/

/-- An iteration finds no hole: the batches before a ready one are ready or have their request. -/
def ReadyWithoutHoles (db : SenderDb Address) : SenderEvent → Prop
  | .iterate _ _ => ∀ batch ∈ db.l1Batches, ReadyForCommitProof db batch.number →
      ∀ number < batch.number, 0 < number →
        ReadyForCommitProof db number ∨ HasProofRequest db number
  | _ => True

instance (db : SenderDb Address) (e : SenderEvent) : Decidable (ReadyWithoutHoles db e) := by
  induction e using SenderEvent.casesOn <;> unfold ReadyWithoutHoles <;> infer_instance

/-- The batches that are still to get a proof request have a confirmed commit inscription. -/
def AllConfirmed (db : SenderDb Address) (batches : List ViaBtcL1BlockDetails) : Prop :=
  ∀ batch ∈ batches, ∀ ins ∈ db.batchInscriptions, ins.l1BatchNumber = batch.number →
    CommitConfirmed db ins

theorem AllConfirmed.proof {rest : List ViaBtcL1BlockDetails} (h : AllConfirmed db (batch :: rest))
    (hinsert : SavesRequest db .commitProofOnchain message fee number db') :
    AllConfirmed db' rest := by
  obtain ⟨hsaved, -, hrows⟩ := savedRequest_proof hinsert
  intro next hnext ins hins hnumber
  rw [hrows] at hins
  obtain ⟨old, hold, rfl⟩ := List.mem_map.1 hins
  rw [withProofRequest_l1BatchNumber] at hnumber
  have hkept := (h next (List.mem_cons_of_mem _ hnext) old hold hnumber).saved hsaved
  rw [CommitConfirmed, withProofRequest_commitId]
  exact hkept

namespace ProofInv

variable {m : ℕ} {config : ViaBtcSenderConfig} {answers : AggregatorAnswers}

section

variable (h : ProofInv db m)
include h

/-- **Without holes** the batches that an iteration finds are consecutive. -/
theorem isChain_ready (hholes : ReadyWithoutHoles db (.iterate config answers)) :
    (readyForCommitProofL1Batches config db).IsChain Follows := by
  refine (List.isChain_map _).2 (@isChain_succ_of_closed _ ProofJoin.number _
    (lowest_pairwise_lt (nodup_readyForCommitProofRows h.keyed)) ?_)
  intro r hr r' hr' hlt
  by_cases hnext : ProofJoin.number r + 1 = ProofJoin.number r'
  · exact ⟨r', hr', hnext.symm⟩
  · have hready := mem_readyForCommitProofRows.1 ⟨r, mem_of_mem_lowest hr, rfl⟩
    have hready' := mem_readyForCommitProofRows.1 ⟨r', mem_of_mem_lowest hr', rfl⟩
    obtain ⟨batch, hbatch, hnumber⟩ := hready'.1
    rcases hholes batch hbatch (hnumber ▸ hready') (ProofJoin.number r + 1) (by omega) (by omega)
      with hmid | hrequested
    · obtain ⟨s, hs, hsnumber⟩ := mem_readyForCommitProofRows.2 hmid
      exact ⟨s, mem_lowest_of_lt hs hr' (by omega), hsnumber⟩
    · -- then the first of the two batches had a request as well
      have hlow := h.lt_of_ready hready
      have hhigh := ((h.requested _).1 hrequested).2
      omega

theorem map_number_ready (hholes : ReadyWithoutHoles db (.iterate config answers)) :
    (readyForCommitProofL1Batches config db).map ViaBtcL1BlockDetails.number
      = List.range' (m + 1) (readyForCommitProofL1Batches config db).length := by
  have hchain := h.isChain_ready hholes
  cases hrows : lowest ProofJoin.number config.maxAggregatedProofsToCommit
      (readyForCommitProofRows db) with
  | nil =>
    rw [readyForCommitProofL1Batches, getReadyForCommitProofL1Batches, hrows]
    rfl
  | cons first rest =>
    have hready : readyForCommitProofL1Batches config db
        = ProofJoin.details db first :: rest.map (ProofJoin.details db) := by
      rw [readyForCommitProofL1Batches, getReadyForCommitProofL1Batches, hrows, List.map_cons]
    have hmem := mem_of_mem_lowest (hrows ▸ List.mem_cons_self : first ∈ lowest ProofJoin.number
      config.maxAggregatedProofsToCommit _)
    have hfirst := mem_readyForCommitProofRows.1 ⟨first, hmem, rfl⟩
    have hlow := h.lt_of_ready hfirst
    -- if the first were later, `m + 1` would be ready or requested
    have hhigh : ProofJoin.number first ≤ m + 1 := by
      by_contra hlt
      obtain ⟨batch, hbatch, hnumber⟩ := hfirst.1
      rcases hholes batch hbatch (hnumber ▸ hfirst) (m + 1) (by omega) (by omega)
        with hnext | hrequested
      · obtain ⟨s, hs, hsnumber⟩ := mem_readyForCommitProofRows.2 hnext
        have hle := lowest_head_le hrows hs
        omega
      · have hle := ((h.requested _).1 hrequested).2
        omega
    have hnumber : (ProofJoin.details db first).number = m + 1 := by
      change ProofJoin.number first = m + 1
      omega
    rw [hready] at hchain ⊢
    rw [map_eq_range'_of_isChain hchain, hnumber, List.length_cons]

theorem allConfirmed_ready : AllConfirmed db (readyForCommitProofL1Batches config db) := by
  intro batch hbatch ins hins hnumber
  obtain ⟨r, hr, rfl⟩ := List.mem_map.1 hbatch
  obtain ⟨-, ⟨ins', hins', hnumber', -, hconfirmed⟩, -⟩ :=
    mem_readyForCommitProofRows.1 ⟨r, mem_of_mem_lowest hr, rfl⟩
  have hsame : ins' = ins := h.keyed.row_unique hins' hins (hnumber'.trans hnumber.symm)
  exact hsame ▸ hconfirmed

theorem iterate (hholes : ReadyWithoutHoles db (.iterate config answers)) :
    ∃ m, ProofInv (aggregatorLoopIteration config db answers).1 m := by
  rcases @aggregatorLoopIteration_cases _ config db answers
    with ⟨sequence, hle, hdb⟩ | ⟨op, hop, hok, hdb⟩
  · rw [hdb]
    exact ⟨m, h.rollback hle⟩
  · rw [hdb]
    rcases getNextReadyOperation_eq_some hop with ⟨-, k, rfl⟩ | ⟨-, k, rfl⟩
    · -- the batches still to come follow the last request, and their commits are confirmed
      obtain ⟨m, hm, -⟩ := saveRequests_invariant
        (I := fun db batches => ∃ m, ProofInv db m
          ∧ batches.map ViaBtcL1BlockDetails.number = List.range' (m + 1) batches.length
          ∧ AllConfirmed db batches)
        (fun db batch rest message fee db' ⟨m, hm, hrest, hconfirmed⟩ _ hinsert => by
          rw [List.map_cons, List.length_cons, List.range'_succ] at hrest
          obtain ⟨hbatch, hrest⟩ := List.cons.inj hrest
          have hfirst := hconfirmed batch List.mem_cons_self
          rw [hbatch] at hinsert hfirst
          exact ⟨m + 1, hm.proof hfirst hinsert, hrest, hconfirmed.proof hinsert⟩)
        ⟨m, h, map_take_eq_range' (h.map_number_ready hholes) k,
          fun batch hbatch => h.allConfirmed_ready batch (List.mem_of_mem_take hbatch)⟩ hok
      exact ⟨m, hm⟩
    · exact (saveRequests_invariant
        (I := fun db batches => (∃ m, ProofInv db m) ∧ ∀ batch ∈ batches, batch.number ≠ 0)
        (fun db batch rest message fee db' ⟨⟨m, hm⟩, hnumbers⟩ _ hinsert =>
          ⟨⟨m, hm.commit (hnumbers batch List.mem_cons_self) hinsert⟩,
            fun batch hbatch => hnumbers batch (List.mem_cons_of_mem _ hbatch)⟩)
        ⟨⟨m, h⟩, fun batch hbatch =>
          number_ne_zero_of_mem_ready (List.mem_of_mem_take hbatch)⟩ hok).1

end

theorem step {e : SenderEvent} (h : ∃ m, ProofInv db m)
    (hstep : (senderStep Address).under ReadyWithoutHoles db e db') : ∃ m, ProofInv db' m := by
  obtain ⟨m, hm⟩ := h
  obtain ⟨hstep, hholes⟩ := hstep
  cases hstep
  rcases db.step_frame e with ⟨config, answers, rfl⟩ | hframe
  · exact hm.iterate hholes
  · exact ⟨m, hm.frame hframe⟩

theorem empty : ProofInv (.empty Address) 0 where
  keyed := by
    constructor <;> simp [SenderDb.empty, commitBatches]
  requested number := by
    constructor
    · rintro ⟨ins, hins, -⟩
      cases hins
    · omega
  confirmed _ hins := absurd hins List.not_mem_nil
  bound _ hins := absurd hins List.not_mem_nil
  ordered _ hins := absurd hins List.not_mem_nil

end ProofInv

/-- **Proof order.**  In every run whose iterations find no hole among the ready batches, the
batches with a proof request are `1, ..., m`, in the order of their requests, and all of them are
committed. -/
theorem proofRequests_inOrder {es : List SenderEvent}
    (hrun : Run ((senderStep Address).under ReadyWithoutHoles) (.empty Address) es db) :
    ProofsInOrder db
      ∧ ∀ config answers, ReadyWithoutHoles db (.iterate config answers) →
        validateL1BatchSequence (readyForCommitProofL1Batches config db) = .ok () := by
  obtain ⟨m, hm⟩ := hrun.invariant (I := fun db => ∃ m, ProofInv db m)
    (fun _ _ _ h hstep => ProofInv.step h hstep) ⟨0, ProofInv.empty⟩
  refine ⟨⟨⟨m, hm.requested, hm.le_confirmedCommits⟩, hm.ordered⟩, ?_⟩
  intro config answers hholes
  exact validateL1BatchSequence_ok.2 (hm.isChain_ready hholes)

/-- A request is sent and confirmed; the numbers of request and history row agree here. -/
def confirmRequest (id : ℕ) : List SenderEvent :=
  [.insertInscriptionRequestHistory (.replicate 32 5) (.replicate 32 6) id 100 4000,
    .confirmInscription id id]

def dispatchProof (number : ℕ) : SenderEvent :=
  .insertDa number true sampleProofId

def sampleConfirmedRun : List SenderEvent :=
  sampleCommitRun ++ confirmRequest 1 ++ confirmRequest 2

def sampleProofRun : List SenderEvent :=
  sampleConfirmedRun ++ [dispatchProof 1, dispatchProof 2, sampleIteration]

theorem proofRequests_inOrder_one :
    ∃ db, Run ((senderStep SampleAddress).under ReadyWithoutHoles) (.empty SampleAddress)
        sampleProofRun db
      ∧ HasProofRequest db 1 ∧ ReadyForCommitProof db 2
      ∧ ProofsInOrder db
      ∧ validateL1BatchSequence (readyForCommitProofL1Batches sampleSenderConfig db) = .ok () := by
  refine Run.witnessUnder (P := fun db => HasProofRequest db 1 ∧ ReadyForCommitProof db 2 ∧
    ReadyWithoutHoles db sampleIteration) ?_ (by decide +kernel)
  rintro db hrun ⟨hrequested, hready, hholes⟩
  obtain ⟨horder, hvalid⟩ := proofRequests_inOrder hrun
  exact ⟨hrequested, hready, horder, hvalid _ _ hholes⟩

def sampleLateProofRun : List SenderEvent :=
  sampleConfirmedRun ++ [dispatchProof 2, sampleIteration]

/-- Three batches with confirmed commit inscriptions, and proofs for the first and the last. -/
def sampleHoleRun : List SenderEvent :=
  sampleConfirmedRun ++ sealBatch 3 ++ readyBatch 3 ++ [sampleIteration] ++ confirmRequest 3
    ++ [dispatchProof 1, dispatchProof 3]

def samplePairConfig : ViaBtcSenderConfig :=
  { sampleSenderConfig with maxAggregatedProofsToCommit := 2 }

/-- **Holes.**  With proofs for the first and the third batch the iteration panics, and with a proof
for the second batch only, that one gets its request first. -/
theorem proofRequests_hole :
    (∃ db, Run (senderStep SampleAddress) (.empty SampleAddress) sampleHoleRun db
      ∧ validateL1BatchSequence (readyForCommitProofL1Batches samplePairConfig db) = .panic
      ∧ ∀ answers, (aggregatorLoopIteration samplePairConfig db answers).2 = .panic) ∧
    ∃ db, Run (senderStep SampleAddress) (.empty SampleAddress) sampleLateProofRun db
      ∧ HasProofRequest db 2
      ∧ ¬ ProofsInOrder db := by
  constructor
  · refine Run.witness (fun db _ hpanic => ⟨hpanic, fun answers => ?_⟩) (by decide +kernel)
    have hop : getNextReadyOperation samplePairConfig db answers.now = .panic := by
      rw [getNextReadyOperation, getCommitProofOperation, hpanic]
      rfl
    rw [aggregatorLoopIteration, hop]
  · refine Run.witness (P := fun db => HasProofRequest db 2 ∧ ¬ HasProofRequest db 1) ?_
      (by decide +kernel)
    rintro db - ⟨hsecond, hfirst⟩
    refine ⟨hsecond, ?_⟩
    rintro ⟨⟨m, hrequested, -⟩, -⟩
    have hle := ((hrequested 2).1 hsecond).2
    exact hfirst ((hrequested 1).2 ⟨le_rfl, by omega⟩)

end ProofOrder
