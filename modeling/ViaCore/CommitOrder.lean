/-
The order of commit inscriptions.

The aggregator only looks at the ready batches, and checks that these are consecutive, but not that
they go on from the last batch with a request.  Requests are created for the batches `1, 2, ..., n`
in this order as long as the next batch is ready whenever any batch is.

* `commitRequests_inOrder` — the requests of every run in which the next batch is ready first.
-/
import ViaCore.Aggregator
import ViaCore.Bitcoin

section CommitOrder

variable {Address : Type} {db : SenderDb Address}

/-! ### The invariant -/

def commitBatches (db : SenderDb Address) : List ℕ :=
  db.batchInscriptions.map BatchInscriptionRow.l1BatchNumber

def commitRequestIds (db : SenderDb Address) : List ℕ :=
  db.batchInscriptions.map BatchInscriptionRow.commitL1BatchInscriptionId

/-- The batches with a commit request are `1, ..., n`, and the requests were created in that
order. -/
def CommitsInOrder (db : SenderDb Address) : Prop :=
  (∃ n, commitBatches db = List.range' 1 n) ∧ (commitRequestIds db).Pairwise (· < ·)

def lastCommitBatch (db : SenderDb Address) : ℕ := (commitBatches db).foldl max 0

variable (db) in
structure CommitInv (n : ℕ) : Prop where
  batches : commitBatches db = List.range' 1 n
  ids : (commitRequestIds db).Pairwise (· < ·)
  bound : ∀ id ∈ commitRequestIds db, id ≤ db.requestSequence

theorem foldl_max_range' (n : ℕ) : (List.range' 1 n).foldl max 0 = n := by
  induction n with
  | zero => rfl
  | succ n ih =>
    rw [List.range'_concat, List.foldl_append, ih]
    simp
    omega

variable {db' : SenderDb Address}

namespace CommitInv

variable {n : ℕ}

theorem lastCommitBatch_eq (h : CommitInv db n) : lastCommitBatch db = n := by
  rw [lastCommitBatch, h.batches, foldl_max_range']

theorem congr (h : CommitInv db n) (hbatches : commitBatches db' = commitBatches db)
    (hids : commitRequestIds db' = commitRequestIds db)
    (hsequence : db.requestSequence ≤ db'.requestSequence) : CommitInv db' n where
  batches := hbatches.trans h.batches
  ids := by
    rw [hids]
    exact h.ids
  bound id hid := by
    rw [hids] at hid
    exact (h.bound id hid).trans hsequence

variable {message : InscriptionMessage Address}

theorem commit (h : CommitInv db n) {fee : ℕ}
    (hinsert : SavesRequest db .commitL1BatchOnchain message fee (n + 1) db') :
    CommitInv db' (n + 1) := by
  obtain ⟨hsaved, -, hrows⟩ := savedRequest_commit hinsert
  have hids : commitRequestIds db' = commitRequestIds db ++ [db.requestSequence + 1] := by
    rw [commitRequestIds, hrows, List.map_append]
    rfl
  constructor
  · rw [commitBatches, hrows, List.map_append, ← commitBatches, h.batches, List.range'_concat,
      Nat.one_mul, Nat.add_comm 1 n]
    rfl
  · rw [hids, List.pairwise_append]
    refine ⟨h.ids, List.pairwise_singleton _ _, fun id hid id' hid' => ?_⟩
    rw [List.mem_singleton.1 hid']
    exact Nat.lt_succ_of_le (h.bound id hid)
  · intro id hid
    rw [hids] at hid
    rw [hsaved.requestSequence]
    rcases List.mem_append.1 hid with hid | hid
    · exact (h.bound id hid).trans (Nat.le_succ _)
    · exact (List.mem_singleton.1 hid).le

theorem proof (h : CommitInv db n) {fee number : ℕ}
    (hinsert : SavesRequest db .commitProofOnchain message fee number db') : CommitInv db' n := by
  obtain ⟨hsaved, -, hrows⟩ := savedRequest_proof hinsert
  refine h.congr ?_ ?_ (by rw [hsaved.requestSequence]; exact Nat.le_succ _)
  · rw [commitBatches, hrows, List.map_map]
    exact List.map_congr_left fun row _ => withProofRequest_l1BatchNumber _ _ row
  · rw [commitRequestIds, hrows, List.map_map]
    exact List.map_congr_left fun row _ => withProofRequest_commitId _ _ row

theorem lt_of_ready (h : CommitInv db n) {number : ℕ}
    (hready : ReadyForCommit db bootloaderCodeHash aaCodeHash protocolVersionLatest number) :
    n < number := by
  by_contra hle
  have hzero : number ≠ 0 := hready.1
  have hmem : number ∈ commitBatches db := by
    rw [h.batches, List.mem_range'_1]
    omega
  obtain ⟨row, hrow, hnumber⟩ := List.mem_map.1 hmem
  exact hready.2.1 row hrow hnumber

end CommitInv

/-! ### Runs -/

/-- An iteration that finds a ready batch finds the one after the last request ready. -/
def NextReadyFirst (db : SenderDb Address) : SenderEvent → Prop
  | .iterate _ _ => ∀ batch ∈ db.l1Batches,
      ReadyForCommit db bootloaderCodeHash aaCodeHash protocolVersionLatest batch.number →
      ReadyForCommit db bootloaderCodeHash aaCodeHash protocolVersionLatest
        (lastCommitBatch db + 1)
  | _ => True

instance (db : SenderDb Address) (e : SenderEvent) : Decidable (NextReadyFirst db e) := by
  unfold NextReadyFirst
  split <;> infer_instance

namespace CommitInv

variable {n : ℕ}

variable {config : ViaBtcSenderConfig} {answers : AggregatorAnswers}

theorem map_number_ready (h : CommitInv db n) (hnext : NextReadyFirst db (.iterate config answers))
    (hchain : (readyForCommitL1Batches config db).IsChain Follows) :
    (readyForCommitL1Batches config db).map ViaBtcL1BlockDetails.number
      = List.range' (n + 1) (readyForCommitL1Batches config db).length := by
  cases hrows : lowest CommitJoin.number config.maxAggregatedBlocksToCommit
      (readyForCommitRows db bootloaderCodeHash aaCodeHash protocolVersionLatest) with
  | nil =>
    rw [readyForCommitL1Batches, getReadyForCommitL1Batches, hrows]
    rfl
  | cons first rest =>
    have hready : readyForCommitL1Batches config db
        = first.details :: rest.map CommitJoin.details := by
      rw [readyForCommitL1Batches, getReadyForCommitL1Batches, hrows, List.map_cons]
    have hmem := mem_of_mem_lowest (hrows ▸ List.mem_cons_self : first ∈ lowest CommitJoin.number
      config.maxAggregatedBlocksToCommit _)
    have hfirst := mem_readyForCommitRows.1 ⟨first, hmem, rfl⟩
    -- the next batch is ready too, and nothing ready comes before it
    have hlow := h.lt_of_ready hfirst
    have hhigh : first.number ≤ n + 1 := by
      obtain ⟨batch, hbatch, hnumber, -⟩ := hfirst.2.2.1
      have hready' := hnext batch hbatch (hnumber ▸ hfirst)
      rw [h.lastCommitBatch_eq] at hready'
      obtain ⟨r, hr, hrnumber⟩ := mem_readyForCommitRows.2 hready'
      exact hrnumber ▸ lowest_head_le hrows hr
    have hnumber : first.details.number = n + 1 := by
      change first.number = n + 1
      omega
    rw [hready] at hchain ⊢
    rw [map_eq_range'_of_isChain hchain, hnumber, List.length_cons]

theorem iterate (h : CommitInv db n) (hnext : NextReadyFirst db (.iterate config answers)) :
    ∃ m, CommitInv (aggregatorLoopIteration config db answers).1 m := by
  rcases @aggregatorLoopIteration_cases _ config db answers
    with ⟨sequence, hle, hdb⟩ | ⟨op, hop, hok, hdb⟩
  · rw [hdb]
    exact ⟨n, h.congr rfl rfl hle⟩
  · rw [hdb]
    rcases getNextReadyOperation_eq_some hop with ⟨-, k, rfl⟩ | ⟨hchain, k, rfl⟩
    · exact saveRequests_invariant (I := fun db _ => ∃ m, CommitInv db m)
        (fun _ _ _ _ _ _ ⟨m, hm⟩ _ hinsert => ⟨m, hm.proof hinsert⟩) ⟨n, h⟩ hok
    · -- the batches still to come follow the last request
      have hnumbers := h.map_number_ready hnext hchain
      obtain ⟨m, hm, -⟩ := saveRequests_invariant
        (I := fun db batches => ∃ m, CommitInv db m
          ∧ batches.map ViaBtcL1BlockDetails.number = List.range' (m + 1) batches.length)
        (fun db batch rest message fee db' ⟨m, hm, hrest⟩ _ hinsert => by
          rw [List.map_cons, List.length_cons, List.range'_succ] at hrest
          obtain ⟨hbatch, hrest⟩ := List.cons.inj hrest
          rw [hbatch] at hinsert
          exact ⟨m + 1, hm.commit hinsert, hrest⟩)
        ⟨n, h, map_take_eq_range' hnumbers k⟩ hok
      exact ⟨m, hm⟩

theorem step {e : SenderEvent} (h : ∃ n, CommitInv db n)
    (hstep : (senderStep Address).under NextReadyFirst db e db') : ∃ n, CommitInv db' n := by
  obtain ⟨n, hn⟩ := h
  obtain ⟨hstep, hnext⟩ := hstep
  cases hstep
  rcases db.step_frame e with ⟨config, answers, rfl⟩ | hframe
  · exact hn.iterate hnext
  · refine ⟨n, hn.congr ?_ ?_ hframe.requestSequence.ge⟩
    · rw [commitBatches, hframe.batchInscriptions, commitBatches]
    · rw [commitRequestIds, hframe.batchInscriptions, commitRequestIds]

end CommitInv

/-- **Commit order.**  In every run whose iterations find the next batch ready first, the batches
with a commit request are `1, ..., n`, in the order of their requests. -/
theorem commitRequests_inOrder {es : List SenderEvent}
    (hrun : Run ((senderStep Address).under NextReadyFirst) (.empty Address) es db) :
    CommitsInOrder db := by
  obtain ⟨n, hn⟩ := hrun.invariant (I := fun db => ∃ n, CommitInv db n)
    (fun _ _ _ h hstep => CommitInv.step h hstep)
    ⟨0, rfl, List.Pairwise.nil, nofun⟩
  exact ⟨⟨n, hn.batches⟩, hn.ids⟩

def sampleProtocolVersion : ProtocolVersionRow :=
  { id := 24
    bootloaderCodeHash := bootloaderCodeHash
    defaultAccountCodeHash := aaCodeHash
    upgradeTxHash := none }

def sealBatch (number : ℕ) : List SenderEvent :=
  [.insertL1Batch number (1000 * number) 24, .saveL1BatchTreeData number (.replicate 32 1)]

def readyBatch (number : ℕ) : List SenderEvent :=
  [.insertDa number false sampleBlobId, .saveInclusionData number false [1],
    .saveL1BatchCommitmentArtifacts number (.replicate 32 2)
      (some (.replicate 32 3, .replicate 32 4))]

def sampleSenderConfig : ViaBtcSenderConfig :=
  { maxAggregatedBlocksToCommit := 1
    maxAggregatedProofsToCommit := 1
    daIdentifier := sampleDaIdentifier }

def sampleIteration : SenderEvent :=
  .iterate sampleSenderConfig { now := 5000, predictFee := fun _ => some 1000, commits := true }

def sampleCommitRun : List SenderEvent :=
  .insertProtocolVersion sampleProtocolVersion :: sealBatch 1 ++ sealBatch 2 ++ readyBatch 1
    ++ [sampleIteration] ++ readyBatch 2 ++ [sampleIteration]

theorem commitRequests_inOrder_two :
    ∃ db, Run ((senderStep SampleAddress).under NextReadyFirst) (.empty SampleAddress)
        sampleCommitRun db
      ∧ commitBatches db = [1, 2]
      ∧ CommitsInOrder db :=
  Run.witnessUnder (fun _ hrun hbatches => ⟨hbatches, commitRequests_inOrder hrun⟩)
    (by decide +kernel)

def sampleReversedRun : List SenderEvent :=
  .insertProtocolVersion sampleProtocolVersion :: sealBatch 1 ++ sealBatch 2 ++ readyBatch 2
    ++ [sampleIteration]

/-- **A hole.**  The batches that are ready are consecutive, so batch 2 gets a request before
batch 1. -/
theorem commitRequests_reversed :
    ∃ db, Run (senderStep SampleAddress) (.empty SampleAddress) sampleReversedRun db
      ∧ commitBatches db = [2]
      ∧ ¬ CommitsInOrder db := by
  refine Run.witness (fun db _ hbatches => ⟨hbatches, ?_⟩) (by decide +kernel)
  rintro ⟨⟨n, hn⟩, -⟩
  rw [hbatches] at hn
  cases n with
  | zero => cases hn
  | succ n =>
    rw [List.range'_succ] at hn
    cases hn

end CommitOrder
