/-
What the dispatcher publishes of a real proof.

For a batch with a generated proof the dispatcher prepares a `ProveBatches` call, turns it into ABI
tokens and hands a byte string made from the tokens to the data availability layer.  The tokens of
the call are two tuples and an array, and the conversion into bytes (`Token.intoBytes`) has a value
only for tokens of kind `bytes`.  So nothing of the call is in the blob.

* `realProofBlob_determines_iff` — when equal blobs mean equal calls.
-/
import ViaCore.Bytes

inductive Token where
  | address (address : EVMAddress)
  | fixedBytes (data : Bytes)
  | bytes (data : Bytes)
  | int (value : ℕ)
  | uint (value : ℕ)
  | bool (value : Bool)
  | string (text : Utf8)
  | fixedArray (tokens : List Token)
  | array (tokens : List Token)
  | tuple (tokens : List Token)

def Token.intoBytes : Token → Option Bytes
  | .bytes data => some data
  | _ => none

/-! ### Prove operations -/

structure PriorityOpOnchainData where
  layer2TipFee : ℕ
  onchainDataHash : H256

structure L1BatchHeader where
  number : ℕ
  timestamp : ℕ
  l1TxCount : ℕ
  priorityOpsOnchainData : List PriorityOpOnchainData
  protocolVersion : Option ℕ

structure L1BatchMetadata where
  rootHash : H256
  rollupLastLeafIndex : ℕ
  commitment : H256
  l2L1MerkleRoot : H256

structure L1BatchWithMetadata where
  header : L1BatchHeader
  metadata : L1BatchMetadata

structure L1BatchProofForL1 (FinalProof : Type) where
  aggregationResultCoords : List (FixedBytes 32)
  coords_length : aggregationResultCoords.length = 4
  schedulerProof : FinalProof

structure ProveBatches (FinalProof : Type) where
  prevL1Batch : L1BatchWithMetadata
  l1Batches : List L1BatchWithMetadata
  proofs : List (L1BatchProofForL1 FinalProof)
  shouldVerify : Bool

structure StoredBatchInfo where
  batchNumber : ℕ
  batchHash : H256
  indexRepeatedStorageChanges : ℕ
  numberOfLayer1Txs : ℕ
  priorityOperationsHash : H256
  l2LogsTreeRoot : H256
  timestamp : ℕ
  commitment : H256
  deriving DecidableEq

/-- The last version before Boojum is 17. -/
def isPreBoojum (protocolVersion : ℕ) : Bool := protocolVersion ≤ 17

def fromBigEndian (bytes : FixedBytes 32) : ℕ :=
  bytes.bytes.foldl (fun n b => 256 * n + b.toNat) 0

section Encoding

/-- `serializeProof` gives the words of a proof, `keccak256` is the hash. -/
structure ProofLibrary (FinalProof : Type) where
  serializeProof : FinalProof → List ℕ
  keccak256 : Bytes → H256

variable {FinalProof : Type} (L : ProofLibrary FinalProof)

def L1BatchHeader.priorityOpsOnchainDataHash (header : L1BatchHeader) : H256 :=
  header.priorityOpsOnchainData.foldl
    (fun rollingHash onchainData =>
      L.keccak256 (rollingHash.bytes ++ onchainData.onchainDataHash.bytes))
    (L.keccak256 [])

def StoredBatchInfo.fromBatch (x : L1BatchWithMetadata) : StoredBatchInfo :=
  { batchNumber := x.header.number
    batchHash := x.metadata.rootHash
    indexRepeatedStorageChanges := x.metadata.rollupLastLeafIndex
    numberOfLayer1Txs := x.header.l1TxCount
    priorityOperationsHash := x.header.priorityOpsOnchainDataHash L
    l2LogsTreeRoot := x.metadata.l2L1MerkleRoot
    timestamp := x.header.timestamp
    commitment := x.metadata.commitment }

def StoredBatchInfo.intoToken (info : StoredBatchInfo) : Token :=
  .tuple
    [.uint info.batchNumber,
      .fixedBytes info.batchHash.bytes,
      .uint info.indexRepeatedStorageChanges,
      .uint info.numberOfLayer1Txs,
      .fixedBytes info.priorityOperationsHash.bytes,
      .fixedBytes info.l2LogsTreeRoot.bytes,
      .uint info.timestamp,
      .fixedBytes info.commitment.bytes]

/-- Before Boojum the coordinates are part of the call. -/
def coordsToken (preBoojum : Bool) (proof : L1BatchProofForL1 FinalProof) : Token :=
  if preBoojum then .array (proof.aggregationResultCoords.map fun bytes =>
    .uint (fromBigEndian bytes))
  else .array []

/-- The assertions on the lengths and the `unwrap` of the version can panic. -/
def ProveBatches.intoTokens (call : ProveBatches FinalProof) : Outcome Unit (List Token) :=
  let prevL1Batch := (StoredBatchInfo.fromBatch L call.prevL1Batch).intoToken
  let batchesArg := Token.array
    (call.l1Batches.map fun batch => (StoredBatchInfo.fromBatch L batch).intoToken)
  if call.shouldVerify then
    match call.proofs, call.l1Batches with
    | [proof], [batch] =>
      Outcome.unwrap batch.header.protocolVersion >>= fun protocolVersion =>
        .ok [prevL1Batch, batchesArg,
          .tuple [coordsToken (isPreBoojum protocolVersion) proof,
            .array ((L.serializeProof proof.schedulerProof).map .uint)]]
    | _, _ => .panic
  else
    .ok [prevL1Batch, batchesArg, .tuple [.array [], .array []]]

def realProofBlob (call : ProveBatches FinalProof) : Outcome Unit Bytes :=
  call.intoTokens L >>= fun tokens => .ok (tokens.filterMap Token.intoBytes).flatten

end Encoding

/-! ### Preparing an operation -/

structure ProtocolSemanticVersion where
  minor : ℕ
  patch : ℕ
  deriving DecidableEq

inductive StoreAnswer (α : Type) where
  | found (a : α)
  | keyNotFound
  | error

/-- The answers of the database and the object store; errors of the database are `none`. -/
structure ProofSources (FinalProof : Type) where
  getLastL1BatchWithProveTx : Option ℕ
  getBatchProtocolVersionId : ℕ → Option ℕ
  latestSemanticVersion : Option ProtocolSemanticVersion
  l1VerifierConfigForVersion : ProtocolSemanticVersion → Option H256
  getPatchVersionsForVk : ℕ → H256 → Option (List ℕ)
  getL1BatchMetadata : ℕ → Option L1BatchWithMetadata
  getProof : ℕ → ProtocolSemanticVersion → StoreAnswer (L1BatchProofForL1 FinalProof)
  getProofByDeprecatedKey : ℕ → StoreAnswer (L1BatchProofForL1 FinalProof)

section Loading

variable {FinalProof : Type} (sources : ProofSources FinalProof)

/-- The loop over the allowed versions: the first proof, or `.error` if it was ended. -/
def firstProof (l1BatchNumber : ℕ) :
    List ProtocolSemanticVersion → StoreAnswer (L1BatchProofForL1 FinalProof)
  | [] => .keyNotFound
  | version :: rest =>
    match sources.getProof l1BatchNumber version with
    | .found proof => .found proof
    | .keyNotFound => firstProof l1BatchNumber rest
    | .error => .error

def loadWrappedFriProofsForRange (l1BatchNumber : ℕ)
    (allowedVersions : List ProtocolSemanticVersion) : Option (L1BatchProofForL1 FinalProof) :=
  match firstProof sources l1BatchNumber allowedVersions with
  | .found proof => some proof
  | .error => none
  | .keyNotFound =>
    if allowedVersions.any fun version => version.patch = 0 then
      match sources.getProofByDeprecatedKey l1BatchNumber with
      | .found proof => some proof
      | _ => none
    else none

def loadRealProofOperation (batchToProve : ℕ) : Option (ProveBatches FinalProof) := do
  let previousProvenBatchNumber ← sources.getLastL1BatchWithProveTx
  let minorVersion ← sources.getBatchProtocolVersionId batchToProve
  let latestSemanticVersion ← sources.latestSemanticVersion
  let vkHash ← sources.l1VerifierConfigForVersion latestSemanticVersion
  let allowedPatchVersions ← sources.getPatchVersionsForVk minorVersion vkHash
  if allowedPatchVersions.isEmpty then none
  else
    let allowedVersions := allowedPatchVersions.map fun patch =>
      ({ minor := minorVersion, patch } : ProtocolSemanticVersion)
    let proof ← loadWrappedFriProofsForRange sources batchToProve allowedVersions
    let prevL1Batch ← sources.getL1BatchMetadata previousProvenBatchNumber
    let l1Batch ← sources.getL1BatchMetadata batchToProve
    some { prevL1Batch, l1Batches := [l1Batch], proofs := [proof], shouldVerify := true }

def dummyProofOperation (batchToProve : ℕ) : Option (ProveBatches FinalProof) := do
  let previousProvenBatchNumber ← sources.getLastL1BatchWithProveTx
  let prevL1Batch ← sources.getL1BatchMetadata previousProvenBatchNumber
  let l1Batch ← sources.getL1BatchMetadata batchToProve
  some { prevL1Batch, l1Batches := [l1Batch], proofs := [], shouldVerify := false }

variable {sources} {number : ℕ} {proof : L1BatchProofForL1 FinalProof}
  {versions : List ProtocolSemanticVersion} {call : ProveBatches FinalProof}

theorem firstProof_found (h : firstProof sources number versions = .found proof) :
    ∃ version ∈ versions, sources.getProof number version = .found proof := by
  induction versions with
  | nil => cases h
  | cons version rest ih =>
    rw [firstProof] at h
    split at h
    · rename_i hfound
      obtain rfl := StoreAnswer.found.inj h
      exact ⟨version, List.mem_cons_self, hfound⟩
    · obtain ⟨later, hlater, hfound⟩ := ih h
      exact ⟨later, List.mem_cons_of_mem _ hlater, hfound⟩
    · cases h

theorem loadWrappedFriProofsForRange_found
    (h : loadWrappedFriProofsForRange sources number versions = some proof) :
    ∃ version ∈ versions, sources.getProof number version = .found proof ∨
      version.patch = 0 ∧ sources.getProofByDeprecatedKey number = .found proof := by
  unfold loadWrappedFriProofsForRange at h
  split at h
  · rename_i hfirst
    cases h
    obtain ⟨version, hversion, hfound⟩ := firstProof_found hfirst
    exact ⟨version, hversion, .inl hfound⟩
  · cases h
  · split at h
    · rename_i hany
      obtain ⟨version, hversion, hpatch⟩ := List.any_eq_true.1 hany
      split at h
      · rename_i hfound
        cases h
        exact ⟨version, hversion, .inr ⟨of_decide_eq_true hpatch, hfound⟩⟩
      · cases h
    · cases h

theorem loadRealProofOperation_eq (h : loadRealProofOperation sources number = some call) :
    ∃ previous minor latest vkHash patches proof version prev batch,
      sources.getLastL1BatchWithProveTx = some previous ∧
      sources.getBatchProtocolVersionId number = some minor ∧
      sources.latestSemanticVersion = some latest ∧
      sources.l1VerifierConfigForVersion latest = some vkHash ∧
      sources.getPatchVersionsForVk minor vkHash = some patches ∧
      version.minor = minor ∧ version.patch ∈ patches ∧
      (sources.getProof number version = .found proof ∨
        version.patch = 0 ∧ sources.getProofByDeprecatedKey number = .found proof) ∧
      sources.getL1BatchMetadata previous = some prev ∧
      sources.getL1BatchMetadata number = some batch ∧ call = ⟨prev, [batch], [proof], true⟩ := by
  simp only [loadRealProofOperation, Option.bind_eq_bind, Option.bind_eq_some_iff] at h
  obtain ⟨previous, hprevious, minor, hminor, latest, hlatest, vkHash, hvk, patches, hpatches, h⟩ :=
    h
  split at h
  · cases h
  · simp only [Option.bind_eq_some_iff] at h
    obtain ⟨proof, hproof, prev, hprev, batch, hbatch, hcall⟩ := h
    obtain ⟨version, hversion, hfound⟩ := loadWrappedFriProofsForRange_found hproof
    obtain ⟨patch, hpatch, rfl⟩ := List.mem_map.1 hversion
    exact ⟨previous, minor, latest, vkHash, patches, proof, _, prev, batch, hprevious, hminor,
      hlatest, hvk, hpatches, rfl, hpatch, hfound, hprev, hbatch, (Option.some.inj hcall).symm⟩

end Loading

section Blobs

variable {FinalProof : Type} {L : ProofLibrary FinalProof} {a b : ProveBatches FinalProof}

def Prepared (call : ProveBatches FinalProof) : Prop :=
  ∃ sources batchToProve, loadRealProofOperation sources batchToProve = some call

theorem Prepared.shape {call : ProveBatches FinalProof} (h : Prepared call) :
    ∃ prev batch proof, call = ⟨prev, [batch], [proof], true⟩ := by
  obtain ⟨sources, batchToProve, hload⟩ := h
  obtain ⟨_, _, _, _, _, proof, _, prev, batch, -, -, -, -, -, -, -, -, -, -, rfl⟩ :=
    loadRealProofOperation_eq hload
  exact ⟨prev, batch, proof, rfl⟩

/-- The batch that is proved has a protocol version, so the conversion does not panic. -/
def HandedOver (call : ProveBatches FinalProof) : Prop :=
  ∀ batch ∈ call.l1Batches, batch.header.protocolVersion ≠ none
deriving Decidable

def calledCoords (call : ProveBatches FinalProof) : List ℕ :=
  if call.l1Batches.any fun batch => batch.header.protocolVersion.any isPreBoojum then
    (call.proofs.flatMap L1BatchProofForL1.aggregationResultCoords).map fromBigEndian
  else []

variable (L a b) in
/-- The two calls agree: on what the contract stores of the previous batch and of the batch, on the
coordinates and on the words of the proof. -/
def SameCall : Prop :=
  StoredBatchInfo.fromBatch L a.prevL1Batch = StoredBatchInfo.fromBatch L b.prevL1Batch
    ∧ a.l1Batches.map (StoredBatchInfo.fromBatch L) = b.l1Batches.map (StoredBatchInfo.fromBatch L)
    ∧ calledCoords a = calledCoords b
    ∧ a.proofs.map (fun proof => L.serializeProof proof.schedulerProof)
      = b.proofs.map fun proof => L.serializeProof proof.schedulerProof

theorem map_uint_inj {words words' : List ℕ} : words.map Token.uint = words'.map Token.uint
    ↔ words = words' :=
  List.map_inj_right (fun _ _ => Token.uint.inj)

theorem StoredBatchInfo.intoToken_inj {info info' : StoredBatchInfo} :
    info.intoToken = info'.intoToken ↔ info = info' := by
  refine ⟨fun h => ?_, fun h => congrArg _ h⟩
  simp only [StoredBatchInfo.intoToken, Token.tuple.injEq, List.cons.injEq, Token.uint.injEq,
    Token.fixedBytes.injEq, and_true] at h
  obtain ⟨hnumber, hhash, hindex, htxs, hops, hroot, htime, hcommitment⟩ := h
  cases info
  cases info'
  simp only [StoredBatchInfo.mk.injEq]
  exact ⟨hnumber, FixedBytes.eq_of_bytes hhash, hindex, htxs, FixedBytes.eq_of_bytes hops,
    FixedBytes.eq_of_bytes hroot, htime, FixedBytes.eq_of_bytes hcommitment⟩

theorem ProveBatches.intoTokens_prepared {prev batch : L1BatchWithMetadata}
    {proof : L1BatchProofForL1 FinalProof} (hversion : batch.header.protocolVersion ≠ none) :
    (⟨prev, [batch], [proof], true⟩ : ProveBatches FinalProof).intoTokens L
      = .ok [(StoredBatchInfo.fromBatch L prev).intoToken,
          .array [(StoredBatchInfo.fromBatch L batch).intoToken],
          .tuple [.array ((calledCoords ⟨prev, [batch], [proof], true⟩).map .uint),
            .array ((L.serializeProof proof.schedulerProof).map .uint)]] := by
  obtain ⟨version, hversion⟩ := Option.ne_none_iff_exists'.1 hversion
  have hcoords : coordsToken (isPreBoojum version) proof
      = .array ((calledCoords ⟨prev, [batch], [proof], true⟩).map .uint) := by
    unfold coordsToken calledCoords
    by_cases hpre : isPreBoojum version = true
    · simp [hversion, hpre]
    · simp [hversion, hpre]
  simp only [ProveBatches.intoTokens, hversion, Outcome.unwrap_some, Outcome.ok_bind, hcoords]
  rfl

theorem ProveBatches.intoTokens_inj (ha : Prepared a) (hb : Prepared b) (hva : HandedOver a)
    (hvb : HandedOver b) : a.intoTokens L = b.intoTokens L ↔ SameCall L a b := by
  obtain ⟨prev, batch, proof, rfl⟩ := ha.shape
  obtain ⟨prev', batch', proof', rfl⟩ := hb.shape
  rw [intoTokens_prepared (hva batch (List.mem_singleton_self _)),
    intoTokens_prepared (hvb batch' (List.mem_singleton_self _))]
  simp only [Outcome.ok.injEq, List.cons.injEq, Token.array.injEq, Token.tuple.injEq, and_true,
    StoredBatchInfo.intoToken_inj, map_uint_inj, SameCall, List.map_cons, List.map_nil]

theorem realProofBlob_prepared (ha : Prepared a) :
    realProofBlob L a = if HandedOver a then .ok [] else .panic := by
  obtain ⟨prev, batch, proof, rfl⟩ := ha.shape
  by_cases hversion : batch.header.protocolVersion = none
  · rw [if_neg fun h => h batch (List.mem_singleton_self _) hversion]
    simp only [realProofBlob, ProveBatches.intoTokens, hversion]
    rfl
  · have hhanded : HandedOver (⟨prev, [batch], [proof], true⟩ : ProveBatches FinalProof) := by
      intro batch' hbatch'
      rw [List.mem_singleton.1 hbatch']
      exact hversion
    rw [if_pos hhanded, realProofBlob, ProveBatches.intoTokens_prepared hversion]
    rfl

/-- **Blobs and calls.**  Every blob that is handed over is empty, and equal blobs mean equal calls
exactly if the calls agree on all their tokens. -/
theorem realProofBlob_determines_iff (ha : Prepared a) (hb : Prepared b) :
    (∀ blob, realProofBlob L a = .ok blob → blob = [])
      ∧ ((∀ blob, realProofBlob L a = .ok blob → realProofBlob L b = .ok blob →
          a.intoTokens L = b.intoTokens L)
        ↔ (HandedOver a → HandedOver b → SameCall L a b)) := by
  rw [realProofBlob_prepared ha, realProofBlob_prepared hb]
  refine ⟨fun blob hblob => ?_, fun h hva hvb => ?_, fun h blob hblob hblob' => ?_⟩
  · split at hblob
    · exact (Outcome.ok.inj hblob).symm
    · cases hblob
  · rw [if_pos hva, if_pos hvb] at h
    exact (ProveBatches.intoTokens_inj ha hb hva hvb).1 (h [] rfl rfl)
  · split at hblob
    · rename_i hva
      split at hblob'
      · rename_i hvb
        exact (ProveBatches.intoTokens_inj ha hb hva hvb).2 (h hva hvb)
      · cases hblob'
    · cases hblob

def sampleBatchWithMetadata (number : ℕ) : L1BatchWithMetadata :=
  { header :=
      { number
        timestamp := 1000 * number
        l1TxCount := 0
        priorityOpsOnchainData := []
        protocolVersion := some 24 }
    metadata :=
      { rootHash := .replicate 32 1
        rollupLastLeafIndex := 100
        commitment := .replicate 32 2
        l2L1MerkleRoot := .replicate 32 3 } }

def sampleProof (coord : UInt8) : L1BatchProofForL1 (List ℕ) :=
  { aggregationResultCoords := List.replicate 4 (.replicate 32 coord)
    coords_length := List.length_replicate
    schedulerProof := [5, 6, 7] }

def sampleSources (coord : UInt8) : ProofSources (List ℕ) :=
  { getLastL1BatchWithProveTx := some 0
    getBatchProtocolVersionId := fun _ => some 24
    latestSemanticVersion := some ⟨24, 1⟩
    l1VerifierConfigForVersion := fun _ => some (.replicate 32 9)
    getPatchVersionsForVk := fun _ _ => some [0, 1]
    getL1BatchMetadata := fun number => some (sampleBatchWithMetadata number)
    getProof := fun _ version =>
      if version.patch = 1 then .found (sampleProof coord) else .keyNotFound
    getProofByDeprecatedKey := fun _ => .keyNotFound }

def sampleCall (coord : UInt8) (number : ℕ) : ProveBatches (List ℕ) :=
  { prevL1Batch := sampleBatchWithMetadata 0
    l1Batches := [sampleBatchWithMetadata number]
    proofs := [sampleProof coord]
    shouldVerify := true }

theorem sampleCall_prepared (coord : UInt8) (number : ℕ) : Prepared (sampleCall coord number) :=
  ⟨sampleSources coord, number, rfl⟩

def sampleProofLibrary : ProofLibrary (List ℕ) :=
  { serializeProof := fun words => words
    keccak256 := fun preimage =>
      if preimage = [] then
        .ofNat 32 0xc5d2460186f7233c927e7db2dcc703c0e500b653ca82273b7bfad8045d85a470
      else .replicate 32 0 }

theorem realProofBlob_determines_iff_sample :
    Prepared (sampleCall 1 1) ∧ Prepared (sampleCall 2 1)
      ∧ realProofBlob sampleProofLibrary (sampleCall 1 1) = .ok []
      ∧ ∀ blob, realProofBlob sampleProofLibrary (sampleCall 1 1) = .ok blob →
        realProofBlob sampleProofLibrary (sampleCall 2 1) = .ok blob →
        (sampleCall 1 1).intoTokens sampleProofLibrary
          = (sampleCall 2 1).intoTokens sampleProofLibrary := by
  have ha : Prepared (sampleCall 1 1) := sampleCall_prepared 1 1
  have hb : Prepared (sampleCall 2 1) := sampleCall_prepared 2 1
  have hsame : SameCall sampleProofLibrary (sampleCall 1 1) (sampleCall 2 1) :=
    ⟨rfl, rfl, rfl, rfl⟩
  exact ⟨ha, hb, rfl, (realProofBlob_determines_iff ha hb).2.2 fun _ _ => hsame⟩

/-- **Different batches, the same blob.**  Both blobs are empty. -/
theorem realProofBlob_empty :
    Prepared (sampleCall 1 1) ∧ Prepared (sampleCall 1 2)
      ∧ realProofBlob sampleProofLibrary (sampleCall 1 1) = .ok []
      ∧ realProofBlob sampleProofLibrary (sampleCall 1 2) = .ok []
      ∧ (sampleCall 1 1).intoTokens sampleProofLibrary
        ≠ (sampleCall 1 2).intoTokens sampleProofLibrary := by
  refine ⟨sampleCall_prepared 1 1, sampleCall_prepared 1 2, rfl, rfl, fun h => ?_⟩
  have htokens := Outcome.ok.inj h
  simp [StoredBatchInfo.intoToken, StoredBatchInfo.fromBatch, sampleCall,
    sampleBatchWithMetadata] at htokens

end Blobs

/-! ### The batches of an operation -/

/-- A row of `l1_batches`; the metadata is there once all of its columns are filled. -/
structure ProvedBatchRow where
  number : ℕ
  ethProveTxId : Option ℕ
  protocolVersion : Option ℕ
  metadata : Option L1BatchWithMetadata
  header_number : ∀ batch ∈ metadata, batch.header.number = number

structure ProofTables (FinalProof : Type) where
  l1Batches : List ProvedBatchRow
  protocolPatches : List (ProtocolSemanticVersion × H256)
  getProof : ℕ → ProtocolSemanticVersion → StoreAnswer (L1BatchProofForL1 FinalProof)
  getProofByDeprecatedKey : ℕ → StoreAnswer (L1BatchProofForL1 FinalProof)

namespace ProofTables

variable {FinalProof : Type} (tables : ProofTables FinalProof)

def l1Batch (number : ℕ) : Option ProvedBatchRow := tables.l1Batches.find? fun row =>
    row.number = number

def getL1BatchMetadata (number : ℕ) : Option L1BatchWithMetadata :=
  (tables.l1Batch number).bind ProvedBatchRow.metadata

/-- `SELECT COALESCE(MAX(number), 0) FROM l1_batches WHERE eth_prove_tx_id IS NOT NULL`. -/
def getLastL1BatchWithProveTx : ℕ :=
  ((tables.l1Batches.filter fun row => row.ethProveTxId.isSome).map ProvedBatchRow.number).max?.getD
    0

def sources : ProofSources FinalProof where
  getLastL1BatchWithProveTx := some tables.getLastL1BatchWithProveTx
  getBatchProtocolVersionId number := (tables.l1Batch number).bind ProvedBatchRow.protocolVersion
  latestSemanticVersion :=
    (tables.protocolPatches.map Prod.fst).argmax fun version => toLex (version.minor, version.patch)
  l1VerifierConfigForVersion version :=
    (tables.protocolPatches.find? fun row => row.1 = version).map Prod.snd
  getPatchVersionsForVk minor vkHash :=
    some (((tables.protocolPatches.filter fun row => row.1.minor = minor ∧ row.2 = vkHash).map
      fun row => row.1.patch).insertionSort fun a b => b ≤ a)
  getL1BatchMetadata := tables.getL1BatchMetadata
  getProof := tables.getProof
  getProofByDeprecatedKey := tables.getProofByDeprecatedKey

def proveOperation (dispatchRealProof : Bool) (number : ℕ) : Option (ProveBatches FinalProof) :=
  if dispatchRealProof then loadRealProofOperation tables.sources number
  else dummyProofOperation tables.sources number

/-- The operation proves the batch on top of the one before it, with a proof stored under a version
that the verifier of the latest one accepts. -/
structure Chained (number : ℕ) (call : ProveBatches FinalProof) : Prop where
  prev : ∃ previous, previous + 1 = number ∧
    tables.getL1BatchMetadata previous = some call.prevL1Batch
  batch : ∃ batch, tables.getL1BatchMetadata number = some batch ∧ call.l1Batches = [batch]
  proof : ∀ proof ∈ call.proofs, ∃ row version vkHash,
    tables.l1Batch number = some row ∧ row.protocolVersion = some version.minor ∧
    tables.sources.latestSemanticVersion.bind tables.sources.l1VerifierConfigForVersion =
      some vkHash ∧
    (version, vkHash) ∈ tables.protocolPatches ∧
    (tables.getProof number version = .found proof ∨
      version.patch = 0 ∧ tables.getProofByDeprecatedKey number = .found proof)

variable {tables} {number : ℕ} {call : ProveBatches FinalProof}

theorem number_of_getL1BatchMetadata {batch : L1BatchWithMetadata}
    (h : tables.getL1BatchMetadata number = some batch) : batch.header.number = number := by
  obtain ⟨row, hrow, hbatch⟩ := Option.bind_eq_some_iff.1 h
  have hnumber := List.find?_some hrow
  rw [row.header_number batch hbatch]
  exact of_decide_eq_true hnumber

variable {dispatchRealProof : Bool}

theorem proveOperation_batches (h : tables.proveOperation dispatchRealProof number = some call) :
    tables.getL1BatchMetadata tables.getLastL1BatchWithProveTx = some call.prevL1Batch ∧
      ∃ batch, tables.getL1BatchMetadata number = some batch ∧ call.l1Batches = [batch] := by
  cases dispatchRealProof with
  | true =>
    obtain ⟨_, _, _, _, _, proof, _, prev, batch, hprevious, -, -, -, -, -, -, -, hprev, hbatch,
      rfl⟩ := loadRealProofOperation_eq h
    cases hprevious
    exact ⟨hprev, batch, hbatch, rfl⟩
  | false =>
    simp only [proveOperation, dummyProofOperation, Option.bind_eq_bind, Option.bind_eq_some_iff,
      Bool.false_eq_true, if_false] at h
    obtain ⟨_, hprevious, prev, hprev, batch, hbatch, hcall⟩ := h
    cases hprevious
    cases hcall
    exact ⟨hprev, batch, hbatch, rfl⟩

/-- **A prove operation is chained** to the batch before it exactly if that is the last batch with
an Ethereum prove transaction. -/
theorem proveOperation_chained_iff
    (h : tables.proveOperation dispatchRealProof number = some call) :
    tables.Chained number call ↔ tables.getLastL1BatchWithProveTx + 1 = number := by
  obtain ⟨hprev, hbatch⟩ := proveOperation_batches h
  constructor
  · rintro ⟨⟨previous, hnumber, hprevious⟩, -, -⟩
    rw [← hnumber, ← number_of_getL1BatchMetadata hprev, number_of_getL1BatchMetadata hprevious]
  · intro hnumber
    refine ⟨⟨_, hnumber, hprev⟩, hbatch, fun proof hproof => ?_⟩
    cases dispatchRealProof with
    | false =>
      simp only [proveOperation, dummyProofOperation, Option.bind_eq_bind, Option.bind_eq_some_iff,
        Bool.false_eq_true, if_false] at h
      obtain ⟨_, -, _, -, _, -, hcall⟩ := h
      cases hcall
      cases hproof
    | true =>
      obtain ⟨_, _, latest, vkHash, patches, _, version, _, _, -, hminor, hlatest, hvk, hpatches,
        rfl, hpatch, hfound, -, -, rfl⟩ := loadRealProofOperation_eq h
      obtain rfl := List.mem_singleton.1 hproof
      obtain ⟨row, hrow, hversion⟩ := Option.bind_eq_some_iff.1 hminor
      refine ⟨row, version, vkHash, hrow, hversion, Option.bind_eq_some_iff.2
        ⟨latest, hlatest, hvk⟩, ?_, hfound⟩
      cases hpatches
      obtain ⟨⟨⟨minor, patch⟩, vkHash⟩, hmem, rfl⟩ :=
        List.mem_map.1 ((List.mem_insertionSort _).1 hpatch)
      obtain ⟨hstored, hkey⟩ := List.mem_filter.1 hmem
      -- the patch was selected by the key of the latest version
      obtain ⟨rfl, rfl⟩ := of_decide_eq_true hkey
      exact hstored

end ProofTables

/-- Batches 0 to 2, of which none has an Ethereum prove transaction. -/
def sampleProofTables : ProofTables (List ℕ) where
  l1Batches := [0, 1, 2].map fun number =>
    ⟨number, none, some 24, some (sampleBatchWithMetadata number), by
      simp [sampleBatchWithMetadata]⟩
  protocolPatches := [(⟨24, 0⟩, .replicate 32 9), (⟨24, 1⟩, .replicate 32 9)]
  getProof _ version := if version.patch = 1 then .found (sampleProof 1) else .keyNotFound
  getProofByDeprecatedKey _ := .keyNotFound

theorem proveOperation_chained_first :
    ∃ call, sampleProofTables.proveOperation true 1 = some call ∧
      sampleProofTables.Chained 1 call := by
  have hsome : (sampleProofTables.proveOperation true 1).isSome := by decide +kernel
  obtain ⟨call, h⟩ := Option.isSome_iff_exists.1 hsome
  exact ⟨call, h, (ProofTables.proveOperation_chained_iff h).2 (by decide +kernel)⟩

/-- **The second batch is proved on top of the genesis as well**, in both modes. -/
theorem proveOperation_skips_batch :
    ([true, false].map fun dispatchRealProof =>
      (sampleProofTables.proveOperation dispatchRealProof 2).map fun call =>
        (call.prevL1Batch.header.number, call.l1Batches.map fun batch => batch.header.number)) =
      [some (0, [2]), some (0, [2])] := by
  decide +kernel
