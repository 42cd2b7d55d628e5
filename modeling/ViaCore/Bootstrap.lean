/-
Bootstrapping the indexer.

The indexer is created from a list of bootstrap transactions.  Their messages build up a
`BootstrapState`: a bootstrapping message sets the verifiers, a proposal sets the sequencer, and an
attestation of a verifier for the proposal in force is recorded as a vote.

A new proposal does not clear the votes, and a second bootstrapping message clears neither.
`KeepsVotes` is the discipline that the messages have to follow for the votes to be about the
proposal in force:

* `createIndexer_agreement` — an indexer made after a disciplined run has a majority behind it.
-/
import ViaCore.ScriptBuilder
import ViaCore.Runs

inductive IndexerError where
  | incompleteBootstrap (message : String)
  | invalidBlockHeight (height : ℕ)
  | bitcoinClientError
  deriving DecidableEq

structure BootstrapState (Address : Type) where
  verifierAddresses : List Address
  proposedSequencer : Option Address
  proposedSequencerTxid : Option Txid
  sequencerVotes : AList fun _ : Address => Vote
  bridgeAddress : Option Address
  startingBlockNumber : UInt32
  bootloaderHash : Option H256
  abstractAccountHash : Option H256

namespace BootstrapState

variable {Address : Type}

def new : BootstrapState Address :=
  { verifierAddresses := []
    proposedSequencer := none
    proposedSequencerTxid := none
    sequencerVotes := ∅
    bridgeAddress := none
    startingBlockNumber := 0
    bootloaderHash := none
    abstractAccountHash := none }

def hasMajorityVotes (self : BootstrapState Address) : Bool :=
  let totalVotes := self.sequencerVotes.entries.length
  let positiveVotes := (self.sequencerVotes.entries.filter fun e => e.2 = Vote.ok).length
  positiveVotes * 2 > totalVotes && totalVotes = self.verifierAddresses.length

def isComplete (self : BootstrapState Address) : Bool :=
  !self.verifierAddresses.isEmpty
    && self.proposedSequencer.isSome
    && self.bridgeAddress.isSome
    && 0 < self.startingBlockNumber
    && self.hasMajorityVotes
    && self.bootloaderHash.isSome
    && self.abstractAccountHash.isSome

end BootstrapState

structure BitcoinInscriptionIndexer (Address : Type) where
  parser : MessageParser Address
  bridgeAddress : Address
  sequencerAddress : Address
  verifierAddresses : List Address
  startingBlockNumber : UInt32
  deriving DecidableEq

section Bootstrap

variable {Address : Type} [DecidableEq Address] (B : RustBitcoin Address)

def processBootstrapMessage (network : Network) (state : BootstrapState Address)
    (message : FullInscriptionMessage Address) (txid : Txid) :
    Outcome IndexerError (BootstrapState Address) :=
  match message with
  | .systemBootstrapping sb => do
    let verifierAddresses ← sb.input.verifierP2wpkhAddresses.mapM fun a =>
      Outcome.unwrap (B.requireNetwork a network)
    let bridgeAddress ← Outcome.unwrap (B.requireNetwork sb.input.bridgeP2wpkhMpcAddress network)
    return { state with
      verifierAddresses
      bridgeAddress := some bridgeAddress
      startingBlockNumber := sb.input.startBlockHeight
      bootloaderHash := some sb.input.bootloaderHash
      abstractAccountHash := some sb.input.abstractAccountHash }
  | .proposeSequencer ps =>
    if ps.common.p2wpkhAddress ∈ state.verifierAddresses then do
      let sequencerAddress ←
        Outcome.unwrap (B.requireNetwork ps.input.sequencerNewP2wpkhAddress network)
      return { state with
        proposedSequencer := some sequencerAddress
        proposedSequencerTxid := some txid }
    else .ok state
  | .validatorAttestation va =>
    if va.common.p2wpkhAddress ∈ state.verifierAddresses ∧ state.proposedSequencer.isSome then
      match state.proposedSequencerTxid with
      | some proposedTxid =>
        if va.input.referenceTxid = proposedTxid then
          .ok { state with
            sequencerVotes :=
              state.sequencerVotes.insert va.common.p2wpkhAddress va.input.attestation }
        else .ok state
      | none => .ok state
    else .ok state
  | _ => .ok state

def createIndexer (state : BootstrapState Address) (parser : MessageParser Address) :
    Outcome IndexerError (BitcoinInscriptionIndexer Address) :=
  if state.isComplete then
    match state.bridgeAddress, state.proposedSequencer with
    | some bridge, some sequencer =>
      .ok
        { parser
          bridgeAddress := bridge
          sequencerAddress := sequencer
          verifierAddresses := state.verifierAddresses
          startingBlockNumber := state.startingBlockNumber }
    | _, _ => .err (.incompleteBootstrap
        "Incomplete bootstrap process despite state being marked as complete")
  else .err (.incompleteBootstrap "Bootstrap process did not complete with provided transactions")

def processBootstrapMessages (network : Network) (txid : Txid) :
    BootstrapState Address → List (FullInscriptionMessage Address) →
      Outcome IndexerError (BootstrapState Address)
  | state, [] => .ok state
  | state, message :: rest => do
    let state ← processBootstrapMessage B network state message txid
    processBootstrapMessages network txid state rest

/-- The loop of `new`: it stops at the first transaction that completes the state. -/
def bootstrapLoop (network : Network) (getTransaction : Txid → Option Transaction) :
    MessageParser Address → BootstrapState Address → List Txid →
      Outcome IndexerError (MessageParser Address × BootstrapState Address)
  | parser, state, [] => .ok (parser, state)
  | parser, state, txid :: rest =>
    match getTransaction txid with
    | none => .err .bitcoinClientError
    | some tx =>
      let parsed := parseTransaction B parser tx 0
      parsed.2 >>= fun messages =>
        processBootstrapMessages B network txid state messages >>= fun state =>
          if state.isComplete then .ok (parsed.1, state)
          else bootstrapLoop network getTransaction parsed.1 state rest

def BitcoinInscriptionIndexer.new (network : Network) (getTransaction : Txid → Option Transaction)
    (bootstrapTxids : List Txid) : Outcome IndexerError (BitcoinInscriptionIndexer Address) := do
  let (parser, state) ←
    bootstrapLoop B network getTransaction (.new network) .new bootstrapTxids
  createIndexer state parser

end Bootstrap

/-! ### What one message can do -/

section Steps

variable {Address : Type} {B : RustBitcoin Address} {network : Network}

def BootstrapState.bootstrapped (state : BootstrapState Address)
    (input : SystemBootstrappingInput Address) : BootstrapState Address :=
  { state with
    verifierAddresses := input.verifierP2wpkhAddresses
    bridgeAddress := some input.bridgeP2wpkhMpcAddress
    startingBlockNumber := input.startBlockHeight
    bootloaderHash := some input.bootloaderHash
    abstractAccountHash := some input.abstractAccountHash }

def BootstrapState.proposed (state : BootstrapState Address) (txid : Txid)
    (input : ProposeSequencerInput Address) : BootstrapState Address :=
  { state with
    proposedSequencer := some input.sequencerNewP2wpkhAddress
    proposedSequencerTxid := some txid }

theorem mapM_unwrap_requireNetwork {addresses checked : List Address}
    (h : (addresses.mapM fun a => (Outcome.unwrap (B.requireNetwork a network) :
      Outcome IndexerError Address)) = .ok checked) : checked = addresses := by
  induction addresses generalizing checked with
  | nil => exact (Outcome.ok.inj h).symm
  | cons a rest ih =>
    rw [List.mapM_cons] at h
    simp only [Outcome.bind_eq_ok, Outcome.pure_eq_ok, Outcome.unwrap_eq_ok] at h
    obtain ⟨b, hb, rest', hrest, hchecked⟩ := h
    rw [← Outcome.ok.inj hchecked, B.requireNetwork_eq_some hb, ih hrest]

variable [DecidableEq Address] {state state' : BootstrapState Address}
  {message : FullInscriptionMessage Address} {txid : Txid}

def BootstrapState.voted (state : BootstrapState Address) (voter : Address) (vote : Vote) :
    BootstrapState Address :=
  { state with sequencerVotes := state.sequencerVotes.insert voter vote }

/-- **Everything one message can do.** -/
theorem processBootstrapMessage_cases
    (h : processBootstrapMessage B network state message txid = .ok state') :
    (∃ sb, message = .systemBootstrapping sb ∧ state' = state.bootstrapped sb.input) ∨
    (∃ ps, message = .proposeSequencer ps ∧ ps.common.p2wpkhAddress ∈ state.verifierAddresses
      ∧ state' = state.proposed txid ps.input) ∨
    (∃ va, message = .validatorAttestation va ∧ va.common.p2wpkhAddress ∈ state.verifierAddresses
      ∧ state.proposedSequencerTxid = some va.input.referenceTxid
      ∧ state' = state.voted va.common.p2wpkhAddress va.input.attestation) ∨
    ((∀ sb, message ≠ .systemBootstrapping sb)
      ∧ (∀ ps, message = .proposeSequencer ps → ps.common.p2wpkhAddress ∉ state.verifierAddresses)
      ∧ state' = state) := by
  cases message with
  | systemBootstrapping sb =>
    simp only [processBootstrapMessage, Outcome.bind_eq_ok, Outcome.pure_eq_ok,
      Outcome.unwrap_eq_ok] at h
    obtain ⟨verifiers, hverifiers, bridge, hbridge, hstate⟩ := h
    refine .inl ⟨sb, rfl, ?_⟩
    rw [← Outcome.ok.inj hstate, mapM_unwrap_requireNetwork hverifiers,
      B.requireNetwork_eq_some hbridge]
    rfl
  | proposeSequencer ps =>
    simp only [processBootstrapMessage] at h
    split at h
    · rename_i hsigner
      simp only [Outcome.bind_eq_ok, Outcome.pure_eq_ok, Outcome.unwrap_eq_ok] at h
      obtain ⟨sequencer, hsequencer, hstate⟩ := h
      refine .inr (.inl ⟨ps, rfl, hsigner, ?_⟩)
      rw [← Outcome.ok.inj hstate, B.requireNetwork_eq_some hsequencer]
      rfl
    · rename_i hsigner
      refine .inr (.inr (.inr ⟨nofun, fun ps' hps => ?_, (Outcome.ok.inj h).symm⟩))
      cases hps
      exact hsigner
  | validatorAttestation va =>
    simp only [processBootstrapMessage] at h
    split at h
    · rename_i hsigner
      -- a vote counts only for the proposal in force
      split at h
      · rename_i proposedTxid htxid
        split at h
        · rename_i href
          refine .inr (.inr (.inl ⟨va, rfl, hsigner.1, ?_, (Outcome.ok.inj h).symm⟩))
          rw [htxid, href]
        · exact .inr (.inr (.inr ⟨nofun, nofun, (Outcome.ok.inj h).symm⟩))
      · exact .inr (.inr (.inr ⟨nofun, nofun, (Outcome.ok.inj h).symm⟩))
    · exact .inr (.inr (.inr ⟨nofun, nofun, (Outcome.ok.inj h).symm⟩))
  | l1BatchDAReference m | proofDAReference m | l1ToL2Message m =>
    exact .inr (.inr (.inr ⟨nofun, nofun, (Outcome.ok.inj h).symm⟩))

end Steps

section Agreement

variable {Address : Type} [DecidableEq Address]

abbrev BootstrapEvent (Address : Type) := Txid × FullInscriptionMessage Address

/-- The state together with its history: the messages processed, and the proposal that set the
sequencer. -/
structure BootstrapTrace (Address : Type) where
  state : BootstrapState Address
  events : List (BootstrapEvent Address)
  proposal : Option (Txid × ProposeSequencer Address)

def BootstrapTrace.start : BootstrapTrace Address := ⟨.new, [], none⟩

def acceptedProposal (state : BootstrapState Address) (e : BootstrapEvent Address) :
    Option (Txid × ProposeSequencer Address) :=
  match e.2 with
  | .proposeSequencer ps =>
    if ps.common.p2wpkhAddress ∈ state.verifierAddresses then some (e.1, ps) else none
  | _ => none

def BootstrapTrace.process (B : RustBitcoin Address) (network : Network)
    (s : BootstrapTrace Address) (e : BootstrapEvent Address) : Option (BootstrapTrace Address) :=
  (processBootstrapMessage B network s.state e.2 e.1).toOption.map fun state' =>
    { state := state'
      events := s.events ++ [e]
      proposal := (acceptedProposal s.state e).or s.proposal }

def bootstrapStep (B : RustBitcoin Address) (network : Network) :
    StepRel (BootstrapTrace Address) (BootstrapEvent Address) :=
  .ofPartial (BootstrapTrace.process B network)

/-- The discipline: an accepted proposal comes before any vote or from the transaction in force, and
a bootstrapping message keeps the voters and the proposer. -/
def KeepsVotes (s : BootstrapTrace Address) (e : BootstrapEvent Address) : Prop :=
  match e.2 with
  | .proposeSequencer ps =>
    ps.common.p2wpkhAddress ∈ s.state.verifierAddresses →
      s.state.sequencerVotes.keys = [] ∨ s.state.proposedSequencerTxid = some e.1
  | .systemBootstrapping sb =>
    (∀ v ∈ s.state.sequencerVotes.keys, v ∈ sb.input.verifierP2wpkhAddresses)
      ∧ ∀ p ∈ s.proposal, p.2.common.p2wpkhAddress ∈ sb.input.verifierP2wpkhAddresses
  | _ => True

instance (s : BootstrapTrace Address) (e : BootstrapEvent Address) :
    Decidable (KeepsVotes s e) := by
  unfold KeepsVotes
  split <;> infer_instance

def attestors (txid : Txid) (vote : Vote) (events : List (BootstrapEvent Address)) : List Address :=
  events.filterMap fun e =>
    match e.2 with
    | .validatorAttestation va =>
      if va.input.referenceTxid = txid ∧ va.input.attestation = vote then
        some va.common.p2wpkhAddress
      else none
    | _ => none

def MajorityAttested (verifiers : List Address) (events : List (BootstrapEvent Address))
    (txid : Txid) : Prop :=
  ∃ voters : List Address, voters.Nodup ∧ (∀ v ∈ voters, v ∈ verifiers)
    ∧ verifiers.length < 2 * voters.length ∧ ∀ v ∈ voters, v ∈ attestors txid .ok events

def Agreement (s : BootstrapTrace Address) (indexer : BitcoinInscriptionIndexer Address) : Prop :=
  ∃ txid ps, s.proposal = some (txid, ps)
    ∧ (txid, .proposeSequencer ps) ∈ s.events
    ∧ indexer.sequencerAddress = ps.input.sequencerNewP2wpkhAddress
    ∧ ps.common.p2wpkhAddress ∈ indexer.verifierAddresses
    ∧ MajorityAttested indexer.verifierAddresses s.events txid

structure AgreementInv (s : BootstrapTrace Address) : Prop where
  sequencer : s.state.proposedSequencer
    = s.proposal.map fun p => p.2.input.sequencerNewP2wpkhAddress
  txid : s.state.proposedSequencerTxid = s.proposal.map Prod.fst
  proposal : ∀ p, s.proposal = some p →
    (p.1, .proposeSequencer p.2) ∈ s.events ∧ p.2.common.p2wpkhAddress ∈ s.state.verifierAddresses
  voters : ∀ v ∈ s.state.sequencerVotes.keys, v ∈ s.state.verifierAddresses
  votes : ∀ v vote, s.state.sequencerVotes.lookup v = some vote →
    ∃ txid, s.state.proposedSequencerTxid = some txid ∧ v ∈ attestors txid vote s.events

variable {events : List (BootstrapEvent Address)}

namespace AgreementInv

variable {B : RustBitcoin Address} {network : Network} {s s' : BootstrapTrace Address}
  {e : BootstrapEvent Address}

theorem start : AgreementInv (BootstrapTrace.start : BootstrapTrace Address) where
  sequencer := rfl
  txid := rfl
  proposal := fun p hp => by cases hp
  voters := fun v hv => by cases hv
  votes := fun v vote h => by cases h

theorem step (hinv : AgreementInv s) (hstep : bootstrapStep B network s e s')
    (hkeeps : KeepsVotes s e) : AgreementInv s' := by
  obtain ⟨state', hprocess, rfl⟩ := Option.map_eq_some_iff.1 hstep
  rw [Outcome.toOption_eq_some] at hprocess
  obtain ⟨txid, message⟩ := e
  -- what has been emitted before stays
  have hproposal : ∀ p, s.proposal = some p →
      (p.1, .proposeSequencer p.2) ∈ s.events ++ [(txid, message)] :=
    fun p hp => List.mem_append_left _ (hinv.proposal p hp).1
  have hvotes : ∀ v vote, s.state.sequencerVotes.lookup v = some vote →
      ∃ t, s.state.proposedSequencerTxid = some t ∧
        v ∈ attestors t vote (s.events ++ [(txid, message)]) := by
    intro v vote hlookup
    obtain ⟨t, ht, hatt⟩ := hinv.votes v vote hlookup
    refine ⟨t, ht, ?_⟩
    rw [attestors, List.filterMap_append]
    exact List.mem_append_left _ hatt
  rcases processBootstrapMessage_cases hprocess with ⟨sb, rfl, rfl⟩ | ⟨ps, rfl, hsigner, rfl⟩
    | ⟨va, rfl, hsigner, htxid, rfl⟩ | ⟨-, hps, rfl⟩
  · -- new verifiers: voters and proposer stay in office
    obtain ⟨hvoters, hproposer⟩ := hkeeps
    exact ⟨hinv.sequencer, hinv.txid, fun p hp => ⟨hproposal p hp, hproposer p hp⟩, hvoters, hvotes⟩
  · -- a new proposal: no vote is recorded, or the votes are for the same transaction
    have haccepted : acceptedProposal s.state (txid, .proposeSequencer ps) = some (txid, ps) :=
      if_pos hsigner
    simp only [haccepted, Option.some_or]
    refine ⟨rfl, rfl, ?_, hinv.voters, ?_⟩
    · intro p hp
      cases hp
      exact ⟨List.mem_append_right _ List.mem_cons_self, hsigner⟩
    · intro v vote hlookup
      rcases hkeeps hsigner with hempty | hsame
      · have hnone : s.state.sequencerVotes.lookup v = none := by
          rw [AList.lookup_eq_none, AList.mem_keys, hempty]
          exact List.not_mem_nil
        have hsome : s.state.sequencerVotes.lookup v = some vote := hlookup
        cases hnone.symm.trans hsome
      · obtain ⟨t, ht, hatt⟩ := hvotes v vote hlookup
        rw [hsame] at ht
        exact ⟨t, ht, hatt⟩
  · -- a vote for the proposal in force
    refine ⟨hinv.sequencer, hinv.txid, fun p hp => ⟨hproposal p hp, (hinv.proposal p hp).2⟩, ?_, ?_⟩
    · intro v hv
      rcases AList.mem_insert _ |>.1 (AList.mem_keys.2 hv) with rfl | hv
      · exact hsigner
      · exact hinv.voters v (AList.mem_keys.1 hv)
    · intro v vote hlookup
      by_cases hv : v = va.common.p2wpkhAddress
      · subst hv
        have hvote : some va.input.attestation = some vote :=
          (AList.lookup_insert _).symm.trans hlookup
        refine ⟨va.input.referenceTxid, htxid, ?_⟩
        rw [attestors, List.filterMap_append]
        refine List.mem_append_right _ ?_
        simp [Option.some.inj hvote]
      · exact hvotes v vote ((AList.lookup_insert_ne hv).symm.trans hlookup)
  · -- nothing accepted
    have haccepted : acceptedProposal s.state (txid, message) = none := by
      unfold acceptedProposal
      split
      · rename_i ps hmessage
        exact if_neg (hps ps hmessage)
      · rfl
    simp only [haccepted, Option.none_or]
    exact ⟨hinv.sequencer, hinv.txid, fun p hp => ⟨hproposal p hp, (hinv.proposal p hp).2⟩,
      hinv.voters, hvotes⟩

theorem run (hrun : Run ((bootstrapStep B network).under KeepsVotes)
    BootstrapTrace.start events s) :
    AgreementInv s :=
  hrun.invariant (fun _ _ _ hinv hstep => hinv.step hstep.1 hstep.2) start

end AgreementInv

/-! ### The majority behind an indexer -/

theorem positiveVoters_majority {votes : AList fun _ : Address => Vote} {members : List Address}
    (htotal : votes.entries.length = members.length)
    (hpositive : votes.entries.length
      < 2 * (votes.entries.filter fun e => e.2 = Vote.ok).length) :
    ∃ voters : List Address, voters.Nodup ∧ members.length < 2 * voters.length
      ∧ ∀ v ∈ voters, v ∈ votes.keys ∧ votes.lookup v = some .ok := by
  refine ⟨(votes.entries.filter fun e => e.2 = Vote.ok).map Sigma.fst, ?_, ?_, ?_⟩
  · have hsub : ((votes.entries.filter fun e => e.2 = Vote.ok).map Sigma.fst).Sublist
        (votes.entries.map Sigma.fst) := List.filter_sublist.map _
    exact hsub.nodup votes.nodupKeys
  · rw [List.length_map]
    omega
  · intro v hv
    obtain ⟨⟨w, vote⟩, he, rfl⟩ := List.mem_map.1 hv
    obtain ⟨hentry, hok⟩ := List.mem_filter.1 he
    have hvote : vote = .ok := by simpa using hok
    subst hvote
    exact ⟨List.mem_map_of_mem hentry, AList.mem_lookup_iff.2 hentry⟩

variable {indexer : BitcoinInscriptionIndexer Address} {parser : MessageParser Address}

omit [DecidableEq Address] in
theorem createIndexer_eq_ok {state : BootstrapState Address}
    (h : createIndexer state parser = .ok indexer) :
    state.isComplete = true ∧ state.bridgeAddress = some indexer.bridgeAddress
      ∧ state.proposedSequencer = some indexer.sequencerAddress
      ∧ indexer.verifierAddresses = state.verifierAddresses ∧ indexer.parser = parser
      ∧ indexer.startingBlockNumber = state.startingBlockNumber := by
  unfold createIndexer at h
  split at h
  · rename_i hcomplete
    split at h
    · rename_i bridge sequencer hbridge hsequencer
      cases h
      exact ⟨hcomplete, hbridge, hsequencer, rfl, rfl, rfl⟩
    · cases h
  · cases h

/-- **Bootstrap agreement.**  After a run whose messages keep the votes, an indexer has a sequencer
that a verifier proposed and a majority attested. -/
theorem createIndexer_agreement {B : RustBitcoin Address} {network : Network}
    {events : List (BootstrapEvent Address)} {s : BootstrapTrace Address}
    (hrun : Run ((bootstrapStep B network).under KeepsVotes) BootstrapTrace.start events s)
    (hcreate : createIndexer s.state parser = .ok indexer) : Agreement s indexer := by
  have hinv := AgreementInv.run hrun
  obtain ⟨hcomplete, -, hsequencer, hverifiers, -, -⟩ := createIndexer_eq_ok hcreate
  have hmajority : s.state.hasMajorityVotes = true := by
    simp only [BootstrapState.isComplete, Bool.and_eq_true] at hcomplete
    exact hcomplete.1.1.2
  simp only [BootstrapState.hasMajorityVotes, Bool.and_eq_true, decide_eq_true_eq] at hmajority
  obtain ⟨hpositive, htotal⟩ := hmajority
  -- the sequencer comes from a proposal, and the votes are about it
  obtain ⟨⟨txid, ps⟩, hproposal, hps⟩ :=
    Option.map_eq_some_iff.1 (hinv.sequencer.symm.trans hsequencer)
  obtain ⟨hmem, hsigner⟩ := hinv.proposal _ hproposal
  have htxid : s.state.proposedSequencerTxid = some txid := by
    rw [hinv.txid, hproposal]
    rfl
  obtain ⟨voters, hnodup, hmore, hvoters⟩ := positiveVoters_majority htotal (by omega)
  refine ⟨txid, ps, hproposal, hmem, hps.symm, ?_, voters, hnodup, ?_, ?_, ?_⟩
  · rw [hverifiers]
    exact hsigner
  · intro v hv
    rw [hverifiers]
    exact hinv.voters v (hvoters v hv).1
  · rw [hverifiers]
    exact hmore
  · intro v hv
    obtain ⟨t, ht, hatt⟩ := hinv.votes v .ok (hvoters v hv).2
    cases htxid.symm.trans ht
    exact hatt

/-- The two verifiers of the sample runs, `key1` and `key2`, take office; the bridge is `key3`. -/
def sampleBootstrapping : Txid × Transaction :=
  (.ofNat 32 0xa24cb0f6ed8143f7cc37a6999d9a51a3e80bc783771920661bf71cabb4d15807,
    SampleAddress.key1.inscribe (.replicate 32 1)
      [.systemBootstrapping
        { startBlockHeight := 10
          verifierP2wpkhAddresses := [.key1, .key2]
          bridgeP2wpkhMpcAddress := .key3
          bootloaderHash := .replicate 32 0xB0
          abstractAccountHash := .replicate 32 0xAA }]
      [{ value := 1000, scriptPubkey := SampleAddress.key1.script }])

def sampleFirstProposal : Txid × Transaction :=
  (.ofNat 32 0x0c72008e10ad7cd22a9c9f0f2160d65891ff4804511683af26cbe007cfeff8c5,
    SampleAddress.key1.inscribe (.replicate 32 2)
      [.proposeSequencer { sequencerNewP2wpkhAddress := .key1 }]
      [{ value := 1000, scriptPubkey := SampleAddress.key1.script }])

def sampleFirstVote : Txid × Transaction :=
  (.ofNat 32 0x7f72e50857c80cba4489a43bdba954728fef379993bfd275131235e15dcc0068,
    SampleAddress.key1.inscribe (.replicate 32 3)
      [.validatorAttestation { referenceTxid := sampleFirstProposal.1, attestation := .ok }]
      [{ value := 1000, scriptPubkey := SampleAddress.key1.script }])

def sampleSecondVote : Txid × Transaction :=
  (.ofNat 32 0x6bceca9657c4bc99cffb2c238dcad17c7096d89e04751cabf64f12d16a1db6cd,
    SampleAddress.key2.inscribe (.replicate 32 6)
      [.validatorAttestation { referenceTxid := sampleFirstProposal.1, attestation := .ok }]
      [{ value := 1000, scriptPubkey := SampleAddress.key2.script }])

def sampleSecondProposal : Txid × Transaction :=
  (.ofNat 32 0xc1b5963f71f2104e4e907a0149c4c1b40120a5f4d9f761739cbd35ee121694ba,
    SampleAddress.key2.inscribe (.replicate 32 4)
      [.proposeSequencer { sequencerNewP2wpkhAddress := .key2 }]
      [{ value := 1000, scriptPubkey := SampleAddress.key2.script }])

def sampleRivalVote : Txid × Transaction :=
  (.ofNat 32 0x804f20bb28c82887624e3113ad1ee640e03eb8b7778868ed16bedc252bffa47a,
    SampleAddress.key2.inscribe (.replicate 32 5)
      [.validatorAttestation { referenceTxid := sampleSecondProposal.1, attestation := .ok }]
      [{ value := 1000, scriptPubkey := SampleAddress.key2.script }])

/-- The library that knows the ids of a list of transactions.  Without signature scripts the
normalized id of a transaction is its id. -/
def tableBitcoin (table : List (Txid × Transaction)) : RustBitcoin SampleAddress :=
  sampleBitcoin (txidFrom table) (txidFrom table)

def tableEvents (table : List (Txid × Transaction)) : List (BootstrapEvent SampleAddress) :=
  table.flatMap fun e =>
    ((parseTransaction (ε := Empty) (tableBitcoin table) (.new .testnet) e.2 0).2.toOption.getD
      []).map fun m => (e.1, m)

theorem createIndexer_agreement_sample :
    ∃ events s indexer,
      Run ((bootstrapStep (tableBitcoin [sampleBootstrapping, sampleFirstProposal, sampleFirstVote,
          sampleSecondVote]) .testnet).under KeepsVotes) BootstrapTrace.start events s
        ∧ createIndexer s.state ⟨.testnet, some SampleAddress.key3⟩ = .ok indexer
        ∧ Agreement s indexer := by
  let table := [sampleBootstrapping, sampleFirstProposal, sampleFirstVote, sampleSecondVote]
  have hcomputed : ((runPartial (guarded (BootstrapTrace.process (tableBitcoin table) .testnet)
      KeepsVotes) BootstrapTrace.start (tableEvents table)).map fun s =>
        createIndexer s.state ⟨.testnet, some SampleAddress.key3⟩) = some (.ok
          { parser := ⟨.testnet, some .key3⟩
            bridgeAddress := .key3
            sequencerAddress := .key1
            verifierAddresses := [.key1, .key2]
            startingBlockNumber := 10 }) := by
    decide +kernel
  obtain ⟨s, hs, hcreate⟩ := Option.map_eq_some_iff.1 hcomputed
  have hrun := Run.of_runGuarded hs
  exact ⟨_, s, _, hrun, hcreate, createIndexer_agreement hrun hcreate⟩

/-- **One vote for each of two proposals** makes an indexer: the vote of `key1` for the first
proposal still counts when `key2` has proposed and attested itself. -/
theorem createIndexer_rivalProposal :
    ∃ events s indexer,
      BitcoinInscriptionIndexer.new
          (tableBitcoin [sampleBootstrapping, sampleFirstProposal, sampleFirstVote,
            sampleSecondProposal, sampleRivalVote]) .testnet
          (transactionFrom [sampleBootstrapping, sampleFirstProposal, sampleFirstVote,
            sampleSecondProposal, sampleRivalVote])
          [sampleBootstrapping.1, sampleFirstProposal.1, sampleFirstVote.1, sampleSecondProposal.1,
            sampleRivalVote.1] = .ok indexer
        ∧ Run (bootstrapStep (tableBitcoin [sampleBootstrapping, sampleFirstProposal,
            sampleFirstVote, sampleSecondProposal, sampleRivalVote]) .testnet)
            BootstrapTrace.start events s
        ∧ createIndexer s.state ⟨.testnet, some SampleAddress.key3⟩ = .ok indexer
        ∧ ¬ Agreement s indexer := by
  let table := [sampleBootstrapping, sampleFirstProposal, sampleFirstVote, sampleSecondProposal,
    sampleRivalVote]
  let indexer : BitcoinInscriptionIndexer SampleAddress :=
    { parser := ⟨.testnet, some .key3⟩
      bridgeAddress := .key3
      sequencerAddress := .key2
      verifierAddresses := [.key1, .key2]
      startingBlockNumber := 10 }
  have hnew : BitcoinInscriptionIndexer.new (tableBitcoin table) .testnet (transactionFrom table)
      (table.map Prod.fst) = .ok indexer := by
    decide +kernel
  have hcomputed : ((runPartial (BootstrapTrace.process (tableBitcoin table) .testnet)
      BootstrapTrace.start (tableEvents table)).map fun s =>
        (createIndexer s.state ⟨.testnet, some SampleAddress.key3⟩, s.proposal.map Prod.fst,
          attestors sampleSecondProposal.1 .ok s.events))
      = some (.ok indexer, some sampleSecondProposal.1, [.key2]) := by
    decide +kernel
  obtain ⟨s, hs, hfacts⟩ := Option.map_eq_some_iff.1 hcomputed
  obtain ⟨hcreate, hproposal, hattestors⟩ : _ ∧ _ ∧ _ := by
    simpa only [Prod.mk.injEq] using hfacts
  refine ⟨_, s, indexer, hnew, Run.of_runPartial hs, hcreate, ?_⟩
  -- one attestor is not more than half of two verifiers
  rintro ⟨txid, ps, hps, -, -, -, voters, hnodup, -, hmore, hatt⟩
  have htxid : txid = sampleSecondProposal.1 := by
    rw [hps] at hproposal
    exact Option.some.inj hproposal
  rw [htxid, hattestors] at hatt
  exact absurd (hmore.trans_le
    (Nat.mul_le_mul_left 2 (List.subperm_of_subset hnodup hatt).length_le))
    (by decide)

end Agreement
