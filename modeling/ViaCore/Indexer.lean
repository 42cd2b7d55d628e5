/-
The indexer at work.

Once created, the indexer reads block after block with one parser, whose bridge address decides what
a deposit is worth.  The address was stored while the bootstrap transactions were parsed, and every
later bootstrapping inscription, whoever signed it and whether or not it parses to the end, stores
its own.

* `processBlock_bridge_stable` — parser and deposits stay with the bootstrapped bridge, as long as
  the blocks store no other address.
-/
import ViaCore.Bootstrap
import ViaCore.ParserTotality

section Indexer

variable {Address : Type} (B : RustBitcoin Address)

def parseTransactions {ε : Type} (blockHeight : ℕ) (self : MessageParser Address)
    (txs : List Transaction) :
    MessageParser Address × Outcome ε (List (FullInscriptionMessage Address)) :=
  collect (fun p tx => parseTransaction B p tx blockHeight) self txs

namespace BitcoinInscriptionIndexer

/-- `fetchBlock` is the client's answer: the transactions of a block, or nothing on an error. -/
def processBlock (fetchBlock : ℕ → Option (List Transaction))
    (self : BitcoinInscriptionIndexer Address) (blockHeight : ℕ) :
    BitcoinInscriptionIndexer Address
      × Outcome IndexerError (List (FullInscriptionMessage Address)) :=
  if blockHeight < self.startingBlockNumber.toNat then
    (self, .err (.invalidBlockHeight blockHeight))
  else
    match fetchBlock blockHeight with
    | none => (self, .err .bitcoinClientError)
    | some txdata =>
      let parsed := parseTransactions B blockHeight self.parser txdata
      -- messages are not validated here
      ({ self with parser := parsed.1 }, parsed.2)

def processBlocks (fetchBlock : ℕ → Option (List Transaction))
    (self : BitcoinInscriptionIndexer Address) (startingBlock endingBlock : ℕ) :
    BitcoinInscriptionIndexer Address
      × Outcome IndexerError (List (FullInscriptionMessage Address)) :=
  collect (processBlock B fetchBlock) self
    (List.range' startingBlock (endingBlock + 1 - startingBlock))

end BitcoinInscriptionIndexer

variable {B} {self : MessageParser Address} {blockHeight : ℕ} {txs : List Transaction}

theorem BitcoinInscriptionIndexer.processBlock_cases (fetchBlock : ℕ → Option (List Transaction))
    (indexer : BitcoinInscriptionIndexer Address) (height : ℕ) :
    (∃ e, indexer.processBlock B fetchBlock height = (indexer, .err e)) ∨
    ∃ txdata, fetchBlock height = some txdata ∧
      indexer.processBlock B fetchBlock height
        = ({ indexer with parser := (parseTransactions (ε := IndexerError) B height indexer.parser
              txdata).1 },
            (parseTransactions B height indexer.parser txdata).2) := by
  unfold processBlock
  split
  · exact .inl ⟨_, rfl⟩
  · cases hfetch : fetchBlock height with
    | none => exact .inl ⟨_, rfl⟩
    | some txdata => exact .inr ⟨txdata, rfl, rfl⟩

theorem parseTransactions_invariant {ε : Type} {I : MessageParser Address → Prop}
    (hI : ∀ p, I p → ∀ tx ∈ txs, ∀ a ∈ storedBridges B self.network tx, I (p.store (some a)))
    (h0 : I self) :
    I (parseTransactions (ε := ε) B blockHeight self txs).1 ∧
      (parseTransactions (ε := ε) B blockHeight self txs).1.network = self.network ∧
      ∀ ms, (parseTransactions (ε := ε) B blockHeight self txs).2 = .ok ms → ∀ m ∈ ms,
        ∃ p, I p ∧ ∃ tx ∈ txs, ∃ input ∈ tx.input, ∃ address,
          (parseInput B p tx blockHeight address input).2 = .ok m := by
  have hrule : ∀ p : MessageParser Address, I p ∧ p.network = self.network → ∀ tx ∈ txs,
      ∀ q, I q → ∀ a ∈ storedBridges B p.network tx, I (q.store (some a)) := by
    rintro p ⟨-, hnetwork⟩ tx htx q hq a ha
    rw [hnetwork] at ha
    exact hI q hq tx htx a ha
  -- the network is kept too, which the rule asks for
  have hstep : ∀ p : MessageParser Address, I p ∧ p.network = self.network → ∀ tx ∈ txs,
      I (parseTransaction (ε := ε) B p tx blockHeight).1 ∧
        (parseTransaction (ε := ε) B p tx blockHeight).1.network = self.network := by
    intro p hp tx htx
    obtain ⟨hfst, hnetwork, -⟩ := parseTransaction_invariant (ε := ε) (hrule p hp tx htx) hp.1
    exact ⟨hfst, hnetwork.trans hp.2⟩
  obtain ⟨⟨hfst, hnetwork⟩, hmem⟩ := collect_invariant hstep ⟨h0, rfl⟩
  refine ⟨hfst, hnetwork, fun ms hms m hm => ?_⟩
  obtain ⟨p, tx, ms', hp, htx, hok, hm⟩ := hmem ms hms m hm
  obtain ⟨-, -, hread⟩ := parseTransaction_invariant (ε := ε) (hrule p hp tx htx) hp.1
  obtain ⟨q, hq, input, hinput, address, hparse⟩ := hread ms' hok m hm
  exact ⟨q, hq, tx, htx, input, hinput, address, hparse⟩

def blockTransactions (fetchBlock : ℕ → Option (List Transaction)) (startingBlock endingBlock : ℕ) :
    List (ℕ × Transaction) :=
  (List.range' startingBlock (endingBlock + 1 - startingBlock)).flatMap fun height =>
    ((fetchBlock height).getD []).map fun tx => (height, tx)

variable {indexer : BitcoinInscriptionIndexer Address}

variable {msgs : List (FullInscriptionMessage Address)} {fetchBlock : ℕ → Option (List Transaction)}

variable {startingBlock endingBlock : ℕ}

theorem BitcoinInscriptionIndexer.processBlocks_blockHeight
    (hok : (indexer.processBlocks B fetchBlock startingBlock endingBlock).2 = .ok msgs)
    {m : FullInscriptionMessage Address} (hm : m ∈ msgs) :
    startingBlock ≤ m.common.blockHeight ∧ m.common.blockHeight ≤ endingBlock := by
  obtain ⟨t, height, ms, -, hheight, hblock, hms⟩ :=
    (collect_invariant (I := fun _ => True) (fun _ _ _ _ => trivial) trivial).2 msgs hok m hm
  have hrange := List.mem_range'_1.1 hheight
  have hm : m.common.blockHeight = height := by
    rcases t.processBlock_cases (B := B) fetchBlock height with ⟨e, h⟩ | ⟨txdata, -, h⟩
    · cases h ▸ hblock
    · rw [h] at hblock
      obtain ⟨-, -, hmem⟩ := parseTransactions_invariant (ε := IndexerError) (B := B)
        (I := fun _ => True) (fun _ _ _ _ _ _ => trivial) trivial
      obtain ⟨p, -, tx, -, input, -, address, hparse⟩ := hmem ms hblock m hms
      obtain ⟨_, -, -, -, heq, -⟩ := parseInput_ok hparse
      exact heq
  omega

variable (B self) in
def messagesOf (t : ℕ × Transaction) : List (FullInscriptionMessage Address) :=
  (parseTransaction (ε := IndexerError) B self t.2 t.1).2.toOption.getD []

theorem BitcoinInscriptionIndexer.processBlocks_of_stable
    (hstable : ∀ t ∈ blockTransactions fetchBlock startingBlock endingBlock,
      ∀ a ∈ storedBridges B indexer.parser.network t.2,
        indexer.parser.store (some a) = indexer.parser)
    (hok : (indexer.processBlocks B fetchBlock startingBlock endingBlock).2 = .ok msgs) :
    msgs = (blockTransactions fetchBlock startingBlock endingBlock).flatMap
        (messagesOf B indexer.parser)
      ∧ ∀ t ∈ blockTransactions fetchBlock startingBlock endingBlock,
          ∃ ms, (parseTransaction (ε := IndexerError) B indexer.parser t.2 t.1).2 = .ok ms := by
  set heights := List.range' startingBlock (endingBlock + 1 - startingBlock) with hheights
  have htx : ∀ height ∈ heights, ∀ txdata, fetchBlock height = some txdata → ∀ tx ∈ txdata,
      (height, tx) ∈ blockTransactions fetchBlock startingBlock endingBlock := by
    intro height hheight txdata hfetch tx htx
    refine List.mem_flatMap.2 ⟨height, hheight, ?_⟩
    rw [hfetch]
    exact List.mem_map_of_mem htx
  -- no block changes the indexer
  have hblock : ∀ height ∈ heights, (indexer.processBlock B fetchBlock height).1 = indexer := by
    intro height hheight
    rcases indexer.processBlock_cases (B := B) fetchBlock height with ⟨e, h⟩ | ⟨txdata, hfetch, h⟩
    · rw [h]
    · have hparser : (parseTransactions (ε := IndexerError) B height indexer.parser txdata).1
          = indexer.parser := by
        refine (parseTransactions_invariant (I := fun p => p = indexer.parser) ?_ rfl).1
        rintro p rfl tx hmem a ha
        exact hstable _ (htx height hheight txdata hfetch tx hmem) a ha
      rw [h, hparser]
  obtain ⟨-, hmsgs, hall⟩ := collect_of_stable hblock hok
  -- so each block is read as if it were the only one
  have hone : ∀ height ∈ heights, ∃ txdata, fetchBlock height = some txdata
      ∧ (indexer.processBlock B fetchBlock height).2.toOption.getD []
        = txdata.flatMap (fun tx => messagesOf B indexer.parser (height, tx))
      ∧ ∀ tx ∈ txdata,
          ∃ ms, (parseTransaction (ε := IndexerError) B indexer.parser tx height).2 = .ok ms := by
    intro height hheight
    obtain ⟨ms, hms⟩ := hall height hheight
    rcases indexer.processBlock_cases (B := B) fetchBlock height with ⟨e, h⟩ | ⟨txdata, hfetch, h⟩
    · rw [h] at hms
      cases hms
    · rw [h] at hms
      have hleaves : ∀ tx ∈ txdata,
          (parseTransaction (ε := IndexerError) B indexer.parser tx height).1 = indexer.parser :=
        fun tx hmem => (parseTransaction_invariant (I := fun p => p = indexer.parser)
          (by rintro p rfl; exact hstable _ (htx height hheight txdata hfetch tx hmem)) rfl).1
      obtain ⟨-, hflat, hreturn⟩ := collect_of_stable hleaves hms
      refine ⟨txdata, hfetch, ?_, hreturn⟩
      have hvalue : (indexer.processBlock B fetchBlock height).2.toOption.getD [] = ms := by
        rw [h, hms]
        rfl
      rw [hvalue, hflat]
      rfl
  constructor
  · rw [hmsgs, blockTransactions, List.flatMap_assoc]
    refine List.flatMap_congr fun height hheight => ?_
    obtain ⟨txdata, hfetch, hvalue, -⟩ := hone height hheight
    rw [hvalue, hfetch, List.flatMap_map]
    rfl
  · intro t ht
    obtain ⟨height, hheight, hmem⟩ := List.mem_flatMap.1 ht
    obtain ⟨txdata, hfetch, -, hreturn⟩ := hone height hheight
    rw [hfetch] at hmem
    obtain ⟨tx, htx, rfl⟩ := List.mem_map.1 hmem
    exact hreturn tx htx

end Indexer

section Start

variable {Address : Type} {B : RustBitcoin Address} {network : Network}
  {self : MessageParser Address} {tx : Transaction} {blockHeight : ℕ} {address : Address}
  {input : TxIn} {m : FullInscriptionMessage Address}

def FullInscriptionMessage.announcedBridge : FullInscriptionMessage Address → Option Address
  | .systemBootstrapping sb => some sb.input.bridgeP2wpkhMpcAddress
  | _ => none

def announce (bridge : Option Address) (m : FullInscriptionMessage Address) : Option Address :=
  m.announcedBridge.or bridge

variable (B) in
/-- A bootstrapping inscription that is rejected after its bridge address has been stored: one of
the two hashes is not a push. -/
def rejectedAfterStore (network : Network) (input : TxIn) : Bool :=
  (revealedInscription B input).any fun r =>
    messageKind r.instructions = some .systemBootstrapping
      && (readBootstrapping B network r.instructions).isSome
      && !(pushesAt r.instructions (r.instructions.length - 3)
        && pushesAt r.instructions (r.instructions.length - 2))

theorem parseInput_announcedBridge
    (h : (parseInput B self tx blockHeight address input).2 = .ok m) :
    bridgeWrite B self.network input = m.announcedBridge := by
  obtain ⟨r, hr, hparse, hkind, -⟩ := parseInput_ok h
  unfold parseMessage at hparse
  simp only [bridgeWrite, hr, hkind, Option.bind_eq_bind, Option.bind_some]
  rw [hkind] at hparse
  cases m with
  | systemBootstrapping sb =>
    simp only [FullInscriptionMessage.toInput, InscriptionMessage.kind,
      parseSystemBootstrapping] at hparse
    split at hparse
    · cases hparse
    · rename_i head hhead
      simp only [finishBootstrapping, Outcome.bind_eq_ok, Outcome.pure_eq_ok, Outcome.ok.injEq,
        FullInscriptionMessage.systemBootstrapping.injEq] at hparse
      obtain ⟨_, _, _, _, _, _, _, _, hsb⟩ := hparse
      have hbridge : head.bridgeAddress = sb.input.bridgeP2wpkhMpcAddress :=
        congrArg (fun x => x.input.bridgeP2wpkhMpcAddress) hsb
      simp [FullInscriptionMessage.toInput, InscriptionMessage.kind, hhead, hbridge,
        FullInscriptionMessage.announcedBridge]
  | _ => rfl

theorem bridgeWrite_of_skipped {e : Unit}
    (h : (parseInput B self tx blockHeight address input).2 = .err e)
    (hkept : rejectedAfterStore B self.network input = false) :
    bridgeWrite B self.network input = none := by
  unfold parseInput at h
  unfold bridgeWrite
  cases hr : revealedInscription B input with
  | none => rfl
  | some r =>
    simp only [Option.bind_eq_bind, Option.bind_some]
    split
    · rename_i hkind
      cases hhead : readBootstrapping B self.network r.instructions with
      | none => rfl
      | some head =>
        -- both hashes are pushes, so nothing after the store can return an error
        simp only [rejectedAfterStore, hr, Option.any_some, hkind, hhead, decide_true,
          Option.isSome_some, Bool.true_and, Bool.not_eq_false', Bool.and_eq_true] at hkept
        obtain ⟨hfirst, hsecond⟩ := hkept
        obtain ⟨first, hfirst⟩ := Option.isSome_iff_exists.1 hfirst
        obtain ⟨second, hsecond⟩ := Option.isSome_iff_exists.1 hsecond
        simp only [hr, parseMessage, hkind, parseSystemBootstrapping, hhead, finishBootstrapping,
          pushAt, hfirst, hsecond, Outcome.ofOption_some, Outcome.ok_bind] at h
        unfold FixedBytes.fromSlice at h
        split at h
        · simp only [Outcome.ok_bind] at h
          split at h <;> cases h
        · cases h
    · rfl

variable {ms : List (FullInscriptionMessage Address)}

theorem readInput_announce {ε : Type}
    (h : (readInput (ε := ε) B tx blockHeight address self input).2 = .ok ms)
    (hkept : rejectedAfterStore B self.network input = false) :
    (readInput (ε := ε) B tx blockHeight address self input).1.bridgeAddress
      = ms.foldl announce self.bridgeAddress := by
  rw [readInput_fst]
  unfold readInput at h
  split at h
  · rename_i self' m hp
    have hwrite := parseInput_announcedBridge (congrArg Prod.snd hp)
    cases h
    rw [hwrite]
    rfl
  · rename_i self' e hp
    have hwrite := bridgeWrite_of_skipped (congrArg Prod.snd hp) hkept
    cases h
    rw [hwrite]
    rfl
  · cases h

theorem parseTransaction_announce {ε : Type}
    (h : (parseTransaction (ε := ε) B self tx blockHeight).2 = .ok ms)
    (hkept : ∀ input ∈ tx.input, rejectedAfterStore B self.network input = false) :
    (parseTransaction (ε := ε) B self tx blockHeight).1.bridgeAddress
      = ms.foldl announce self.bridgeAddress := by
  unfold parseTransaction at h ⊢
  cases hsender : senderAddress B self.network tx with
  | none =>
    rw [hsender] at h
    cases h
    rfl
  | some address =>
    rw [hsender] at h
    have hnetwork : ∀ p : MessageParser Address, p.network = self.network →
        ∀ input ∈ tx.input,
          (readInput (ε := ε) B tx blockHeight address p input).1.network = self.network := by
      intro p hp input _
      rw [readInput_fst, MessageParser.store_network, hp]
    refine collect_foldl hnetwork ?_ rfl h
    intro p hp input hinput ms' hms'
    have hinputKept : rejectedAfterStore B p.network input = false := by
      rw [hp]
      exact hkept input hinput
    exact readInput_announce hms' hinputKept

variable [DecidableEq Address]

variable {state' state : BootstrapState Address} {getTransaction : Txid → Option Transaction}

theorem processBootstrapMessages_announce {txid : Txid}
    (h : processBootstrapMessages B network txid state ms = .ok state') :
    state'.bridgeAddress = ms.foldl announce state.bridgeAddress := by
  induction ms generalizing state with
  | nil =>
    cases h
    rfl
  | cons m rest ih =>
    obtain ⟨next, hnext, hrest⟩ := Outcome.bind_eq_ok.1 h
    have hone : next.bridgeAddress = announce state.bridgeAddress m := by
      rcases processBootstrapMessage_cases hnext with ⟨sb, rfl, rfl⟩ | ⟨ps, rfl, -, rfl⟩
        | ⟨va, rfl, -, -, rfl⟩ | ⟨hsb, -, rfl⟩
      · rfl
      · rfl
      · rfl
      · cases m with
        | systemBootstrapping sb => exact absurd rfl (hsb sb)
        | _ => rfl
    rw [ih hrest, hone]
    rfl

variable {txids : List Txid}

theorem bootstrapLoop_bridgeAddress {parser parser' : MessageParser Address}
    (hkept : ∀ txid ∈ txids, ∀ tx ∈ getTransaction txid, ∀ input ∈ tx.input,
      rejectedAfterStore B network input = false) (hnetwork : parser.network = network)
    (hsame : parser.bridgeAddress = state.bridgeAddress)
    (h : bootstrapLoop B network getTransaction parser state txids = .ok (parser', state')) :
    parser'.bridgeAddress = state'.bridgeAddress := by
  induction txids generalizing parser state with
  | nil =>
    cases h
    exact hsame
  | cons txid rest ih =>
    unfold bootstrapLoop at h
    split at h
    · cases h
    · rename_i tx htx
      simp only [Outcome.bind_eq_ok] at h
      obtain ⟨ms, hms, next, hnext, h⟩ := h
      have htxKept : ∀ input ∈ tx.input, rejectedAfterStore B parser.network input = false := by
        rw [hnetwork]
        exact hkept txid List.mem_cons_self tx htx
      -- both take the last bridge that the transaction announces
      have hparser := parseTransaction_announce hms htxKept
      have hstate := processBootstrapMessages_announce hnext
      have hagree : (parseTransaction (ε := IndexerError) B parser tx 0).1.bridgeAddress
          = next.bridgeAddress := by
        rw [hparser, hstate, hsame]
      split at h
      · cases h
        exact hagree
      · obtain ⟨-, hnext, -⟩ := parseTransaction_invariant (ε := IndexerError) (B := B)
          (I := fun _ => True) (fun _ _ _ _ => trivial) trivial
        exact ih (fun t ht => hkept t (List.mem_cons_of_mem _ ht)) (hnext.trans hnetwork) hagree h

end Start

section Stability

variable {Address : Type} (B : RustBitcoin Address)

structure BlockEvent where
  height : ℕ
  block : Option (List Transaction)

structure IndexerTrace (Address : Type) where
  indexer : BitcoinInscriptionIndexer Address
  returned : List (FullInscriptionMessage Address)

/-- One call.  An error returns no message and the indexer can be called again; a panic ends the
run. -/
def IndexerTrace.process (s : IndexerTrace Address) (e : BlockEvent) :
    Option (IndexerTrace Address) :=
  match s.indexer.processBlock B (fun _ => e.block) e.height with
  | (indexer, .ok ms) => some { indexer, returned := s.returned ++ ms }
  | (indexer, .err _) => some { s with indexer }
  | (_, .panic) => none

def processBlockStep : StepRel (IndexerTrace Address) BlockEvent :=
  .ofPartial (IndexerTrace.process B)

/-- The block stores no bridge address but the bootstrapped one. -/
def KeepsBridge (s : IndexerTrace Address) (e : BlockEvent) : Prop :=
  ∀ txs ∈ e.block, ∀ tx ∈ txs, ∀ a ∈ storedBridges B s.indexer.parser.network tx,
    a = s.indexer.bridgeAddress

instance [DecidableEq Address] (s : IndexerTrace Address) (e : BlockEvent) :
    Decidable (KeepsBridge B s e) :=
  inferInstanceAs (Decidable (∀ txs ∈ e.block, ∀ tx ∈ txs,
    ∀ a ∈ storedBridges B s.indexer.parser.network tx, a = s.indexer.bridgeAddress))

structure BridgeStable (bridge : Address) (s : IndexerTrace Address) : Prop where
  indexer : s.indexer.bridgeAddress = bridge
  parser : s.indexer.parser.bridgeAddress = some bridge
  amounts : ∀ d, .l1ToL2Message d ∈ s.returned →
    d.amount = depositAmount B (some bridge) d.txOutputs

variable {B}

theorem BridgeStable.step {bridge : Address} {s s' : IndexerTrace Address} {e : BlockEvent}
    (hinv : BridgeStable B bridge s) (hstep : processBlockStep B s e s')
    (hkeeps : KeepsBridge B s e) : BridgeStable B bridge s' := by
  have hprocess : s.process B e = some s' := hstep
  unfold IndexerTrace.process at hprocess
  rcases s.indexer.processBlock_cases (B := B) (fun _ => e.block) e.height
    with ⟨err, hblock⟩ | ⟨txdata, htxdata, hblock⟩
  · -- nothing was parsed
    rw [hblock] at hprocess
    cases hprocess
    exact hinv
  · have hstored : ∀ p : MessageParser Address, p.bridgeAddress = some bridge → ∀ tx ∈ txdata,
        ∀ a ∈ storedBridges B s.indexer.parser.network tx,
          (p.store (some a)).bridgeAddress = some bridge := by
      intro p _ tx htx a ha
      rw [hkeeps txdata htxdata tx htx a ha, hinv.indexer]
      rfl
    obtain ⟨hparser, -, hread⟩ := parseTransactions_invariant (ε := IndexerError)
      hstored hinv.parser
    rw [hblock] at hprocess
    cases hout : (parseTransactions (ε := IndexerError) B e.height s.indexer.parser txdata).2 with
    | ok ms =>
      rw [hout] at hprocess
      cases hprocess
      refine ⟨hinv.indexer, hparser, ?_⟩
      intro d hd
      rcases List.mem_append.1 hd with hd | hd
      · exact hinv.amounts d hd
      · obtain ⟨p, hp, tx, -, input, -, address, hok⟩ := hread ms hout _ hd
        obtain ⟨hamount, houtputs⟩ := parseInput_amount hok
        rw [hamount, houtputs, hp]
    | err err =>
      rw [hout] at hprocess
      cases hprocess
      exact ⟨hinv.indexer, hparser, hinv.amounts⟩
    | panic =>
      rw [hout] at hprocess
      cases hprocess

/-- **Bridge stability.**  Parser and deposits stay with the bootstrapped bridge over all blocks
that store no other address, if no bootstrap inscription was rejected after its store. -/
theorem processBlock_bridge_stable [DecidableEq Address] {network : Network}
    {getTransaction : Txid → Option Transaction} {txids : List Txid}
    {indexer : BitcoinInscriptionIndexer Address}
    (hnew : BitcoinInscriptionIndexer.new B network getTransaction txids = .ok indexer)
    (hkept : ∀ txid ∈ txids, ∀ tx ∈ getTransaction txid, ∀ input ∈ tx.input,
      rejectedAfterStore B network input = false)
    {events : List BlockEvent} {s : IndexerTrace Address}
    (hrun : Run ((processBlockStep B).under (KeepsBridge B)) ⟨indexer, []⟩ events s) :
    BridgeStable B indexer.bridgeAddress s := by
  refine hrun.invariant (fun _ _ _ hinv hstep => hinv.step hstep.1 hstep.2) ?_
  -- the new indexer and its parser have the same bridge address
  obtain ⟨⟨parser, state⟩, hloop, hcreate⟩ := Outcome.bind_eq_ok.1 hnew
  obtain ⟨-, hbridge, -, -, hparser, -⟩ := createIndexer_eq_ok hcreate
  refine ⟨rfl, ?_, nofun⟩
  rw [hparser, bootstrapLoop_bridgeAddress hkept rfl rfl hloop, hbridge]

def sampleBootstrap : List (Txid × Transaction) :=
  [sampleBootstrapping, sampleFirstProposal, sampleFirstVote, sampleSecondVote]

def sampleIndexer : BitcoinInscriptionIndexer SampleAddress :=
  { parser := ⟨.testnet, some .key3⟩
    bridgeAddress := .key3
    sequencerAddress := .key1
    verifierAddresses := [.key1, .key2]
    startingBlockNumber := 10 }

def sampleDeposit : Txid × Transaction :=
  (.ofNat 32 0x65fcc2739c95b072e5b23dc3e0ddef7981ef1f27bad1817e53ebd850d7d645f3,
    SampleAddress.key1.inscribe (.replicate 32 7)
      [.l1ToL2Message
        { receiverL2Address := .replicate 20 0x11
          l2ContractAddress := .replicate 20 0x22
          callData := [] }]
      [{ value := 50000, scriptPubkey := SampleAddress.key3.script }])

/-- `key3`, which is no verifier, inscribes a bootstrapping message with `key2` as the bridge. -/
def sampleRedirect : Txid × Transaction :=
  (.ofNat 32 0x65f2780d97765c287f1ab9b931e69962b5464209550d436fc53504235bb7675e,
    SampleAddress.key3.inscribe (.replicate 32 8)
      [.systemBootstrapping
        { startBlockHeight := 1
          verifierP2wpkhAddresses := [.key3]
          bridgeP2wpkhMpcAddress := .key2
          bootloaderHash := .replicate 32 0
          abstractAccountHash := .replicate 32 0 }]
      [{ value := 1000, scriptPubkey := SampleAddress.key3.script }])

def sampleChain : RustBitcoin SampleAddress :=
  tableBitcoin (sampleBootstrap ++ [sampleDeposit, sampleRedirect])

theorem sampleIndexer_new :
    BitcoinInscriptionIndexer.new sampleChain .testnet (transactionFrom sampleBootstrap)
      (sampleBootstrap.map Prod.fst) = .ok sampleIndexer := by
  decide +kernel

theorem processBlock_bridge_stable_deposit :
    ∃ s, Run ((processBlockStep sampleChain).under (KeepsBridge sampleChain)) ⟨sampleIndexer, []⟩
        [{ height := 10, block := some [sampleDeposit.2] }] s
      ∧ BridgeStable sampleChain SampleAddress.key3 s := by
  have hkept : ∀ txid ∈ sampleBootstrap.map Prod.fst, ∀ tx ∈ transactionFrom sampleBootstrap txid,
      ∀ input ∈ tx.input, rejectedAfterStore sampleChain .testnet input = false := by
    decide +kernel
  exact Run.witnessUnder (P := fun _ => True)
    (fun _ hrun _ => processBlock_bridge_stable sampleIndexer_new hkept hrun) (by decide +kernel)

/-- **Anyone can move the bridge.**  After an inscription of an outsider the parser looks for
payments to `key2`, and the next deposit is worth nothing. -/
theorem processBlock_redirected :
    ∃ s, BitcoinInscriptionIndexer.new sampleChain .testnet (transactionFrom sampleBootstrap)
          (sampleBootstrap.map Prod.fst) = .ok sampleIndexer
      ∧ Run (processBlockStep sampleChain) ⟨sampleIndexer, []⟩
          [{ height := 10, block := some [sampleRedirect.2, sampleDeposit.2] }] s
      ∧ s.indexer.parser.bridgeAddress = some .key2
      ∧ (s.returned.filterMap FullInscriptionMessage.toL1ToL2Message).map
          (fun d => (d.amount, depositAmount sampleChain (some .key3) d.txOutputs)) = [(0, 50000)]
      ∧ ¬ BridgeStable sampleChain sampleIndexer.bridgeAddress s := by
  obtain ⟨s, hrun, hparser, hamounts⟩ : ∃ s, Run (processBlockStep sampleChain) ⟨sampleIndexer, []⟩
      [{ height := 10, block := some [sampleRedirect.2, sampleDeposit.2] }] s ∧
      s.indexer.parser.bridgeAddress = some .key2 ∧
      (s.returned.filterMap FullInscriptionMessage.toL1ToL2Message).map
        (fun d => (d.amount, depositAmount sampleChain (some .key3) d.txOutputs)) = [(0, 50000)] :=
    Run.witness (fun _ _ h => h) (by decide +kernel)
  refine ⟨s, sampleIndexer_new, hrun, hparser, hamounts, ?_⟩
  intro hstable
  have hbridge : some SampleAddress.key2 = some sampleIndexer.bridgeAddress :=
    hparser.symm.trans hstable.parser
  cases hbridge

end Stability
