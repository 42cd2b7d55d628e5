/-
The message parser: from Bitcoin transactions to inscription messages.

`parseTransaction` looks for a sender (the last input with a pay-to-witness-pubkey-hash witness) and
then reads every input that reveals an inscription.  The parser carries one piece of mutable state,
the bridge address; `parseSystemBootstrapping` stores it before it has read the rest of its message.

* `parseTransaction_invariant` — what every stored address keeps, a transaction keeps.
-/
import ViaCore.Inscription
import ViaCore.Collect

def minWitnessLength : ℕ := 3

def minSystemBootstrappingInstructions : ℕ := 7

def minProposeSequencerInstructions : ℕ := 3

def minValidatorAttestationInstructions : ℕ := 4

def minL1BatchDAReferenceInstructions : ℕ := 6

def minProofDAReferenceInstructions : ℕ := 5

def minL1ToL2MessageInstructions : ℕ := 5

structure MessageParser (Address : Type) where
  network : Network
  bridgeAddress : Option Address
  deriving DecidableEq

namespace MessageParser

variable {Address : Type}

def new (network : Network) : MessageParser Address := ⟨network, none⟩

end MessageParser

section Parser

variable {Address : Type} (B : RustBitcoin Address)

/-- `instructions.get(i)?.push_bytes()?.as_bytes()`. -/
def pushAt (instrs : List Instruction) (i : ℕ) : Outcome Unit Bytes :=
  .ofOption ((instrs[i]?).bind Instruction.toPushBytes)

def addressOf (instr : Instruction) : Option Address :=
  (instr.toPushBytes.bind Utf8.fromUtf8).bind B.parseAddress

def findViaInscriptionProtocol (instrs : List Instruction) : Option ℕ :=
  instrs.findIdx? fun instr => instr = .pushBytes viaInscriptionProtocol

def viaInstructions (script : Bytes) : Option (List Instruction) :=
  let instrs := (B.scriptInstructions script).filterMap id
  (findViaInscriptionProtocol instrs).map instrs.drop

/-! ### The six message parsers -/

structure BootstrappingHead (Address : Type) where
  startBlockHeight : UInt32
  verifierAddresses : List Address
  bridgeAddress : Address

/-- `parse_system_bootstrapping` up to the store of the bridge address. -/
def readBootstrapping (network : Network) (instrs : List Instruction) :
    Option (BootstrappingHead Address) :=
  if instrs.length < minSystemBootstrappingInstructions then none
  else do
    let heightBytes ← (instrs[2]?).bind Instruction.toPushBytes
    let startBlockHeight ← u32FromBeBytes heightBytes
    -- verifiers that do not parse are skipped
    let verifierAddresses :=
      ((instrs.take (instrs.length - 4)).drop 3).filterMap (addressOf B)
    let unchecked ← (instrs[instrs.length - 4]?).bind (addressOf B)
    let bridgeAddress ← B.requireNetwork unchecked network
    some { startBlockHeight, verifierAddresses, bridgeAddress }

/-- `parse_system_bootstrapping` after the store of the bridge address. -/
def finishBootstrapping (instrs : List Instruction) (common : CommonFields Address)
    (head : BootstrappingHead Address) : Outcome Unit (FullInscriptionMessage Address) := do
  let bootloaderBytes ← pushAt instrs (instrs.length - 3)
  let bootloaderHash ← FixedBytes.fromSlice 32 bootloaderBytes
  let accountBytes ← pushAt instrs (instrs.length - 2)
  let abstractAccountHash ← FixedBytes.fromSlice 32 accountBytes
  return .systemBootstrapping
    { common
      input :=
        { startBlockHeight := head.startBlockHeight
          verifierP2wpkhAddresses := head.verifierAddresses
          bridgeP2wpkhMpcAddress := head.bridgeAddress
          bootloaderHash
          abstractAccountHash } }

/-- The bridge address is stored as soon as it is read, whatever follows it. -/
def parseSystemBootstrapping (self : MessageParser Address) (instrs : List Instruction)
    (common : CommonFields Address) :
    MessageParser Address × Outcome Unit (FullInscriptionMessage Address) :=
  match readBootstrapping B self.network instrs with
  | none => (self, .err ())
  | some head =>
    ({ self with bridgeAddress := some head.bridgeAddress }, finishBootstrapping instrs common head)

def parseProposeSequencer (network : Network) (instrs : List Instruction)
    (common : CommonFields Address) : Outcome Unit (FullInscriptionMessage Address) :=
  if instrs.length < minProposeSequencerInstructions then .err ()
  else do
    let unchecked ← .ofOption ((instrs[2]?).bind (addressOf B))
    let sequencerAddress ← .ofOption (B.requireNetwork unchecked network)
    return .proposeSequencer { common, input := { sequencerNewP2wpkhAddress := sequencerAddress } }

/-- The vote of an attestation: a text push or an opcode. -/
def parseVote : Instruction → Option Vote
  | .pushBytes b =>
    if b = ascii "OP_1" then some .ok
    else if b = ascii "OP_0" then some .notOk
    else none
  | .op o =>
    if o = 0x51 then some .ok
    else if o = 0x50 then some .notOk
    else none

def parseValidatorAttestation (instrs : List Instruction) (common : CommonFields Address) :
    Outcome Unit (FullInscriptionMessage Address) :=
  if instrs.length < minValidatorAttestationInstructions then .err ()
  else do
    let txidBytes ← pushAt instrs 2
    let referenceTxid ← .ofOption (FixedBytes.tryFrom 32 txidBytes)
    let attestation ← .ofOption ((instrs[3]?).bind parseVote)
    return .validatorAttestation { common, input := { referenceTxid, attestation } }

def parseL1BatchDAReference (instrs : List Instruction) (common : CommonFields Address) :
    Outcome Unit (FullInscriptionMessage Address) :=
  if instrs.length < minL1BatchDAReferenceInstructions then .err ()
  else do
    let hashBytes ← pushAt instrs 2
    let l1BatchHash ← FixedBytes.fromSlice 32 hashBytes
    let indexBytes ← pushAt instrs 3
    let l1BatchIndex ← .ofOption (u32FromBeBytes indexBytes)
    let identifierBytes ← pushAt instrs 4
    let daIdentifier ← .ofOption (Utf8.fromUtf8 identifierBytes)
    let blobBytes ← pushAt instrs 5
    let blobId ← .ofOption (Utf8.fromUtf8 blobBytes)
    return .l1BatchDAReference
      { common, input := { l1BatchHash, l1BatchIndex, daIdentifier, blobId } }

def parseProofDAReference (instrs : List Instruction) (common : CommonFields Address) :
    Outcome Unit (FullInscriptionMessage Address) :=
  if instrs.length < minProofDAReferenceInstructions then .err ()
  else do
    let txidBytes ← pushAt instrs 2
    let l1BatchRevealTxid ← .ofOption (FixedBytes.tryFrom 32 txidBytes)
    let identifierBytes ← pushAt instrs 3
    let daIdentifier ← .ofOption (Utf8.fromUtf8 identifierBytes)
    let blobBytes ← pushAt instrs 4
    let blobId ← .ofOption (Utf8.fromUtf8 blobBytes)
    return .proofDAReference { common, input := { l1BatchRevealTxid, daIdentifier, blobId } }

/-- The output test of the amount search: a witness-pubkey-hash output locked to the bridge. -/
def paysBridge (bridge : Option Address) (output : TxOut) : Bool :=
  match bridge with
  | some address =>
    B.isP2wpkh output.scriptPubkey && output.scriptPubkey = B.scriptPubkey address
  | none => false

/-- The amount of a deposit: the value of the first output that passes the test, or zero. -/
def depositAmount (bridge : Option Address) (outputs : List TxOut) : ℕ :=
  ((outputs.find? (paysBridge B bridge)).map TxOut.value).getD 0

def readL1ToL2Input (instrs : List Instruction) : Outcome Unit L1ToL2MessageInput :=
  if instrs.length < minL1ToL2MessageInstructions then .err ()
  else do
    let receiverBytes ← pushAt instrs 2
    let receiverL2Address ← FixedBytes.fromSlice 20 receiverBytes
    let contractBytes ← pushAt instrs 3
    let l2ContractAddress ← FixedBytes.fromSlice 20 contractBytes
    let callData ← pushAt instrs 4
    return { receiverL2Address, l2ContractAddress, callData }

def parseL1ToL2Message (bridge : Option Address) (tx : Transaction) (instrs : List Instruction)
    (common : CommonFields Address) : Outcome Unit (FullInscriptionMessage Address) := do
  let input ← readL1ToL2Input instrs
  return .l1ToL2Message
    { common, amount := depositAmount B bridge tx.output, input, txOutputs := tx.output }

/-! ### Dispatch -/

def messageKind (instrs : List Instruction) : Option MessageKind :=
  ((instrs[1]?).bind Instruction.toPushBytes).bind MessageKind.ofText

def parseMessage (self : MessageParser Address) (tx : Transaction) (instrs : List Instruction)
    (common : CommonFields Address) :
    MessageParser Address × Outcome Unit (FullInscriptionMessage Address) :=
  match messageKind instrs with
  | some .systemBootstrapping => parseSystemBootstrapping B self instrs common
  | some .proposeSequencer => (self, parseProposeSequencer B self.network instrs common)
  | some .validatorAttestation => (self, parseValidatorAttestation instrs common)
  | some .l1BatchDAReference => (self, parseL1BatchDAReference instrs common)
  | some .proofDAReference => (self, parseProofDAReference instrs common)
  | some .l1ToL2Message => (self, parseL1ToL2Message B self.bridgeAddress tx instrs common)
  | none => (self, .err ())

/-- What the witness of an input reveals: a signature, a key and the instructions from the protocol
marker on. -/
structure RevealedInscription where
  signature : TaprootSignature
  internalKey : FixedBytes 32
  instructions : List Instruction

/-- `parse_input` up to the call of `parse_message`.  A witness has at least `minWitnessLength`
items: signature, script, control block. -/
def revealedInscription (input : TxIn) : Option RevealedInscription :=
  match input.witness with
  | signatureBytes :: script :: controlBytes :: _ => do
    let signature ← B.taprootSignatureFromSlice signatureBytes
    let internalKey ← B.controlBlockDecode controlBytes
    let instructions ← viaInstructions B script
    some { signature, internalKey, instructions }
  | _ => none

def parseInput (self : MessageParser Address) (tx : Transaction) (blockHeight : ℕ)
    (address : Address) (input : TxIn) :
    MessageParser Address × Outcome Unit (FullInscriptionMessage Address) :=
  match revealedInscription B input with
  | none => (self, .err ())
  | some r =>
    parseMessage B self tx r.instructions
      { schnorrSignature := r.signature
        encodedPublicKey := r.internalKey.bytes
        blockHeight
        txId := B.computeNtxid tx
        p2wpkhAddress := address }

def parseP2wpkh (network : Network) (witness : List Bytes) : Option Address :=
  match witness with
  | [_, key] => (B.compressedPublicKey key).map fun pk => B.p2wpkh pk network
  | _ => none

/-- The sender of a transaction: the last input with such a witness decides. -/
def senderAddress (network : Network) (tx : Transaction) : Option Address :=
  tx.input.foldl (fun sender input => (parseP2wpkh B network input.witness).or sender) none

/-- One input of the loop: a message that does not parse is skipped. -/
def readInput {ε : Type} (tx : Transaction) (blockHeight : ℕ) (address : Address)
    (self : MessageParser Address) (input : TxIn) :
    MessageParser Address × Outcome ε (List (FullInscriptionMessage Address)) :=
  match parseInput B self tx blockHeight address input with
  | (self', .ok m) => (self', .ok [m])
  | (self', .err _) => (self', .ok [])
  | (self', .panic) => (self', .panic)

def parseTransaction {ε : Type} (self : MessageParser Address) (tx : Transaction)
    (blockHeight : ℕ) : MessageParser Address × Outcome ε (List (FullInscriptionMessage Address)) :=
  match senderAddress B self.network tx with
  | some address => collect (readInput B tx blockHeight address) self tx.input
  | none => (self, .ok [])

/-! ### What an input does to the parser -/

def bridgeWrite (network : Network) (input : TxIn) : Option Address := do
  let r ← revealedInscription B input
  if messageKind r.instructions = some .systemBootstrapping then
    let head ← readBootstrapping B network r.instructions
    some head.bridgeAddress
  else none

def MessageParser.store (self : MessageParser Address) (written : Option Address) :
    MessageParser Address :=
  { self with bridgeAddress := written.or self.bridgeAddress }

@[simp] theorem MessageParser.store_network (self : MessageParser Address)
    (written : Option Address) : (self.store written).network = self.network := rfl

variable {B} {self : MessageParser Address} {tx : Transaction} {blockHeight : ℕ}
  {address : Address} {input : TxIn} {instrs : List Instruction}
  {common : CommonFields Address} {m : FullInscriptionMessage Address}

theorem parseInput_fst :
    (parseInput B self tx blockHeight address input).1
      = self.store (bridgeWrite B self.network input) := by
  unfold parseInput bridgeWrite
  cases hr : revealedInscription B input with
  | none => rfl
  | some r =>
    simp only [Option.bind_eq_bind, Option.bind_some]
    unfold parseMessage
    cases hk : messageKind r.instructions with
    | none => rfl
    | some k =>
      cases k with
      | systemBootstrapping =>
        simp only [parseSystemBootstrapping]
        cases readBootstrapping B self.network r.instructions <;> rfl
      | _ => rfl

theorem parseMessage_ok (h : (parseMessage B self tx instrs common).2 = .ok m) :
    m.common = common ∧ messageKind instrs = some m.toInput.kind := by
  unfold parseMessage at h
  cases hk : messageKind instrs with
  | none =>
    rw [hk] at h
    cases h
  | some k =>
    rw [hk] at h
    -- whatever a parser has read, the message it returns is of its own kind
    cases k with
    | systemBootstrapping =>
      simp only [parseSystemBootstrapping] at h
      split at h
      · cases h
      · simp only [finishBootstrapping, Outcome.bind_eq_ok, Outcome.pure_eq_ok] at h
        obtain ⟨_, _, _, _, _, _, _, _, hm⟩ := h
        cases hm
        exact ⟨rfl, rfl⟩
    | proposeSequencer =>
      simp only [parseProposeSequencer] at h
      split at h
      · cases h
      · simp only [Outcome.bind_eq_ok, Outcome.pure_eq_ok] at h
        obtain ⟨_, _, _, _, hm⟩ := h
        cases hm
        exact ⟨rfl, rfl⟩
    | validatorAttestation =>
      simp only [parseValidatorAttestation] at h
      split at h
      · cases h
      · simp only [Outcome.bind_eq_ok, Outcome.pure_eq_ok] at h
        obtain ⟨_, _, _, _, _, _, hm⟩ := h
        cases hm
        exact ⟨rfl, rfl⟩
    | l1BatchDAReference =>
      simp only [parseL1BatchDAReference] at h
      split at h
      · cases h
      · simp only [Outcome.bind_eq_ok, Outcome.pure_eq_ok] at h
        obtain ⟨_, _, _, _, _, _, _, _, _, _, _, _, _, _, _, _, hm⟩ := h
        cases hm
        exact ⟨rfl, rfl⟩
    | proofDAReference =>
      simp only [parseProofDAReference] at h
      split at h
      · cases h
      · simp only [Outcome.bind_eq_ok, Outcome.pure_eq_ok] at h
        obtain ⟨_, _, _, _, _, _, _, _, _, _, _, _, hm⟩ := h
        cases hm
        exact ⟨rfl, rfl⟩
    | l1ToL2Message =>
      simp only [parseL1ToL2Message, Outcome.bind_eq_ok, Outcome.pure_eq_ok] at h
      obtain ⟨_, _, hm⟩ := h
      cases hm
      exact ⟨rfl, rfl⟩

theorem parseInput_ok (h : (parseInput B self tx blockHeight address input).2 = .ok m) :
    ∃ r, revealedInscription B input = some r
      ∧ (parseMessage B self tx r.instructions m.common).2 = .ok m
      ∧ messageKind r.instructions = some m.toInput.kind
      ∧ m.common.blockHeight = blockHeight ∧ m.common.txId = B.computeNtxid tx
      ∧ m.common.p2wpkhAddress = address := by
  unfold parseInput at h
  cases hr : revealedInscription B input with
  | none =>
    rw [hr] at h
    cases h
  | some r =>
    rw [hr] at h
    obtain ⟨hc, hk⟩ := parseMessage_ok h
    refine ⟨r, rfl, ?_, hk, ?_, ?_, ?_⟩
    · rw [hc]
      exact h
    all_goals rw [hc]

/-! ### Transactions -/

variable {ε : Type}

theorem readInput_fst :
    (readInput (ε := ε) B tx blockHeight address self input).1
      = self.store (bridgeWrite B self.network input) := by
  rw [← parseInput_fst]
  unfold readInput
  split
  · rename_i h
    rw [h]
  · rename_i h
    rw [h]
  · rename_i h
    rw [h]

variable {ms : List (FullInscriptionMessage Address)}

theorem readInput_mem
    (h : (readInput (ε := ε) B tx blockHeight address self input).2 = .ok ms) (hm : m ∈ ms) :
    (parseInput B self tx blockHeight address input).2 = .ok m := by
  unfold readInput at h
  split at h
  · rename_i hp
    cases h
    rw [hp, List.mem_singleton.1 hm]
  · cases h
    cases hm
  · cases h

theorem readInput_of_ok (h : (parseInput B self tx blockHeight address input).2 = .ok m) :
    (readInput (ε := ε) B tx blockHeight address self input).2 = .ok [m] := by
  unfold readInput
  split
  · rename_i hp
    rw [hp] at h
    rw [Outcome.ok.inj h]
  · rename_i hp
    rw [hp] at h
    cases h
  · rename_i hp
    rw [hp] at h
    cases h

theorem readInput_returns_iff :
    (∃ ms, (readInput (ε := ε) B tx blockHeight address self input).2 = .ok ms)
      ↔ (parseInput B self tx blockHeight address input).2 ≠ .panic := by
  unfold readInput
  split
  · rename_i h
    simp [h]
  · rename_i h
    simp [h]
  · rename_i h
    simp [h]

variable (B) in
/-- The addresses that a transaction stores, in order; without a sender nothing is read. -/
def storedBridges (network : Network) (tx : Transaction) : List Address :=
  if (senderAddress B network tx).isSome then tx.input.filterMap (bridgeWrite B network) else []

/-- **The rule for transactions.**  What every stored address keeps holds after the transaction, and
of the parser from which each message was read. -/
theorem parseTransaction_invariant {I : MessageParser Address → Prop}
    (hI : ∀ p, I p → ∀ a ∈ storedBridges B self.network tx, I (p.store (some a))) (h0 : I self) :
    I (parseTransaction (ε := ε) B self tx blockHeight).1 ∧
      (parseTransaction (ε := ε) B self tx blockHeight).1.network = self.network ∧
      ∀ ms, (parseTransaction (ε := ε) B self tx blockHeight).2 = .ok ms → ∀ m ∈ ms,
        ∃ p, I p ∧ ∃ input ∈ tx.input, ∃ address,
          (parseInput B p tx blockHeight address input).2 = .ok m := by
  unfold parseTransaction
  cases hsender : senderAddress B self.network tx with
  | none =>
    refine ⟨h0, rfl, fun ms hms m hm => ?_⟩
    cases hms
    cases hm
  | some address =>
    have hstored : storedBridges B self.network tx
        = tx.input.filterMap (bridgeWrite B self.network) := by
      rw [storedBridges, hsender]
      rfl
    -- one input stores at most one address
    have hstep : ∀ p : MessageParser Address, I p ∧ p.network = self.network →
        ∀ input ∈ tx.input, I (readInput (ε := ε) B tx blockHeight address p input).1 ∧
          (readInput (ε := ε) B tx blockHeight address p input).1.network = self.network := by
      rintro p ⟨hp, hnetwork⟩ input hinput
      rw [readInput_fst, hnetwork]
      refine ⟨?_, hnetwork⟩
      cases hwrite : bridgeWrite B self.network input with
      | none => exact hp
      | some a =>
        refine hI p hp a ?_
        rw [hstored]
        exact List.mem_filterMap.2 ⟨input, hinput, hwrite⟩
    obtain ⟨⟨hfst, hnetwork⟩, hmem⟩ := collect_invariant hstep ⟨h0, rfl⟩
    refine ⟨hfst, hnetwork, fun ms hms m hm => ?_⟩
    obtain ⟨p, input, ms', hp, hinput, hok, hm⟩ := hmem ms hms m hm
    exact ⟨p, hp.1, input, hinput, address, readInput_mem hok hm⟩

theorem parseTransaction_common
    (h : (parseTransaction (ε := ε) B self tx blockHeight).2 = .ok ms) (hm : m ∈ ms) :
    m.common.blockHeight = blockHeight ∧ m.common.txId = B.computeNtxid tx := by
  obtain ⟨-, -, hmem⟩ := parseTransaction_invariant (ε := ε) (B := B) (I := fun _ => True)
    (fun _ _ _ _ => trivial) trivial
  obtain ⟨p, -, input, -, address, hok⟩ := hmem ms h m hm
  obtain ⟨_, -, -, -, hheight, htxid, -⟩ := parseInput_ok hok
  exact ⟨hheight, htxid⟩

theorem parseInput_amount {d : L1ToL2Message Address}
    (h : (parseInput B self tx blockHeight address input).2 = .ok (.l1ToL2Message d)) :
    d.amount = depositAmount B self.bridgeAddress tx.output ∧ d.txOutputs = tx.output := by
  obtain ⟨r, -, hparse, hkind, -⟩ := parseInput_ok h
  unfold parseMessage at hparse
  rw [hkind] at hparse
  obtain ⟨_, -, hd⟩ := Outcome.bind_eq_ok.1 hparse
  simp only [Outcome.pure_eq_ok, Outcome.ok.injEq, FullInscriptionMessage.l1ToL2Message.injEq] at hd
  exact ⟨(congrArg L1ToL2Message.amount hd).symm, (congrArg L1ToL2Message.txOutputs hd).symm⟩

end Parser
