/-
Building inscription scripts, and reading them back.

* `readScript_inscriptionScript_iff` — which messages are read back as they were written.

A vote `NotOk` is written as `OP_0`.  Reading a script turns `OP_0` into an empty push, which the
reader takes neither for the opcode `0x50` nor for the text `OP_0`, so that the vote is lost.
-/
import ViaCore.Parser

section Writer

variable {Address : Type} (B : RustBitcoin Address)

def opPushnum1 : UInt8 := 0x51

def opIf : UInt8 := 0x63

def opEndif : UInt8 := 0x68

def opChecksig : UInt8 := 0xAC

/-- `OP_0` and `OP_FALSE` are one opcode. -/
def opFalse : UInt8 := 0x00

/-- A push buffer that refuses what is too long for a push stays empty. -/
def encodePushBytes (data : Bytes) : Bytes := if data.length < 2 ^ 32 then data else []

def pushItems (script : Bytes) (items : List ScriptItem) : Bytes := items.foldl B.pushItem script

def buildBasicInscriptionScript (encodedPubkey : Bytes) : Bytes :=
  pushItems B [] [.slice encodedPubkey, .opcode opChecksig, .opcode opFalse, .opcode opIf,
    .slice (encodePushBytes viaInscriptionProtocol)]

def buildL1BatchDAReferenceScript (basicScript : Bytes) (input : L1BatchDAReferenceInput) : Bytes :=
  pushItems B basicScript
    [.slice l1BatchDAReferenceMsg,
      .slice (encodePushBytes input.l1BatchHash.bytes),
      .slice (encodePushBytes (u32ToBeBytes input.l1BatchIndex)),
      .slice (encodePushBytes input.daIdentifier.asBytes),
      .slice (encodePushBytes input.blobId.asBytes)]

def buildProofDAReferenceScript (basicScript : Bytes) (input : ProofDAReferenceInput) : Bytes :=
  pushItems B basicScript
    [.slice proofDAReferenceMsg,
      .slice (encodePushBytes input.l1BatchRevealTxid.bytes),
      .slice (encodePushBytes input.daIdentifier.asBytes),
      .slice (encodePushBytes input.blobId.asBytes)]

def buildValidatorAttestationScript (basicScript : Bytes) (input : ValidatorAttestationInput) :
    Bytes :=
  let script := pushItems B basicScript
    [.slice validatorAttestationMsg, .slice (encodePushBytes input.referenceTxid.bytes)]
  match input.attestation with
  | .ok => B.pushOpcode script opPushnum1
  | .notOk => B.pushOpcode script opFalse

def addressItem (a : Address) : ScriptItem := .slice (encodePushBytes (B.displayAddress a).asBytes)

def buildSystemBootstrappingScript (basicScript : Bytes) (input : SystemBootstrappingInput Address)
    (network : Network) : Option Bytes := do
  let script := pushItems B basicScript
    [.slice systemBootstrappingMsg, .slice (encodePushBytes (u32ToBeBytes input.startBlockHeight))]
  -- an address of another network anywhere in the list ends the loop with an error
  let verifiers ← input.verifierP2wpkhAddresses.mapM fun a => B.requireNetwork a network
  let script := pushItems B script (verifiers.map (addressItem B))
  let bridgeAddress ← B.requireNetwork input.bridgeP2wpkhMpcAddress network
  return pushItems B script
    [addressItem B bridgeAddress,
      .slice (encodePushBytes input.bootloaderHash.bytes),
      .slice (encodePushBytes input.abstractAccountHash.bytes)]

def buildProposeSequencerScript (basicScript : Bytes) (input : ProposeSequencerInput Address)
    (network : Network) : Option Bytes := do
  let address ← B.requireNetwork input.sequencerNewP2wpkhAddress network
  return pushItems B basicScript [.slice proposeSequencerMsg, addressItem B address]

def buildL1ToL2MessageScript (basicScript : Bytes) (input : L1ToL2MessageInput) : Bytes :=
  pushItems B basicScript
    [.slice l1ToL2Msg,
      .slice (encodePushBytes input.receiverL2Address.bytes),
      .slice (encodePushBytes input.l2ContractAddress.bytes),
      .slice (encodePushBytes input.callData)]

def completeInscription (basicScript : Bytes) (message : InscriptionMessage Address)
    (network : Network) : Option Bytes := do
  let finalScriptResult ←
    match message with
    | .l1BatchDAReference input => some (buildL1BatchDAReferenceScript B basicScript input)
    | .proofDAReference input => some (buildProofDAReferenceScript B basicScript input)
    | .validatorAttestation input => some (buildValidatorAttestationScript B basicScript input)
    | .systemBootstrapping input => buildSystemBootstrappingScript B basicScript input network
    | .proposeSequencer input => buildProposeSequencerScript B basicScript input network
    | .l1ToL2Message input => some (buildL1ToL2MessageScript B basicScript input)
  return B.pushOpcode finalScriptResult opEndif

def inscriptionScript (encodedPubkey : Bytes) (message : InscriptionMessage Address)
    (network : Network) : Option Bytes :=
  completeInscription B (buildBasicInscriptionScript B (encodePushBytes encodedPubkey)) message
    network

/-- The reader's way through a script: instructions, protocol marker, message. -/
def readScript (self : MessageParser Address) (tx : Transaction) (common : CommonFields Address)
    (script : Bytes) : Outcome Unit (FullInscriptionMessage Address) :=
  match viaInstructions B script with
  | some instrs => (parseMessage B self tx instrs common).2
  | none => .err ()

end Writer

/-! ### What the reader sees -/

def InscriptionMessage.addresses {Address : Type} : InscriptionMessage Address → List Address
  | .systemBootstrapping input => input.bridgeP2wpkhMpcAddress :: input.verifierP2wpkhAddresses
  | .proposeSequencer input => [input.sequencerNewP2wpkhAddress]
  | _ => []

section Layout

variable {Address : Type} (B : RustBitcoin Address)

def basicItems (encodedPubkey : Bytes) : List ScriptItem :=
  [.slice encodedPubkey, .opcode opChecksig, .opcode opFalse, .opcode opIf,
    .slice (encodePushBytes viaInscriptionProtocol)]

def voteOpcode : Vote → UInt8
  | .ok => opPushnum1
  | .notOk => opFalse

def messageItems : InscriptionMessage Address → List ScriptItem
  | .l1BatchDAReference input =>
    [.slice l1BatchDAReferenceMsg, .slice (encodePushBytes input.l1BatchHash.bytes),
      .slice (encodePushBytes (u32ToBeBytes input.l1BatchIndex)),
      .slice (encodePushBytes input.daIdentifier.asBytes),
      .slice (encodePushBytes input.blobId.asBytes)]
  | .proofDAReference input =>
    [.slice proofDAReferenceMsg, .slice (encodePushBytes input.l1BatchRevealTxid.bytes),
      .slice (encodePushBytes input.daIdentifier.asBytes),
      .slice (encodePushBytes input.blobId.asBytes)]
  | .validatorAttestation input =>
    [.slice validatorAttestationMsg, .slice (encodePushBytes input.referenceTxid.bytes),
      .opcode (voteOpcode input.attestation)]
  | .systemBootstrapping input =>
    [.slice systemBootstrappingMsg, .slice (encodePushBytes (u32ToBeBytes input.startBlockHeight))]
      ++ input.verifierP2wpkhAddresses.map (addressItem B)
      ++ [addressItem B input.bridgeP2wpkhMpcAddress,
        .slice (encodePushBytes input.bootloaderHash.bytes),
        .slice (encodePushBytes input.abstractAccountHash.bytes)]
  | .proposeSequencer input =>
    [.slice proposeSequencerMsg, addressItem B input.sequencerNewP2wpkhAddress]
  | .l1ToL2Message input =>
    [.slice l1ToL2Msg, .slice (encodePushBytes input.receiverL2Address.bytes),
      .slice (encodePushBytes input.l2ContractAddress.bytes),
      .slice (encodePushBytes input.callData)]

def messageInstructions (msg : InscriptionMessage Address) : List Instruction :=
  .pushBytes viaInscriptionProtocol :: (messageItems B msg).map ScriptItem.readBack ++ [.op opEndif]

variable {B} {network : Network} {msg : InscriptionMessage Address}

theorem encodePushBytes_length (data : Bytes) : (encodePushBytes data).length < 2 ^ 32 := by
  unfold encodePushBytes
  split
  · assumption
  · norm_num

theorem encodePushBytes_of_lt {data : Bytes} (h : data.length < 2 ^ 32) :
    encodePushBytes data = data := if_pos h

@[simp] theorem encodePushBytes_fixed32 (a : FixedBytes 32) : encodePushBytes a.bytes = a.bytes :=
  encodePushBytes_of_lt (by rw [a.size]; norm_num)

@[simp] theorem encodePushBytes_fixed20 (a : FixedBytes 20) : encodePushBytes a.bytes = a.bytes :=
  encodePushBytes_of_lt (by rw [a.size]; norm_num)

@[simp] theorem encodePushBytes_u32ToBeBytes (n : UInt32) :
    encodePushBytes (u32ToBeBytes n) = u32ToBeBytes n :=
  encodePushBytes_of_lt (by simp [u32ToBeBytes])

theorem pushItems_append (script : Bytes) (items items' : List ScriptItem) :
    pushItems B (pushItems B script items) items' = pushItems B script (items ++ items') :=
  List.foldl_append.symm

theorem mapM_requireNetwork {addresses : List Address}
    (h : ∀ a ∈ addresses, B.isValidForNetwork a network = true) :
    (addresses.mapM fun a => B.requireNetwork a network) = some addresses := by
  induction addresses with
  | nil => rfl
  | cons a rest ih =>
    have ha := B.requireNetwork_of_valid (h a List.mem_cons_self)
    have hrest := ih fun b hb => h b (List.mem_cons_of_mem _ hb)
    simp only [List.mapM_cons, ha, hrest]
    rfl

theorem completeInscription_eq (script : Bytes)
    (hvalid : ∀ a ∈ msg.addresses, B.isValidForNetwork a network = true) :
    completeInscription B script msg network
      = some (pushItems B script (messageItems B msg ++ [.opcode opEndif])) := by
  have hclose : ∀ built items, built = pushItems B script items →
      B.pushOpcode built opEndif = pushItems B script (items ++ [.opcode opEndif]) := by
    rintro built items rfl
    rw [← pushItems_append]
    rfl
  cases msg with
  | l1BatchDAReference input | l1ToL2Message input => exact congrArg some (hclose _ _ rfl)
  | proofDAReference input => exact congrArg some (hclose _ _ rfl)
  | validatorAttestation input =>
    obtain ⟨txid, vote⟩ := input
    refine congrArg some (hclose _ _ ?_)
    cases vote <;> rfl
  -- only these two check addresses
  | systemBootstrapping input =>
    have hverifiers := mapM_requireNetwork fun a ha => hvalid a (List.mem_cons_of_mem _ ha)
    have hbridge := B.requireNetwork_of_valid (hvalid _ List.mem_cons_self)
    have hbuilt : buildSystemBootstrappingScript B script input network
        = some (pushItems B script (messageItems B (.systemBootstrapping input))) := by
      simp only [buildSystemBootstrappingScript, hverifiers, hbridge, Option.bind_eq_bind,
        Option.bind_some, Option.pure_def, pushItems_append]
      rfl
    simp only [completeInscription, hbuilt, Option.bind_eq_bind, Option.bind_some]
    exact congrArg some (hclose _ _ rfl)
  | proposeSequencer input =>
    have haddress := B.requireNetwork_of_valid (hvalid _ List.mem_cons_self)
    have hbuilt : buildProposeSequencerScript B script input network
        = some (pushItems B script (messageItems B (.proposeSequencer input))) := by
      simp only [buildProposeSequencerScript, haddress, Option.bind_eq_bind, Option.bind_some]
      rfl
    simp only [completeInscription, hbuilt, Option.bind_eq_bind, Option.bind_some]
    exact congrArg some (hclose _ _ rfl)

theorem messageItems_pushable (B : RustBitcoin Address) (msg : InscriptionMessage Address) :
    ∀ item ∈ messageItems B msg, item.Pushable := by
  have hslice : ∀ data, (ScriptItem.slice (encodePushBytes data)).Pushable :=
    encodePushBytes_length
  have haddress : ∀ a, (addressItem B a).Pushable := fun a => hslice _
  have htext : ∀ k : MessageKind, (ScriptItem.slice k.text).Pushable := by
    intro k
    show k.text.length < 2 ^ 32
    cases k <;> decide +kernel
  have hvote : ∀ vote, (ScriptItem.opcode (voteOpcode vote)).Pushable := by
    intro vote
    show voteOpcode vote = 0 ∨ 0x4F ≤ (voteOpcode vote).toNat
    cases vote <;> decide
  cases msg <;> simp only [messageItems, List.forall_mem_append, List.forall_mem_cons,
    List.forall_mem_map, List.not_mem_nil, false_implies, hslice, haddress, hvote, implies_true,
    and_true]
  · exact htext .l1BatchDAReference
  · exact htext .proofDAReference
  · exact htext .validatorAttestation
  · exact htext .systemBootstrapping
  · exact htext .proposeSequencer
  · exact htext .l1ToL2Message

/-- The reader finds the protocol marker behind the opening items, because a key of 32 bytes is not
the marker. -/
theorem viaInstructions_envelope (hB : B.ScriptLaws) (key : FixedBytes 32)
    {items : List ScriptItem} (hitems : ∀ item ∈ items, item.Pushable) :
    viaInstructions B (pushItems B [] (basicItems key.bytes ++ (items ++ [.opcode opEndif])))
      = some (.pushBytes viaInscriptionProtocol :: items.map ScriptItem.readBack
          ++ [.op opEndif]) := by
  have hmarker : encodePushBytes viaInscriptionProtocol = viaInscriptionProtocol :=
    encodePushBytes_of_lt (by decide +kernel)
  -- the key in front is not taken for the marker
  have hkey : key.bytes ≠ viaInscriptionProtocol := by
    intro h
    have hlen := congrArg List.length h
    rw [key.size] at hlen
    exact absurd hlen (by decide +kernel)
  have hpushable : ∀ item ∈ basicItems key.bytes ++ (items ++ [ScriptItem.opcode opEndif]),
      item.Pushable := by
    have hkey : (ScriptItem.slice key.bytes).Pushable := by
      show key.bytes.length < 2 ^ 32
      rw [key.size]
      norm_num
    simp only [basicItems, List.forall_mem_append, List.forall_mem_cons]
    exact ⟨⟨hkey, .inr (by decide), .inl rfl, .inr (by decide), encodePushBytes_length _, nofun⟩,
      hitems, .inr (by decide), nofun⟩
  have hread := hB.instructions_build _ hpushable
  have hfilter : ∀ l : List ScriptItem,
      ((l.map fun i => some i.readBack).filterMap id) = l.map ScriptItem.readBack := by
    intro l
    simp [List.filterMap_map]
  have hopcode : ∀ o : UInt8, o ≠ 0 → (ScriptItem.opcode o).readBack = .op o :=
    fun o ho => if_neg ho
  have hzero : (ScriptItem.opcode opFalse).readBack = .pushBytes [] := rfl
  have hempty : ([] : Bytes) ≠ viaInscriptionProtocol := by decide +kernel
  unfold viaInstructions pushItems
  rw [hread, hfilter]
  simp only [basicItems, hmarker, List.map_append, List.map_cons, List.map_nil, List.cons_append,
    List.nil_append, ScriptItem.readBack_slice, hzero,
    hopcode opChecksig (by decide), hopcode opIf (by decide), hopcode opEndif (by decide),
    findViaInscriptionProtocol, List.findIdx?_cons, Instruction.pushBytes.injEq, hkey, hempty,
    reduceCtorEq, decide_false, decide_true, Bool.false_eq_true, if_false, if_true, Option.map_some,
    List.drop_succ_cons, List.drop_zero]

theorem readScript_of_script (hB : B.ScriptLaws) (key : FixedBytes 32)
    (hvalid : ∀ a ∈ msg.addresses, B.isValidForNetwork a network = true)
    (self : MessageParser Address) (tx : Transaction) (common : CommonFields Address) :
    ∃ script, inscriptionScript B key.bytes msg network = some script ∧
      readScript B self tx common script
        = (parseMessage B self tx (messageInstructions B msg) common).2 := by
  have hscript : inscriptionScript B key.bytes msg network = some (pushItems B []
      (basicItems key.bytes ++ (messageItems B msg ++ [.opcode opEndif]))) := by
    have hbasic : buildBasicInscriptionScript B key.bytes
        = pushItems B [] (basicItems key.bytes) := rfl
    rw [inscriptionScript, completeInscription_eq _ hvalid, encodePushBytes_fixed32, hbasic,
      pushItems_append]
  refine ⟨_, hscript, ?_⟩
  rw [readScript, viaInstructions_envelope hB key (messageItems_pushable B msg)]
  rfl

end Layout

/-! ### Reading back what was written -/

/-- The string that a push buffer makes of a string. -/
def Utf8.asWritten (s : Utf8) : Utf8 := if s.asBytes.length < 2 ^ 32 then s else Utf8.empty

theorem Utf8.fromUtf8_encodePushBytes (s : Utf8) :
    Utf8.fromUtf8 (encodePushBytes s.asBytes) = some s.asWritten := by
  unfold encodePushBytes Utf8.asWritten
  split
  · exact Utf8.fromUtf8_asBytes s
  · rfl

theorem Utf8.asWritten_eq_iff (s : Utf8) : s.asWritten = s ↔ s.asBytes.length < 2 ^ 32 := by
  unfold Utf8.asWritten
  split
  · rename_i hlt
    exact ⟨fun _ => hlt, fun _ => rfl⟩
  · rename_i hge
    refine ⟨fun h => ?_, fun h => absurd h hge⟩
    rw [← h]
    show 0 < 2 ^ 32
    norm_num

theorem encodePushBytes_eq_iff (data : Bytes) :
    encodePushBytes data = data ↔ data.length < 2 ^ 32 := by
  refine ⟨fun h => ?_, encodePushBytes_of_lt⟩
  rw [← h]
  exact encodePushBytes_length data

namespace InscriptionMessage

variable {Address : Type}

/-- The message with its texts and its call data as push buffers hold them. -/
def asWritten : InscriptionMessage Address → InscriptionMessage Address
  | l1BatchDAReference input => .l1BatchDAReference
      { input with daIdentifier := input.daIdentifier.asWritten, blobId := input.blobId.asWritten }
  | proofDAReference input => .proofDAReference
      { input with daIdentifier := input.daIdentifier.asWritten, blobId := input.blobId.asWritten }
  | l1ToL2Message input => .l1ToL2Message { input with callData := encodePushBytes input.callData }
  | msg => msg

/-- The vote that the writer writes and the reader does not read. -/
def IsNotOkVote (msg : InscriptionMessage Address) : Prop :=
  ∃ txid, msg = .validatorAttestation { referenceTxid := txid, attestation := .notOk }

/-- Every text and all call data fit a push. -/
def FitsPushes : InscriptionMessage Address → Prop
  | l1BatchDAReference input | proofDAReference input =>
    input.daIdentifier.asBytes.length < 2 ^ 32 ∧ input.blobId.asBytes.length < 2 ^ 32
  | l1ToL2Message input => input.callData.length < 2 ^ 32
  | _ => True

theorem asWritten_eq_iff (msg : InscriptionMessage Address) :
    msg.asWritten = msg ↔ msg.FitsPushes := by
  cases msg with
  | l1BatchDAReference input =>
    obtain ⟨hash, index, da, blob⟩ := input
    simp [asWritten, FitsPushes, Utf8.asWritten_eq_iff]
  | proofDAReference input =>
    obtain ⟨txid, da, blob⟩ := input
    simp [asWritten, FitsPushes, Utf8.asWritten_eq_iff]
  | validatorAttestation input | proposeSequencer input => simp [asWritten, FitsPushes]
  | systemBootstrapping input => simp [asWritten, FitsPushes]
  | l1ToL2Message input =>
    obtain ⟨receiver, contract, data⟩ := input
    simp [asWritten, FitsPushes, encodePushBytes_eq_iff]

end InscriptionMessage

section RoundTrip

variable {Address : Type} {B : RustBitcoin Address} {self : MessageParser Address}
  {tx : Transaction} {common : CommonFields Address} {network : Network}
  {msg : InscriptionMessage Address}

theorem messageKind_messageInstructions (msg : InscriptionMessage Address) :
    messageKind (messageInstructions B msg) = some msg.kind := by
  have hkind := MessageKind.ofText_text msg.kind
  cases msg <;> exact hkind

theorem addressOf_addressItem (hA : B.AddressLaws) (a : Address) :
    addressOf B (addressItem B a).readBack = some a := by
  have hwritten : (B.displayAddress a).asWritten = B.displayAddress a :=
    (Utf8.asWritten_eq_iff _).2 (hA.display_short a)
  show (Utf8.fromUtf8 (encodePushBytes (B.displayAddress a).asBytes)).bind B.parseAddress = some a
  rw [Utf8.fromUtf8_encodePushBytes, hwritten]
  exact hA.parse_display a

theorem parseValidatorAttestation_messageInstructions (input : ValidatorAttestationInput) :
    parseValidatorAttestation (messageInstructions B (.validatorAttestation input)) common
      = match input.attestation with
        | .ok => .ok (.validatorAttestation { common, input })
        | .notOk => .err () := by
  obtain ⟨txid, vote⟩ := input
  have hok : (ScriptItem.opcode opPushnum1).readBack = .op 0x51 := rfl
  have hnot : (ScriptItem.opcode opFalse).readBack = .pushBytes [] := rfl
  have hvoteOk : parseVote (.op 0x51) = some .ok := rfl
  have hvoteNot : parseVote (.pushBytes []) = none := by decide +kernel
  cases vote with
  | ok =>
    simp [parseValidatorAttestation, messageInstructions, messageItems, pushAt, voteOpcode,
      Instruction.toPushBytes, minValidatorAttestationInstructions, hok, hvoteOk]
  | notOk =>
    simp [parseValidatorAttestation, messageInstructions, messageItems, pushAt, voteOpcode,
      Instruction.toPushBytes, minValidatorAttestationInstructions, hnot, hvoteNot]

section Frame

variable (x₁ x₂ x₃ y₁ y₂ y₃ y₄ : Instruction) (middle : List Instruction)

private theorem frame_length :
    ([x₁, x₂, x₃] ++ middle ++ [y₁, y₂, y₃, y₄]).length = middle.length + 7 := by
  simp

private theorem frame_middle :
    ((([x₁, x₂, x₃] ++ middle ++ [y₁, y₂, y₃, y₄]).take (middle.length + 3)).drop 3) = middle := by
  rw [List.take_left' (by simp)]
  rfl

private theorem frame_getElem? (i : ℕ) :
    ([x₁, x₂, x₃] ++ middle ++ [y₁, y₂, y₃, y₄])[middle.length + 3 + i]?
      = [y₁, y₂, y₃, y₄][i]? := by
  rw [List.getElem?_append_right (by simp)]
  congr 1
  simp

end Frame

theorem parseSystemBootstrapping_messageInstructions (hA : B.AddressLaws)
    (input : SystemBootstrappingInput Address)
    (hvalid : B.isValidForNetwork input.bridgeP2wpkhMpcAddress self.network = true) :
    (parseSystemBootstrapping B self (messageInstructions B (.systemBootstrapping input)) common).2
      = .ok (.systemBootstrapping { common, input }) := by
  -- three instructions, the verifiers, and four that the reader counts from the end
  set verifiers := input.verifierP2wpkhAddresses.map fun a => (addressItem B a).readBack with hv
  have hinstructions : messageInstructions B (.systemBootstrapping input)
      = [.pushBytes viaInscriptionProtocol, .pushBytes systemBootstrappingMsg,
          .pushBytes (u32ToBeBytes input.startBlockHeight)] ++ verifiers
        ++ [(addressItem B input.bridgeP2wpkhMpcAddress).readBack,
          .pushBytes input.bootloaderHash.bytes, .pushBytes input.abstractAccountHash.bytes,
          .op opEndif] := by
    simp [messageInstructions, messageItems, hv, Function.comp_def]
  have hverifiers : verifiers.filterMap (addressOf B) = input.verifierP2wpkhAddresses := by
    rw [hv, List.filterMap_map]
    simp [addressOf_addressItem hA]
  have hread : readBootstrapping B self.network (messageInstructions B (.systemBootstrapping input))
      = some ⟨input.startBlockHeight, input.verifierP2wpkhAddresses,
          input.bridgeP2wpkhMpcAddress⟩ := by
    rw [hinstructions]
    unfold readBootstrapping
    rw [frame_length, if_neg (by simp [minSystemBootstrappingInstructions]),
      show verifiers.length + 7 - 4 = verifiers.length + 3 by omega, frame_middle, hverifiers,
      ← Nat.add_zero (verifiers.length + 3), frame_getElem?]
    simp [Instruction.toPushBytes, addressOf_addressItem hA, B.requireNetwork_of_valid hvalid]
  simp only [parseSystemBootstrapping, hread]
  rw [hinstructions]
  unfold finishBootstrapping pushAt
  rw [frame_length, show verifiers.length + 7 - 3 = verifiers.length + 3 + 1 by omega,
    frame_getElem?]
  simp [Instruction.toPushBytes]

theorem parseMessage_messageInstructions (hA : B.AddressLaws)
    (hvalid : ∀ a ∈ msg.addresses, B.isValidForNetwork a self.network = true)
    (hvote : ¬ msg.IsNotOkVote) :
    ∃ m, (parseMessage B self tx (messageInstructions B msg) common).2 = .ok m
      ∧ m.toInput = msg.asWritten := by
  unfold parseMessage
  rw [messageKind_messageInstructions]
  cases msg with
  | l1BatchDAReference input =>
    simp [InscriptionMessage.kind, parseL1BatchDAReference, messageInstructions, messageItems,
      pushAt, Instruction.toPushBytes, minL1BatchDAReferenceInstructions,
      Utf8.fromUtf8_encodePushBytes, FullInscriptionMessage.toInput, InscriptionMessage.asWritten]
  | proofDAReference input =>
    simp [InscriptionMessage.kind, parseProofDAReference, messageInstructions, messageItems, pushAt,
      Instruction.toPushBytes, minProofDAReferenceInstructions, Utf8.fromUtf8_encodePushBytes,
      FullInscriptionMessage.toInput, InscriptionMessage.asWritten]
  | validatorAttestation input =>
    obtain ⟨txid, vote⟩ := input
    cases vote with
    | ok => exact ⟨_, parseValidatorAttestation_messageInstructions _, rfl⟩
    | notOk => exact absurd ⟨txid, rfl⟩ hvote
  | systemBootstrapping input =>
    have haddress := hvalid _ List.mem_cons_self
    exact ⟨_, parseSystemBootstrapping_messageInstructions hA input haddress, rfl⟩
  | proposeSequencer input =>
    have haddress := B.requireNetwork_of_valid (hvalid _ List.mem_cons_self)
    simp [InscriptionMessage.kind, parseProposeSequencer, messageInstructions, messageItems,
      minProposeSequencerInstructions, addressOf_addressItem hA, haddress,
      FullInscriptionMessage.toInput, InscriptionMessage.asWritten]
  | l1ToL2Message input =>
    simp [InscriptionMessage.kind, parseL1ToL2Message, readL1ToL2Input, messageInstructions,
      messageItems, pushAt, Instruction.toPushBytes, minL1ToL2MessageInstructions,
      FullInscriptionMessage.toInput, InscriptionMessage.asWritten]

theorem parseMessage_notOkVote (hvote : msg.IsNotOkVote) :
    (parseMessage B self tx (messageInstructions B msg) common).2 = .err () := by
  obtain ⟨txid, rfl⟩ := hvote
  unfold parseMessage
  rw [messageKind_messageInstructions]
  exact parseValidatorAttestation_messageInstructions _

/-- **Which inscriptions read back as they were written**: exactly those that are not a `NotOk` vote
and whose texts and call data fit a push. -/
theorem readScript_inscriptionScript_iff (hB : B.ScriptLaws) (hA : B.AddressLaws)
    (key : FixedBytes 32) (msg : InscriptionMessage Address) (self : MessageParser Address)
    (tx : Transaction) (common : CommonFields Address)
    (hvalid : ∀ a ∈ msg.addresses, B.isValidForNetwork a self.network = true) :
    ∃ script, inscriptionScript B key.bytes msg self.network = some script ∧
      ((∃ m, readScript B self tx common script = .ok m ∧ m.toInput = msg)
        ↔ ¬ msg.IsNotOkVote ∧ msg.FitsPushes) := by
  obtain ⟨script, hscript, hread⟩ := readScript_of_script hB key hvalid self tx common
  refine ⟨script, hscript, ?_⟩
  rw [hread]
  -- a vote against a batch is never read back
  by_cases hvote : msg.IsNotOkVote
  · rw [parseMessage_notOkVote hvote]
    constructor
    · rintro ⟨m, hm, -⟩
      cases hm
    · rintro ⟨hnot, -⟩
      exact absurd hvote hnot
  · have hreads : ∃ m, (parseMessage B self tx (messageInstructions B msg) common).2 = .ok m
        ∧ m.toInput = msg.asWritten := parseMessage_messageInstructions hA hvalid hvote
    obtain ⟨m, hm, hinput⟩ := hreads
    rw [hm]
    constructor
    · rintro ⟨m', hm', hmsg⟩
      cases hm'
      exact ⟨hvote, msg.asWritten_eq_iff.1 (hinput.symm.trans hmsg)⟩
    · rintro ⟨-, hfits⟩
      exact ⟨m, rfl, hinput.trans (msg.asWritten_eq_iff.2 hfits)⟩

end RoundTrip

def scriptBitcoin : RustBitcoin SampleAddress :=
  sampleBitcoin (fun _ => .replicate 32 0) (fun _ => .replicate 32 0)

def scriptTransaction : Transaction := { version := 2, lockTime := 0, input := [], output := [] }

def scriptCommon : CommonFields SampleAddress :=
  { schnorrSignature := ⟨List.replicate 64 0x01⟩
    encodedPublicKey := SampleAddress.key1.xCoordinate.bytes
    blockHeight := 0
    txId := .replicate 32 0
    p2wpkhAddress := .key1 }

/-- A transaction that reveals messages, funded and signed by the address; `previous` is its commit
transaction. -/
def SampleAddress.inscribe (a : SampleAddress) (previous : Txid)
    (messages : List (InscriptionMessage SampleAddress)) (output : List TxOut) : Transaction :=
  { version := 2
    lockTime := 0
    input :=
      a.spendInput { txid := previous, vout := 0 } :: messages.mapIdx fun i msg =>
        a.revealInput { txid := previous, vout := i + 1 }
          (basicItems a.xCoordinate.bytes ++ messageItems scriptBitcoin msg ++ [.opcode opEndif])
    output }

/-- Bootstrapping with two verifiers satisfies the premises, and reads back. -/
theorem readScript_inscriptionScript_twoVerifiers :
    let msg : InscriptionMessage SampleAddress := .systemBootstrapping
      { startBlockHeight := 10
        verifierP2wpkhAddresses := [.key1, .key2]
        bridgeP2wpkhMpcAddress := .key3
        bootloaderHash := .replicate 32 1
        abstractAccountHash := .replicate 32 2 }
    ∃ script,
      inscriptionScript scriptBitcoin SampleAddress.key1.xCoordinate.bytes msg .testnet
          = some script ∧
        ((∃ m, readScript scriptBitcoin
          (.new .testnet) scriptTransaction scriptCommon script = .ok m
            ∧ m.toInput = msg)
          ↔ ¬ msg.IsNotOkVote ∧ msg.FitsPushes) := by
  intro msg
  exact readScript_inscriptionScript_iff (sampleBitcoin_scriptLaws _ _)
    (sampleBitcoin_addressLaws _ _) SampleAddress.key1.xCoordinate msg (.new .testnet)
    scriptTransaction scriptCommon (fun a _ => rfl)

/-- A vote against a proposal is written and then rejected by the reader. -/
theorem readScript_inscriptionScript_notOkVote :
    let msg : InscriptionMessage SampleAddress := .validatorAttestation
      { referenceTxid := .replicate 32 7, attestation := .notOk }
    ∃ script,
      inscriptionScript scriptBitcoin SampleAddress.key1.xCoordinate.bytes msg .testnet
          = some script ∧
        ¬ ∃ m, readScript scriptBitcoin (.new .testnet) scriptTransaction scriptCommon script
            = .ok m ∧ m.toInput = msg := by
  intro msg
  have hread : (inscriptionScript scriptBitcoin SampleAddress.key1.xCoordinate.bytes msg
      .testnet).map (readScript scriptBitcoin (.new .testnet) scriptTransaction scriptCommon)
        = some (.err ()) := by
    decide +kernel
  obtain ⟨script, hscript, herr⟩ := Option.map_eq_some_iff.1 hread
  refine ⟨script, hscript, ?_⟩
  rintro ⟨m, hm, -⟩
  cases herr.symm.trans hm
