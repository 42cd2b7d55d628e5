/-
Inscription messages.

A message to be inscribed (`InscriptionMessage`) holds the input fields only; a message read from
the chain (`FullInscriptionMessage`) also says where it was found and who revealed it
(`CommonFields`), and a deposit carries the outputs and the amount of its transaction.

Addresses stand for their network-unchecked form wherever the source has one: checking the network
changes the type of an address, not the address.
-/
import ViaCore.Bitcoin

inductive Vote where
  | ok
  | notOk
  deriving DecidableEq

structure L1BatchDAReferenceInput where
  l1BatchHash : H256
  l1BatchIndex : UInt32
  daIdentifier : Utf8
  blobId : Utf8
  deriving DecidableEq

structure ProofDAReferenceInput where
  l1BatchRevealTxid : Txid
  daIdentifier : Utf8
  blobId : Utf8
  deriving DecidableEq

structure ValidatorAttestationInput where
  referenceTxid : Txid
  attestation : Vote
  deriving DecidableEq

structure SystemBootstrappingInput (Address : Type) where
  startBlockHeight : UInt32
  verifierP2wpkhAddresses : List Address
  bridgeP2wpkhMpcAddress : Address
  bootloaderHash : H256
  abstractAccountHash : H256
  deriving DecidableEq

structure ProposeSequencerInput (Address : Type) where
  sequencerNewP2wpkhAddress : Address
  deriving DecidableEq

structure L1ToL2MessageInput where
  receiverL2Address : EVMAddress
  l2ContractAddress : EVMAddress
  callData : Bytes
  deriving DecidableEq

inductive InscriptionMessage (Address : Type) where
  | l1BatchDAReference (input : L1BatchDAReferenceInput)
  | proofDAReference (input : ProofDAReferenceInput)
  | validatorAttestation (input : ValidatorAttestationInput)
  | systemBootstrapping (input : SystemBootstrappingInput Address)
  | proposeSequencer (input : ProposeSequencerInput Address)
  | l1ToL2Message (input : L1ToL2MessageInput)
  deriving DecidableEq

structure CommonFields (Address : Type) where
  schnorrSignature : TaprootSignature
  encodedPublicKey : Bytes
  blockHeight : ℕ
  txId : Txid
  p2wpkhAddress : Address
  deriving DecidableEq

structure L1BatchDAReference (Address : Type) where
  common : CommonFields Address
  input : L1BatchDAReferenceInput
  deriving DecidableEq

structure ProofDAReference (Address : Type) where
  common : CommonFields Address
  input : ProofDAReferenceInput
  deriving DecidableEq

structure ValidatorAttestation (Address : Type) where
  common : CommonFields Address
  input : ValidatorAttestationInput
  deriving DecidableEq

structure SystemBootstrapping (Address : Type) where
  common : CommonFields Address
  input : SystemBootstrappingInput Address
  deriving DecidableEq

structure ProposeSequencer (Address : Type) where
  common : CommonFields Address
  input : ProposeSequencerInput Address
  deriving DecidableEq

/-- A deposit: the amount that its transaction pays to the bridge, as the parser finds it. -/
structure L1ToL2Message (Address : Type) where
  common : CommonFields Address
  amount : ℕ
  input : L1ToL2MessageInput
  txOutputs : List TxOut
  deriving DecidableEq

inductive FullInscriptionMessage (Address : Type) where
  | l1BatchDAReference (m : L1BatchDAReference Address)
  | proofDAReference (m : ProofDAReference Address)
  | validatorAttestation (m : ValidatorAttestation Address)
  | systemBootstrapping (m : SystemBootstrapping Address)
  | proposeSequencer (m : ProposeSequencer Address)
  | l1ToL2Message (m : L1ToL2Message Address)
  deriving DecidableEq

namespace FullInscriptionMessage

variable {Address : Type}

def toInput : FullInscriptionMessage Address → InscriptionMessage Address
  | l1BatchDAReference m => .l1BatchDAReference m.input
  | proofDAReference m => .proofDAReference m.input
  | validatorAttestation m => .validatorAttestation m.input
  | systemBootstrapping m => .systemBootstrapping m.input
  | proposeSequencer m => .proposeSequencer m.input
  | l1ToL2Message m => .l1ToL2Message m.input

def common : FullInscriptionMessage Address → CommonFields Address
  | l1BatchDAReference m => m.common
  | proofDAReference m => m.common
  | validatorAttestation m => m.common
  | systemBootstrapping m => m.common
  | proposeSequencer m => m.common
  | l1ToL2Message m => m.common

def toL1ToL2Message : FullInscriptionMessage Address → Option (L1ToL2Message Address)
  | l1ToL2Message m => some m
  | _ => none

theorem common_toL1ToL2Message {m : FullInscriptionMessage Address} {d : L1ToL2Message Address}
    (h : m.toL1ToL2Message = some d) : d.common = m.common := by
  cases m with
  | l1ToL2Message m => rw [← Option.some.inj h, common]
  | _ => cases h

end FullInscriptionMessage

def viaInscriptionProtocol : Bytes := ascii "via_inscription_protocol"

def systemBootstrappingMsg : Bytes := ascii "SystemBootstrappingMessage"

def proposeSequencerMsg : Bytes := ascii "ProposeSequencerMessage"

def validatorAttestationMsg : Bytes := ascii "ValidatorAttestationMessage"

def l1BatchDAReferenceMsg : Bytes := ascii "L1BatchDAReferenceMessage"

def proofDAReferenceMsg : Bytes := ascii "ProofDAReferenceMessage"

def l1ToL2Msg : Bytes := ascii "L1ToL2Message"

inductive MessageKind where
  | systemBootstrapping
  | proposeSequencer
  | validatorAttestation
  | l1BatchDAReference
  | proofDAReference
  | l1ToL2Message
  deriving DecidableEq

namespace MessageKind

def text : MessageKind → Bytes
  | systemBootstrapping => systemBootstrappingMsg
  | proposeSequencer => proposeSequencerMsg
  | validatorAttestation => validatorAttestationMsg
  | l1BatchDAReference => l1BatchDAReferenceMsg
  | proofDAReference => proofDAReferenceMsg
  | l1ToL2Message => l1ToL2Msg

/-- The kind that a text announces, compared in the order of the source. -/
def ofText (b : Bytes) : Option MessageKind :=
  if b = systemBootstrappingMsg then some systemBootstrapping
  else if b = proposeSequencerMsg then some proposeSequencer
  else if b = validatorAttestationMsg then some validatorAttestation
  else if b = l1BatchDAReferenceMsg then some l1BatchDAReference
  else if b = proofDAReferenceMsg then some proofDAReference
  else if b = l1ToL2Msg then some l1ToL2Message
  else none

@[simp] theorem ofText_text (k : MessageKind) : ofText k.text = some k := by
  cases k <;> decide +kernel

end MessageKind

def InscriptionMessage.kind {Address : Type} : InscriptionMessage Address → MessageKind
  | .l1BatchDAReference _ => .l1BatchDAReference
  | .proofDAReference _ => .proofDAReference
  | .validatorAttestation _ => .validatorAttestation
  | .systemBootstrapping _ => .systemBootstrapping
  | .proposeSequencer _ => .proposeSequencer
  | .l1ToL2Message _ => .l1ToL2Message
