/-
Bitcoin transactions, and what the code uses of the Bitcoin library.

Its cryptography and its text formats are not part of the repository, so they enter as the fields of
`RustBitcoin`, over an arbitrary type of addresses; what a result relies on is stated as a law about
these fields:

* `RustBitcoin.ScriptLaws` — a script that was built reads back item by item;
* `RustBitcoin.AddressLaws` — the printed form of an address parses to that address.

`sampleBitcoin` is a small library of this kind for running the model: the script format of
`Script.lean`, and the three testnet addresses whose keys are `G`, `2G` and `3G`.
-/
import ViaCore.Script

inductive Network where
  | bitcoin
  | testnet
  | signet
  | regtest
  deriving DecidableEq

structure OutPoint where
  txid : Txid
  vout : ℕ
  deriving DecidableEq

structure TxIn where
  previousOutput : OutPoint
  scriptSig : Bytes
  sequence : UInt32
  witness : List Bytes
  deriving DecidableEq

/-- An output: its value in satoshi and the script that locks it. -/
structure TxOut where
  value : ℕ
  scriptPubkey : Bytes
  deriving DecidableEq

structure Transaction where
  version : ℕ
  lockTime : UInt32
  input : List TxIn
  output : List TxOut
  deriving DecidableEq

/-- A taproot signature; nothing in the code looks inside. -/
structure TaprootSignature where
  raw : Bytes
  deriving DecidableEq

/-- The functions of the Bitcoin library that the code calls.  `Result` and `Option` are both
`Option` here: no caller looks at the library's errors. -/
structure RustBitcoin (Address : Type) where
  /-- `taproot::Signature::from_slice`. -/
  taprootSignatureFromSlice : Bytes → Option TaprootSignature
  /-- `ControlBlock::decode`, down to the serialized internal key. -/
  controlBlockDecode : Bytes → Option (FixedBytes 32)
  /-- `PublicKey::from_slice`, then `CompressedPublicKey::try_from`. -/
  compressedPublicKey : Bytes → Option Bytes
  /-- `Address::p2wpkh`. -/
  p2wpkh : Bytes → Network → Address
  /-- `Transaction::compute_ntxid`. -/
  computeNtxid : Transaction → Txid
  /-- `Transaction::compute_txid`. -/
  computeTxid : Transaction → Txid
  /-- `Script::instructions`: one result for each instruction read. -/
  scriptInstructions : Bytes → List (Option Instruction)
  /-- `script::Builder::push_slice`, on the script built so far. -/
  pushSlice : Bytes → Bytes → Bytes
  /-- `script::Builder::push_opcode`. -/
  pushOpcode : Bytes → UInt8 → Bytes
  /-- `str::parse::<Address<NetworkUnchecked>>`. -/
  parseAddress : Utf8 → Option Address
  /-- `Address::to_string`. -/
  displayAddress : Address → Utf8
  /-- `Address::is_valid_for_network`. -/
  isValidForNetwork : Address → Network → Bool
  /-- `Address::script_pubkey`. -/
  scriptPubkey : Address → Bytes
  /-- `Script::is_p2wpkh`. -/
  isP2wpkh : Bytes → Bool

namespace RustBitcoin

variable {Address : Type} (B : RustBitcoin Address)

/-- `Address::require_network`: the address itself, once it is valid for the network. -/
def requireNetwork (a : Address) (network : Network) : Option Address :=
  if B.isValidForNetwork a network then some a else none

theorem requireNetwork_of_valid {a : Address} {network : Network}
    (h : B.isValidForNetwork a network = true) : B.requireNetwork a network = some a := by
  rw [requireNetwork, if_pos h]

theorem requireNetwork_eq_some {a b : Address} {network : Network}
    (h : B.requireNetwork a network = some b) : b = a := by
  unfold requireNetwork at h
  split at h
  · exact (Option.some.inj h).symm
  · cases h

def pushItem (script : Bytes) : ScriptItem → Bytes
  | .slice b => B.pushSlice script b
  | .opcode o => B.pushOpcode script o

/-- Building and reading scripts are inverse, up to the zero opcode. -/
structure ScriptLaws : Prop where
  instructions_build : ∀ items : List ScriptItem, (∀ i ∈ items, i.Pushable) →
    B.scriptInstructions (items.foldl B.pushItem []) = items.map fun i => some i.readBack

/-- Printing and parsing addresses are inverse, and printed addresses fit a push. -/
structure AddressLaws : Prop where
  parse_display : ∀ a, B.parseAddress (B.displayAddress a) = some a
  display_short : ∀ a, (B.displayAddress a).asBytes.length < 2 ^ 32

end RustBitcoin

/-- The pay-to-witness-pubkey-hash addresses of the keys `G`, `2G` and `3G` on testnet. -/
inductive SampleAddress where
  | key1
  | key2
  | key3
  deriving DecidableEq

namespace SampleAddress

def xCoordinate : SampleAddress → FixedBytes 32
  | key1 => .ofNat 32 0x79BE667EF9DCBBAC55A06295CE870B07029BFCDB2DCE28D959F2815B16F81798
  | key2 => .ofNat 32 0xC6047F9441ED7D6D3045406E95C07CD85C778E4B8CEF3CA7ABAC09B95C709EE5
  | key3 => .ofNat 32 0xF9308A019258C31049344F85F89D5229B531C845836F99B08601F113BCE036F9

/-- The witness program: the hash of the compressed key. -/
def program : SampleAddress → Bytes
  | key1 => (FixedBytes.ofNat 20 0x751E76E8199196D454941C45D1B3A323F1433BD6).bytes
  | key2 => (FixedBytes.ofNat 20 0x06AFD46BCDFD22EF94AC122AA11F241244A37ECC).bytes
  | key3 => (FixedBytes.ofNat 20 0x7DD65592D0AB2FE0D0257D571ABF032CD9DB93DC).bytes

/-- The bech32 form of the address. -/
def text : SampleAddress → Bytes
  | key1 => ascii "tb1qw508d6qejxtdg4y5r3zarvary0c5xw7kxpjzsx"
  | key2 => ascii "tb1qq6hag67dl53wl99vzg42z8eyzfz2xlkvvlryfj"
  | key3 => ascii "tb1q0ht9tyks4vh7p5p904t340cr9nvahy7um9zdem"

/-- The locking script `OP_0 <program>`. -/
def script (a : SampleAddress) : Bytes := 0x00 :: 0x14 :: a.program

def publicKey (a : SampleAddress) : Bytes := 0x02 :: a.xCoordinate.bytes

def all : List SampleAddress := [key1, key2, key3]

def display (a : SampleAddress) : Utf8 :=
  ⟨a.text, by cases a <;> decide +kernel⟩

theorem find_text (a : SampleAddress) : (all.find? fun b => b.text = a.text) = some a := by
  cases a <;> decide +kernel

theorem text_length (a : SampleAddress) : a.text.length = 42 := by
  cases a <;> decide +kernel

def spendInput (a : SampleAddress) (previousOutput : OutPoint) : TxIn :=
  { previousOutput
    scriptSig := []
    sequence := 0xFFFFFFFF
    witness := [List.replicate 71 0x30, a.publicKey] }

def revealInput (a : SampleAddress) (previousOutput : OutPoint) (items : List ScriptItem) : TxIn :=
  { previousOutput
    scriptSig := []
    sequence := 0xFFFFFFFF
    witness := [List.replicate 64 0x01, encodeItems items, 0xC0 :: a.xCoordinate.bytes] }

end SampleAddress

/-- The sample library; the two transaction hashes are given from outside. -/
def sampleBitcoin (ntxid txid : Transaction → Txid) : RustBitcoin SampleAddress where
  taprootSignatureFromSlice b := if b.length = 64 then some ⟨b⟩ else none
  controlBlockDecode b :=
    if b.length = 33 then
      (SampleAddress.all.map SampleAddress.xCoordinate).find? fun x => x.bytes = b.drop 1
    else none
  compressedPublicKey b := (SampleAddress.all.map SampleAddress.publicKey).find? fun k => k = b
  p2wpkh k _ := (SampleAddress.all.find? fun a => a.publicKey = k).getD .key1
  computeNtxid := ntxid
  computeTxid := txid
  scriptInstructions := instructions
  pushSlice script b := script ++ (ScriptItem.slice b).encode
  pushOpcode script o := script ++ (ScriptItem.opcode o).encode
  parseAddress s := SampleAddress.all.find? fun a => a.text = s.asBytes
  displayAddress := SampleAddress.display
  isValidForNetwork _ network := network = .testnet
  scriptPubkey := SampleAddress.script
  isP2wpkh script := script.length = 22 && script.take 2 = [0x00, 0x14]

def txidFrom (table : List (Txid × Transaction)) (tx : Transaction) : Txid :=
  ((table.find? fun e => e.2 = tx).map Prod.fst).getD (.replicate 32 0)

def transactionFrom (table : List (Txid × Transaction)) (txid : Txid) : Option Transaction :=
  (table.find? fun e => e.1 = txid).map Prod.snd

def sampleDaIdentifier : Utf8 := ⟨ascii "celestia", by decide +kernel⟩

def sampleBlobId : Utf8 := ⟨ascii "blob", by decide +kernel⟩

def sampleProofId : Utf8 := ⟨ascii "proof", by decide +kernel⟩

section Sample

variable (ntxid txid : Transaction → Txid)

theorem sampleBitcoin_foldl_pushItem (items : List ScriptItem) (script : Bytes) :
    items.foldl (sampleBitcoin ntxid txid).pushItem script = script ++ encodeItems items := by
  induction items generalizing script with
  | nil => simp [encodeItems]
  | cons item items ih =>
    have hone : (sampleBitcoin ntxid txid).pushItem script item = script ++ item.encode := by
      cases item <;> rfl
    rw [List.foldl_cons, ih, hone]
    simp [encodeItems]

theorem sampleBitcoin_scriptLaws : (sampleBitcoin ntxid txid).ScriptLaws where
  instructions_build items h := by
    rw [sampleBitcoin_foldl_pushItem]
    exact instructions_encodeItems h

theorem sampleBitcoin_addressLaws : (sampleBitcoin ntxid txid).AddressLaws where
  parse_display a := a.find_text
  display_short a := by
    show a.text.length < 2 ^ 32
    rw [a.text_length]
    norm_num

end Sample
