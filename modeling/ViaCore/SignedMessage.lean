/-
What the signature of a user binds.

The message is rebuilt from the decoded fields, so two byte strings can have the same one, and then
one signature fits both.  If the hash has no collision among the strings that are hashed for the
two, the message determines every field of the transaction but one: a priority fee of an EIP-1559
transaction that cannot be decoded is encoded like a priority fee of zero, but it is executed with
the gas price.

* `signedMessage_binds_iff` — for which pairs of byte strings the transactions agree.
-/
import ViaCore.TransactionTotality

/-! ### Words -/

theorem FixedBytes.flatMap_bytes_inj {n : ℕ} (hn : 0 < n) {as bs : List (FixedBytes n)}
    (h : as.flatMap FixedBytes.bytes = bs.flatMap FixedBytes.bytes) : as = bs := by
  have hne : ∀ (a : FixedBytes n) (rest : Bytes), a.bytes ++ rest ≠ [] := by
    intro a rest hnil
    have hsize := a.size
    rw [(List.append_eq_nil_iff.1 hnil).1, List.length_nil] at hsize
    omega
  induction as generalizing bs with
  | nil =>
    cases bs with
    | nil => rfl
    | cons b bs => exact absurd h.symm (hne b _)
  | cons a as ih =>
    cases bs with
    | nil => exact absurd h (hne a _)
    | cons b bs =>
      rw [List.flatMap_cons, List.flatMap_cons] at h
      obtain ⟨hword, hrest⟩ := List.append_inj h (a.size.trans b.size.symm)
      rw [eq_of_bytes hword, ih hrest]

namespace Web3

open FixedBytes (eq_of_bytes replicate)

open Outcome (bind_eq_ok)


open TransactionRequest (fromBytes getNonceChecked)

theorem u256ToH256_inj {x y : U256} : u256ToH256 x = u256ToH256 y ↔ x = y := by
  rw [u256ToH256, u256ToH256, FixedBytes.ofNat_inj x.isLt y.isLt, BitVec.toNat_inj]

theorem addressU256_inj {a b : EVMAddress} : addressU256 a = addressU256 b ↔ a = b := by
  refine ⟨fun h => ?_, fun h => h ▸ rfl⟩
  have hlt : ∀ a : EVMAddress, fromBe a.bytes < 2 ^ 256 := fun a =>
    lt_of_lt_of_le (fromBe_lt a.bytes) (by rw [a.size]; decide)
  have hnat := congrArg BitVec.toNat h
  rw [addressU256, addressU256, BitVec.toNat_ofNat, BitVec.toNat_ofNat, Nat.mod_eq_of_lt (hlt a),
    Nat.mod_eq_of_lt (hlt b)] at hnat
  refine eq_of_bytes ?_
  rw [← toBe_fromBe a.bytes, ← toBe_fromBe b.bytes, hnat, a.size, b.size]

theorem uintItem_inj {x y : U256} : uintItem x = uintItem y ↔ x = y := by
  rw [uintItem, uintItem, minimalBe_inj, BitVec.toNat_inj]

theorem length_uintItem_le (x : U256) : (uintItem x).length ≤ 32 := by
  rw [uintItem, length_minimalBe, byteLength_le_iff]
  exact x.isLt

theorem optItem_uintItem (x : Option U256) : optItem uintItem x = uintItem (x.getD 0) := by
  cases x <;> rfl

theorem optItem_bytes_inj {a b : Option EVMAddress}
    (h : optItem FixedBytes.bytes a = optItem FixedBytes.bytes b) : a = b := by
  have hne : ∀ a : EVMAddress, a.bytes ≠ [] := by
    intro a hnil
    have hsize := a.size
    rw [hnil] at hsize
    exact absurd hsize (by decide)
  match a, b with
  | none, none => rfl
  | none, some b => exact absurd h.symm (hne b)
  | some a, none => exact absurd h (hne a)
  | some a, some b => exact congrArg some (eq_of_bytes h)

theorem length_optItem_bytes_le (a : Option EVMAddress) :
    (optItem FixedBytes.bytes a).length ≤ 20 := by
  cases a with
  | none => exact Nat.zero_le _
  | some a => exact a.size.le

theorem length_minimalBe_u64_le (n : UInt64) : (minimalBe n.toNat).length ≤ 8 := by
  rw [length_minimalBe, byteLength_le_iff]
  exact n.toNat_lt

namespace TransactionRequest

variable {R : RlpReader} {C : Crypto} {overflowChecks : Bool} {a b tx : TransactionRequest}

/-! ### Sizes of what is signed -/

theorem items_small (hW : C.toWriter.Lawful) {before after : List Bytes} {input : Bytes}
    (hinput : input.length < 2 ^ 63) (hbefore : ∀ x ∈ before, x.length ≤ 32)
    (hafter : ∀ x ∈ after, x.length ≤ 32) (hcount : before.length + after.length ≤ 8) :
    (∀ x ∈ before ++ input :: after, x.length < 2 ^ 64) ∧
      (C.encodeItems (before ++ input :: after)).length < 2 ^ 64 - 1 := by
  have hall : ∀ x ∈ before ++ input :: after, x.length < 2 ^ 64 := by
    intro x hx
    rcases List.mem_append.1 hx with hx | hx
    · have := hbefore x hx
      omega
    · rcases List.mem_cons.1 hx with rfl | hx
      · omega
      · have := hafter x hx
        omega
  have hsum : ∀ items : List Bytes, (∀ x ∈ items, x.length ≤ 32) →
      (items.map List.length).sum ≤ items.length * 32 := by
    intro items hitems
    have := List.sum_le_card_nsmul (items.map List.length) 32 (by simpa using hitems)
    simpa using this
  -- eight short items add little to the input
  refine ⟨hall, ?_⟩
  have hsumBefore := hsum before hbefore
  have hsumAfter := hsum after hafter
  have hle := hW.length_encodeItems_le hall
  rw [List.map_append, List.sum_append, List.length_append, List.map_cons, List.sum_cons,
    List.length_cons] at hle
  omega

theorem legacyItems_small (hW : C.toWriter.Lawful) (hinput : tx.input.length < 2 ^ 63) :
    (∀ x ∈ tx.legacyItems, x.length < 2 ^ 64) ∧
      (C.encodeItems tx.legacyItems).length < 2 ^ 64 - 1 := by
  have hsignature : (∀ x ∈ tx.rlpSignature none, x.length ≤ 32) ∧
      (tx.rlpSignature none).length ≤ 3 := by
    rw [rlpSignature]
    split
    · refine ⟨fun x hx => ?_, le_rfl⟩
      rcases List.mem_cons.1 hx with rfl | hx
      · exact (length_minimalBe_u64_le _).trans (by decide)
      · simp only [List.mem_cons, List.not_mem_nil, or_false, or_self] at hx
        rw [hx]
        exact Nat.zero_le _
    · exact ⟨by rintro _ ⟨⟩, Nat.zero_le _⟩
  have hbefore : ∀ x ∈ [uintItem tx.nonce, uintItem tx.gasPrice, uintItem tx.gas,
      optItem FixedBytes.bytes tx.toAddress, uintItem tx.value], x.length ≤ 32 := by
    have haddress := (length_optItem_bytes_le tx.toAddress).trans (by decide : 20 ≤ 32)
    simpa using ⟨length_uintItem_le tx.nonce, length_uintItem_le tx.gasPrice,
      length_uintItem_le tx.gas, haddress, length_uintItem_le tx.value⟩
  exact items_small hW hinput hbefore hsignature.1 (Nat.add_le_add_left hsignature.2 5)

theorem eip1559Items_small (hW : C.toWriter.Lawful) (hinput : tx.input.length < 2 ^ 63)
    (chainId : UInt64) :
    (∀ x ∈ tx.eip1559Items chainId, x.length < 2 ^ 64) ∧
      (C.encodeItems (tx.eip1559Items chainId)).length < 2 ^ 64 - 1 := by
  have hbefore : ∀ x ∈ [minimalBe chainId.toNat, uintItem tx.nonce,
      optItem uintItem tx.maxPriorityFeePerGas, uintItem tx.gasPrice, uintItem tx.gas,
      optItem FixedBytes.bytes tx.toAddress, uintItem tx.value], x.length ≤ 32 := by
    have haddress := (length_optItem_bytes_le tx.toAddress).trans (by decide : 20 ≤ 32)
    have hchain := (length_minimalBe_u64_le chainId).trans (by decide : 8 ≤ 32)
    rw [optItem_uintItem]
    simpa using ⟨by simpa using hchain, length_uintItem_le tx.nonce,
      length_uintItem_le (tx.maxPriorityFeePerGas.getD 0), length_uintItem_le tx.gasPrice,
      length_uintItem_le tx.gas, haddress, length_uintItem_le tx.value⟩
  have hafter : ∀ x ∈ ([] : List Bytes), x.length ≤ 32 := nofun
  exact items_small hW hinput hbefore hafter (Nat.le_succ 7)

def structString (C : Crypto) (members : List EncodedMember) : Bytes :=
  (C.keccak256 (encodeType "Transaction" members)).bytes ++ encodeData members

def typedString (C : Crypto) (chainId : L2ChainId) (members : List EncodedMember) : Bytes :=
  [0x19, 0x01] ++ (hashStruct C "EIP712Domain" (eip712Domain C chainId)).bytes ++
    (hashStruct C "Transaction" members).bytes

def hashedStrings (C : Crypto) (tx : TransactionRequest) : List Bytes :=
  if tx.isEip712Tx then
    match tx.buildStructure C, tx.chainId.bind L2ChainId.tryFrom,
      tx.getFactoryDeps.mapM (hashBytecode (ε := SerializationTransactionError) C) with
    | .ok members, some chainId, .ok hashes =>
      [typedString C chainId members, structString C members, tx.input,
        hashes.flatMap FixedBytes.bytes, tx.getPaymasterInput.getD []]
    | _, _, _ => []
  else
    match tx.getRlp C with
    | .ok data => [tx.withType data]
    | _ => []

theorem hashedStrings_of_getRlp (h : tx.transactionType ≠ some eip712TxType) {data : Bytes}
    (hdata : tx.getRlp C = .ok data) : tx.hashedStrings C = [tx.withType data] := by
  rw [hashedStrings, if_neg (by simp [isEip712Tx, h]), hdata]

/-! ### What a message determines -/

/-- The fields that two requests share; the priority fees are compared as they are executed, or as
they are encoded. -/
structure SameFields (C : Crypto) (a b : TransactionRequest) : Prop where
  transactionType : a.transactionType = b.transactionType
  nonce : a.nonce = b.nonce
  toAddress : ∀ x y, a.toAddress = some x → b.toAddress = some y → x = y
  value : a.value = b.value
  input : a.input = b.input
  gas : a.gas = b.gas
  gasPrice : a.gasPrice = b.gasPrice
  gasPerPubdata : a.eip712Meta.map Eip712Meta.gasPerPubdata =
    b.eip712Meta.map Eip712Meta.gasPerPubdata
  factoryDeps : a.getFactoryDeps.mapM (hashBytecode (ε := SerializationTransactionError) C) =
    b.getFactoryDeps.mapM (hashBytecode C)
  paymasterParams : (a.eip712Meta.bind Eip712Meta.paymasterParams).getD default =
    (b.eip712Meta.bind Eip712Meta.paymasterParams).getD default
  priority : a.maxPriorityFeePerGas.getD a.gasPrice = b.maxPriorityFeePerGas.getD b.gasPrice ∨
    a.transactionType = some eip1559TxType ∧
      a.maxPriorityFeePerGas.getD 0 = b.maxPriorityFeePerGas.getD 0

/-- A request as it comes from bytes: of one of three types, of bounded size, with valid
contracts. -/
structure Sent (tx : TransactionRequest) : Prop where
  kind : (tx.transactionType = none ∧ tx.eip712Meta = none ∧ tx.maxPriorityFeePerGas = none) ∨
    (tx.transactionType = some eip1559TxType ∧ tx.eip712Meta = none ∧ ∃ id, tx.chainId = some id) ∨
    tx.IsEip712
  input : tx.input.length < 2 ^ 63
  factoryDeps : ∀ dep ∈ tx.getFactoryDeps, validateBytecode dep = .ok ()

/-- The string that is hashed last, for each type of request. -/
inductive Signs (C : Crypto) (tx : TransactionRequest) : Bytes → Prop where
  | legacy (htype : tx.transactionType = none) (hmeta : tx.eip712Meta = none)
      (hpriority : tx.maxPriorityFeePerGas = none) :
      Signs C tx (C.encodeList (C.encodeItems tx.legacyItems))
  | eip1559 (htype : tx.transactionType = some eip1559TxType) (hmeta : tx.eip712Meta = none)
      (id : UInt64) :
      Signs C tx (0x02 :: C.encodeList (C.encodeItems (tx.eip1559Items id) ++ C.encodeList []))
  | eip712 (htype : tx.transactionType = some eip712TxType) (chainId : L2ChainId)
      (params : Eip712Meta) (hparams : tx.eip712Meta = some params) (fromAddress : EVMAddress)
      (hashes : List H256)
      (hhashes : tx.getFactoryDeps.mapM (hashBytecode (ε := SerializationTransactionError) C) =
        .ok hashes)
      (hhashed : tx.hashedStrings C =
        [typedString C chainId (tx.members C params fromAddress hashes),
          structString C (tx.members C params fromAddress hashes), tx.input,
          hashes.flatMap FixedBytes.bytes, tx.getPaymasterInput.getD []]) :
      Signs C tx (typedString C chainId (tx.members C params fromAddress hashes))

theorem Sent.signs (hC : C.HashesContracts) (h : tx.Sent) {message : H256}
    (hmessage : tx.getDefaultSignedMessage C = .ok message) :
    ∃ x, Signs C tx x ∧ x ∈ tx.hashedStrings C ∧ message = C.keccak256 x := by
  rcases h.kind with ⟨htype, hmeta, hpriority⟩ | ⟨htype, hmeta, id, hid⟩ | h712
  · have hrlp := getRlp_legacy (C := C) htype
    have hstrings := hashedStrings_of_getRlp (legacy_ne_eip712 htype) hrlp
    rw [getDefaultSignedMessage_of_getRlp (legacy_ne_eip712 htype) hrlp] at hmessage
    have hstring : tx.withType (C.encodeList (C.encodeItems tx.legacyItems)) =
        C.encodeList (C.encodeItems tx.legacyItems) := by
      rw [withType, htype]
      rfl
    rw [hstring] at hstrings hmessage
    exact ⟨_, .legacy htype hmeta hpriority, hstrings ▸ List.mem_singleton_self _,
      (Outcome.ok.inj hmessage).symm⟩
  · have hrlp := getRlp_eip1559 (C := C) htype hid
    have hstrings := hashedStrings_of_getRlp (eip1559_ne_eip712 htype) hrlp
    rw [getDefaultSignedMessage_of_getRlp (eip1559_ne_eip712 htype) hrlp] at hmessage
    have hstring : tx.withType
          (C.encodeList (C.encodeItems (tx.eip1559Items id) ++ C.encodeList [])) =
        0x02 :: C.encodeList (C.encodeItems (tx.eip1559Items id) ++ C.encodeList []) := by
      rw [withType, htype]
      rfl
    rw [hstring] at hstrings hmessage
    exact ⟨_, .eip1559 htype hmeta id, hstrings ▸ List.mem_singleton_self _,
      (Outcome.ok.inj hmessage).symm⟩
  -- a typed structure: the strings of its members are hashed as well
  · obtain ⟨id, hid⟩ := h712.chainId
    obtain ⟨params, fromAddress, hashes, hparams, hfrom, hhashes, hmembers⟩ :=
      buildStructure_of_eip712 hC h712 h.factoryDeps
    rw [getDefaultSignedMessage_eip712 h712.transactionType hid hmembers] at hmessage
    obtain ⟨chainId, hchain, hmessage⟩ := bind_eq_ok.1 hmessage
    have hstrings : tx.hashedStrings C =
        [typedString C chainId (tx.members C params fromAddress hashes),
          structString C (tx.members C params fromAddress hashes), tx.input,
          hashes.flatMap FixedBytes.bytes, tx.getPaymasterInput.getD []] := by
      rw [hashedStrings, if_pos (by simp [isEip712Tx, h712.transactionType]), hmembers, hid,
        hhashes, Option.bind_some, Outcome.unwrap_eq_ok.1 hchain]
    exact ⟨_, .eip712 h712.transactionType chainId params hparams fromAddress hashes
      hhashes hstrings, hstrings ▸ List.mem_cons_self, (Outcome.ok.inj hmessage).symm⟩

theorem SameFields.untyped (htype : a.transactionType = b.transactionType)
    (ha : a.eip712Meta = none) (hb : b.eip712Meta = none) (hnonce : a.nonce = b.nonce)
    (hto : a.toAddress = b.toAddress) (hvalue : a.value = b.value) (hinput : a.input = b.input)
    (hgas : a.gas = b.gas) (hprice : a.gasPrice = b.gasPrice)
    (hpriority : a.maxPriorityFeePerGas.getD a.gasPrice = b.maxPriorityFeePerGas.getD b.gasPrice ∨
      a.transactionType = some eip1559TxType ∧
        a.maxPriorityFeePerGas.getD 0 = b.maxPriorityFeePerGas.getD 0) : SameFields C a b where
  transactionType := htype
  nonce := hnonce
  toAddress := fun x y hx hy => Option.some.inj (hx.symm.trans (hto.trans hy))
  value := hvalue
  input := hinput
  gas := hgas
  gasPrice := hprice
  gasPerPubdata := by rw [ha, hb]
  factoryDeps := by rw [getFactoryDeps, getFactoryDeps, ha, hb]
  paymasterParams := by rw [ha, hb]
  priority := hpriority

theorem SameFields.of_legacy (hW : C.toWriter.Lawful) (ha : a.input.length < 2 ^ 63)
    (hb : b.input.length < 2 ^ 63) (htype : a.transactionType = b.transactionType)
    (hmetaA : a.eip712Meta = none) (hmetaB : b.eip712Meta = none)
    (hpriorityA : a.maxPriorityFeePerGas = none) (hpriorityB : b.maxPriorityFeePerGas = none)
    (h : C.encodeList (C.encodeItems a.legacyItems) =
      C.encodeList (C.encodeItems b.legacyItems)) : SameFields C a b := by
  obtain ⟨hsmallA, hlenA⟩ := legacyItems_small hW ha
  obtain ⟨hsmallB, hlenB⟩ := legacyItems_small hW hb
  have hpayload := hW.encodeList_inj (by omega) (by omega) h
  have hitems := hW.encodeItems_inj hsmallA hsmallB hpayload
  obtain ⟨hfields, -⟩ := List.append_inj hitems rfl
  simp only [List.cons.injEq, uintItem_inj, and_true] at hfields
  obtain ⟨hnonce, hprice, hgas, hto, hvalue, hinput⟩ := hfields
  refine .untyped htype hmetaA hmetaB hnonce (optItem_bytes_inj hto) hvalue hinput hgas
    hprice (.inl ?_)
  rw [hpriorityA, hpriorityB]
  exact hprice

theorem SameFields.of_eip1559 (hW : C.toWriter.Lawful) (ha : a.input.length < 2 ^ 63)
    (hb : b.input.length < 2 ^ 63) (htypeA : a.transactionType = some eip1559TxType)
    (htypeB : b.transactionType = some eip1559TxType) (hmetaA : a.eip712Meta = none)
    (hmetaB : b.eip712Meta = none) {idA idB : UInt64}
    (h : C.encodeList (C.encodeItems (a.eip1559Items idA) ++ C.encodeList []) =
      C.encodeList (C.encodeItems (b.eip1559Items idB) ++ C.encodeList [])) : SameFields C a b := by
  obtain ⟨hsmallA, hlenA⟩ := eip1559Items_small hW ha idA
  obtain ⟨hsmallB, hlenB⟩ := eip1559Items_small hW hb idB
  have hempty := hW.length_encodeList_nil
  have hpayload := hW.encodeList_inj (by rw [List.length_append]; omega)
    (by rw [List.length_append]; omega) h
  have hitems := hW.encodeItems_inj hsmallA hsmallB (List.append_cancel_right hpayload)
  simp only [eip1559Items, List.cons.injEq, uintItem_inj, optItem_uintItem, and_true] at hitems
  obtain ⟨-, hnonce, hpriority, hprice, hgas, hto, hvalue, hinput⟩ := hitems
  exact .untyped (htypeA.trans htypeB.symm) hmetaA hmetaB hnonce (optItem_bytes_inj hto) hvalue
    hinput hgas hprice (.inr ⟨htypeA, hpriority⟩)

variable {paramsA paramsB : Eip712Meta} {hashesA hashesB : List H256} {fromA fromB : EVMAddress}

theorem members_data_inj
    (h : encodeData (a.members C paramsA fromA hashesA) =
      encodeData (b.members C paramsB fromB hashesB)) :
    (a.toAddress.getD (replicate 20 0) = b.toAddress.getD (replicate 20 0) ∧
      a.gas = b.gas ∧ paramsA.gasPerPubdata = paramsB.gasPerPubdata ∧ a.gasPrice = b.gasPrice ∧
      a.maxPriorityFeePerGas.getD a.gasPrice = b.maxPriorityFeePerGas.getD b.gasPrice ∧
      a.getPaymaster.getD (replicate 20 0) =
        b.getPaymaster.getD (replicate 20 0) ∧
      a.nonce = b.nonce ∧ a.value = b.value) ∧
    C.keccak256 a.input = C.keccak256 b.input ∧
    C.keccak256 (hashesA.flatMap FixedBytes.bytes) = C.keccak256
      (hashesB.flatMap FixedBytes.bytes) ∧
    C.keccak256 (a.getPaymasterInput.getD []) = C.keccak256 (b.getPaymasterInput.getD []) := by
  have hwords : (a.members C paramsA fromA hashesA).map EncodedMember.data =
      (b.members C paramsB fromB hashesB).map EncodedMember.data := by
    refine FixedBytes.flatMap_bytes_inj (by decide) ?_
    exact h
  simp only [members, List.map_cons, List.map_nil, EncodedMember.uint, EncodedMember.bytes,
    EncodedMember.hashes, List.cons.injEq, u256ToH256_inj, addressU256_inj, and_true] at hwords
  obtain ⟨-, -, hto, hgas, hpubdata, hprice, hpriority, hpaymaster, hnonce, hvalue, hinput, hdeps,
    hpaymasterInput⟩ := hwords
  exact ⟨⟨hto, hgas, hpubdata, hprice, hpriority, hpaymaster, hnonce, hvalue⟩, hinput, hdeps,
    hpaymasterInput⟩

theorem paymasterParams_eq (tx : TransactionRequest) :
    (tx.eip712Meta.bind Eip712Meta.paymasterParams).getD default =
      ⟨tx.getPaymaster.getD (replicate 20 0), tx.getPaymasterInput.getD []⟩ := by
  rw [getPaymaster, getPaymasterInput]
  cases tx.eip712Meta.bind Eip712Meta.paymasterParams <;> rfl

theorem eq_of_keccak256 {strings strings' : List Bytes}
    (hfree : Set.InjOn C.keccak256 {x | x ∈ strings ++ strings'}) {x y : Bytes} (hx : x ∈ strings)
    (hy : y ∈ strings') (h : C.keccak256 x = C.keccak256 y) : x = y :=
  hfree (List.mem_append_left _ hx) (List.mem_append_right _ hy) h

theorem SameFields.of_eip712 (htype : a.transactionType = b.transactionType)
    {chainA chainB : L2ChainId}
    (hparamsA : a.eip712Meta = some paramsA) (hparamsB : b.eip712Meta = some paramsB)
    (hhashesA : a.getFactoryDeps.mapM (hashBytecode (ε := SerializationTransactionError) C) =
      .ok hashesA)
    (hhashesB : b.getFactoryDeps.mapM (hashBytecode (ε := SerializationTransactionError) C) =
      .ok hashesB)
    (hfree : Set.InjOn C.keccak256 {x | x ∈
      [typedString C chainA (a.members C paramsA fromA hashesA),
        structString C (a.members C paramsA fromA hashesA), a.input,
        hashesA.flatMap FixedBytes.bytes, a.getPaymasterInput.getD []] ++
      [typedString C chainB (b.members C paramsB fromB hashesB),
        structString C (b.members C paramsB fromB hashesB), b.input,
        hashesB.flatMap FixedBytes.bytes, b.getPaymasterInput.getD []]})
    (h : typedString C chainA (a.members C paramsA fromA hashesA) =
      typedString C chainB (b.members C paramsB fromB hashesB)) : SameFields C a b := by
  have hlen : ([0x19, 0x01] ++ (hashStruct C "EIP712Domain" (eip712Domain C chainA)).bytes).length =
      ([0x19, 0x01] ++ (hashStruct C "EIP712Domain" (eip712Domain C chainB)).bytes).length := by
    rw [List.length_append, List.length_append, FixedBytes.size, FixedBytes.size]
  -- the hashes are taken off from the outside in
  have hstruct := eq_of_bytes (List.append_inj h hlen).2
  have hstring : structString C (a.members C paramsA fromA hashesA) =
      structString C (b.members C paramsB fromB hashesB) :=
    eq_of_keccak256 hfree (by simp) (by simp) hstruct
  have hdata := (List.append_inj hstring ((FixedBytes.size _).trans (FixedBytes.size _).symm)).2
  obtain ⟨⟨hto, hgas, hpubdata, hprice, hpriority, hpaymaster, hnonce, hvalue⟩, hinput, hdeps,
    hpaymasterInput⟩ := members_data_inj hdata
  have hinput := eq_of_keccak256 hfree (by simp) (by simp) hinput
  have hdeps := eq_of_keccak256 hfree (by simp) (by simp) hdeps
  have hpaymasterInput := eq_of_keccak256 hfree (by simp) (by simp) hpaymasterInput
  refine ⟨htype, hnonce, fun x y hx hy => ?_, hvalue, hinput, hgas, hprice, ?_, ?_, ?_,
    .inl hpriority⟩
  · rw [hx, hy] at hto
    exact hto
  · rw [hparamsA, hparamsB, Option.map_some, Option.map_some, hpubdata]
  · rw [hhashesA, hhashesB, FixedBytes.flatMap_bytes_inj (by decide) hdeps]
  · rw [paymasterParams_eq, paymasterParams_eq, hpaymaster, hpaymasterInput]

/-- **The message determines the fields**, if there is no collision among the strings that are
hashed. -/
theorem sameFields_of_message (hC : C.HashesContracts) (hW : C.toWriter.Lawful) (ha : a.Sent)
    (hb : b.Sent)
    (hfree : Set.InjOn C.keccak256 {x | x ∈ a.hashedStrings C ++ b.hashedStrings C})
    {message : H256} (hmessageA : a.getDefaultSignedMessage C = .ok message)
    (hmessageB : b.getDefaultSignedMessage C = .ok message) : SameFields C a b := by
  obtain ⟨x, hsignsA, hxA, hkeccakA⟩ := ha.signs hC hmessageA
  obtain ⟨y, hsignsB, hyB, hkeccakB⟩ := hb.signs hC hmessageB
  have hstring := eq_of_keccak256 hfree hxA hyB (hkeccakA.symm.trans hkeccakB)
  -- strings of different types begin differently
  have hlist : ∀ {tx : TransactionRequest}, tx.input.length < 2 ^ 63 → ∀ {l : UInt8} {rest : Bytes},
      C.encodeList (C.encodeItems tx.legacyItems) = l :: rest → 0xc0 ≤ l := by
    intro tx hinput l rest heq
    have hsmall : (C.encodeItems tx.legacyItems).length < 2 ^ 64 :=
      lt_of_lt_of_le (legacyItems_small hW hinput).2 (Nat.sub_le _ _)
    obtain ⟨l', rest', heq', hle⟩ := hW.encodeList_head hsmall
    rw [heq] at heq'
    exact (List.cons.inj heq').1 ▸ hle
  cases hsignsA with
  | legacy htypeA hmetaA hpriorityA =>
    cases hsignsB with
    | legacy htypeB hmetaB hpriorityB =>
      exact .of_legacy hW ha.input hb.input (htypeA.trans htypeB.symm) hmetaA hmetaB
        hpriorityA hpriorityB
        hstring
    | eip1559 htypeB hmetaB id | eip712 htypeB => exact absurd (hlist ha.input hstring) (by decide)
  | eip1559 htypeA hmetaA idA =>
    cases hsignsB with
    | legacy htypeB hmetaB hpriorityB => exact absurd (hlist hb.input hstring.symm) (by decide)
    | eip1559 htypeB hmetaB idB =>
      exact .of_eip1559 hW ha.input hb.input htypeA htypeB hmetaA hmetaB (List.cons.inj hstring).2
    | eip712 htypeB => exact absurd (List.cons.inj hstring).1 (by decide)
  | eip712 htypeA chainA paramsA hparamsA fromA hashesA hhashesA hhashedA =>
    cases hsignsB with
    | legacy htypeB hmetaB hpriorityB => exact absurd (hlist hb.input hstring.symm) (by decide)
    | eip1559 htypeB hmetaB id => exact absurd (List.cons.inj hstring).1 (by decide)
    | eip712 htypeB chainB paramsB hparamsB fromB hashesB hhashesB hhashedB =>
      rw [hhashedA, hhashedB] at hfree
      exact .of_eip712 (htypeA.trans htypeB.symm) hparamsA hparamsB hhashesA hhashesB hfree hstring

/-! ### Requests that come from bytes -/

variable {bytes : Bytes} {chainId : L2ChainId} {request : TransactionRequest} {hash : H256}

theorem Sent.of_fromBytes (hR : R.Within) (hlen : bytes.length < 2 ^ 63)
    (h : fromBytes R C overflowChecks bytes chainId = .ok (request, hash)) : request.Sent := by
  obtain ⟨tx, -, fromAddress, hdecode, -, rfl, hknown, -⟩ := fromBytes_eq h
  obtain ⟨hdec, hdeps, -⟩ := (decodeValidated_spec _).2 _ hdecode
  refine ⟨?_, lt_of_le_of_lt (hdec.input hR) hlen, hdeps⟩
  rcases hdec.kind with hkind | hkind | hkind
  · exact .inl ⟨hkind.transactionType, hkind.eip712Meta, hkind.maxPriorityFeePerGas⟩
  · exact .inr (.inl ⟨hkind.transactionType, hkind.eip712Meta, hkind.chainId⟩)
  · obtain ⟨known, hfrom⟩ := hkind.fromAddress
    exact .inr (.inr ⟨hkind.transactionType, hkind.eip712Meta, ⟨known, hknown known hfrom⟩,
      hkind.chainId⟩)

theorem getDefaultSignedMessage_of_fromBytes
    (h : fromBytes R C overflowChecks bytes chainId = .ok (request, hash)) :
    ∃ message, request.getDefaultSignedMessage C = .ok message := by
  obtain ⟨tx, message, fromAddress, hdecode, hmessage, rfl, hknown, -⟩ := fromBytes_eq h
  obtain ⟨hdec, -, -⟩ := (decodeValidated_spec _).2 _ hdecode
  rcases hdec.kind with hkind | hkind | hkind
  · have htype : ({ tx with fromAddress } : TransactionRequest).transactionType = none :=
      hkind.transactionType
    exact ⟨_, getDefaultSignedMessage_of_getRlp (legacy_ne_eip712 htype) (getRlp_legacy htype)⟩
  · have htype : ({ tx with fromAddress } : TransactionRequest).transactionType =
        some eip1559TxType := hkind.transactionType
    obtain ⟨id, hid⟩ := hkind.chainId
    exact ⟨_, getDefaultSignedMessage_of_getRlp (eip1559_ne_eip712 htype)
      (getRlp_eip1559 htype hid)⟩
  · obtain ⟨known, hfrom⟩ := hkind.fromAddress
    obtain rfl : fromAddress = tx.fromAddress := (hknown known hfrom).trans hfrom.symm
    exact ⟨message, hmessage⟩

theorem eip1559_of_fromBytes
    (h : fromBytes R C overflowChecks bytes chainId = .ok (request, hash)) :
    (bytes.head? = some 0x02 ↔ request.transactionType = some eip1559TxType) ∧
      (bytes.head? = some 0x02 →
        request.maxPriorityFeePerGas = (R.u256At bytes.tail 2).toOption ∧
          R.u256At bytes.tail 3 = .ok request.gasPrice) := by
  obtain ⟨tx, -, fromAddress, hdecode, -, rfl, -⟩ := fromBytes_eq h
  obtain ⟨decoded, hdecoded, hdecode⟩ := bind_eq_ok.1 hdecode
  obtain ⟨_, -, hdecode⟩ := bind_eq_ok.1 hdecode
  cases hdecode
  have hfields := decode_eip1559 hdecoded
  exact hfields

theorem getFeeDataChecked_eq_ok {fee : Fee} (h : tx.getFeeDataChecked = .ok fee) :
    fee.gasLimit = tx.gas ∧ fee.maxFeePerGas = tx.gasPrice ∧
      fee.maxPriorityFeePerGas = tx.maxPriorityFeePerGas.getD tx.gasPrice ∧
      fee.gasPerPubdataLimit =
        (tx.eip712Meta.map Eip712Meta.gasPerPubdata).getD defaultL2TxGasPerPubdataByte := by
  rw [getFeeDataChecked] at h
  split_ifs at h with hprice
  obtain ⟨limit, hlimit, h⟩ := bind_eq_ok.1 h
  by_cases hpriority : u64Max < tx.maxPriorityFeePerGas.getD tx.gasPrice
  · rw [if_pos hpriority] at h
    cases h
  rw [if_neg hpriority] at h
  cases h
  refine ⟨rfl, rfl, rfl, ?_⟩
  rw [gasPerPubdataLimit] at hlimit
  cases hmeta : tx.eip712Meta with
  | none =>
    rw [hmeta] at hlimit
    exact (Outcome.ok.inj hlimit).symm
  | some params =>
    rw [hmeta] at hlimit
    change (if u64Max < params.gasPerPubdata then _ else _ : Result U256) = _ at hlimit
    split_ifs at hlimit
    exact (Outcome.ok.inj hlimit).symm

end TransactionRequest

theorem L2Tx.fromRequest_eq {overflowChecks : Bool} {request : TransactionRequest} {maxTxSize : ℕ}
    {tx : L2Tx} (h : L2Tx.fromRequest overflowChecks request maxTxSize = .ok tx) :
    ∃ fee nonce signature contractAddress, request.getFeeDataChecked = .ok fee ∧
      request.getNonceChecked = .ok nonce ∧
      okOrNone (request.getSignature overflowChecks) =
        (.ok signature : Result (Option Bytes)) ∧
      request.toAddress = some contractAddress ∧
      tx = L2Tx.ofRequest request fee nonce (signature.getD []) contractAddress := by
  obtain ⟨unverified, hunverified, h⟩ := bind_eq_ok.1 h
  obtain ⟨_, -, h⟩ := bind_eq_ok.1 h
  cases h
  obtain ⟨fee, hfee, hunverified⟩ := bind_eq_ok.1 hunverified
  obtain ⟨nonce, hnonce, hunverified⟩ := bind_eq_ok.1 hunverified
  obtain ⟨signature, hsignature, hunverified⟩ := bind_eq_ok.1 hunverified
  obtain ⟨_, -, hunverified⟩ := bind_eq_ok.1 hunverified
  obtain ⟨contractAddress, hto, hunverified⟩ := bind_eq_ok.1 hunverified
  exact ⟨fee, nonce, signature, contractAddress, hfee, hnonce, hsignature, okOr_eq_ok.1 hto,
    (Outcome.ok.inj hunverified).symm⟩

/-! ### Transactions that agree -/

/-- Two transactions that do the same for the same price. -/
structure L2Tx.Agree (C : Crypto) (a b : L2Tx) : Prop where
  transactionType : a.commonData.transactionType = b.commonData.transactionType
  nonce : a.commonData.nonce = b.commonData.nonce
  recipient : a.execute.contractAddress = b.execute.contractAddress
  value : a.execute.value = b.execute.value
  calldata : a.execute.calldata = b.execute.calldata
  gasLimit : a.commonData.fee.gasLimit = b.commonData.fee.gasLimit
  maxFeePerGas : a.commonData.fee.maxFeePerGas = b.commonData.fee.maxFeePerGas
  maxPriorityFeePerGas :
    a.commonData.fee.maxPriorityFeePerGas = b.commonData.fee.maxPriorityFeePerGas
  gasPerPubdataLimit : a.commonData.fee.gasPerPubdataLimit = b.commonData.fee.gasPerPubdataLimit
  factoryDeps : a.execute.factoryDeps.mapM (hashBytecode (ε := SerializationTransactionError) C) =
    b.execute.factoryDeps.mapM (hashBytecode C)
  paymasterParams : a.commonData.paymasterParams = b.commonData.paymasterParams

/-- The bytes of an EIP-1559 transaction whose item for the priority fee decodes to this. -/
def PriorityItem (R : RlpReader) (bytes : Bytes) (priority : Option U256) : Prop :=
  bytes.head? = some 0x02 ∧ (R.u256At bytes.tail 2).toOption = priority

/-- Of two EIP-1559 transactions with a gas price, one has an item for the priority fee that cannot
be decoded, and the other one has zero there. -/
def PriorityClash (R : RlpReader) (a b : Bytes) : Prop :=
  (PriorityItem R a none ∧ PriorityItem R b (some 0) ∨
    PriorityItem R a (some 0) ∧ PriorityItem R b none) ∧
  (R.u256At a.tail 3).toOption ≠ some 0

/-- Priority fees that are encoded alike are executed alike, unless one is missing and the other one
is zero. -/
theorem priority_eq_iff {p q : Option U256} {price : U256} (h : p.getD 0 = q.getD 0) :
    p.getD price = q.getD price ↔
      ¬ ((p = none ∧ q = some 0 ∨ p = some 0 ∧ q = none) ∧ price ≠ 0) := by
  match p, q with
  | none, none => simp
  | some x, some y => simpa using h
  | none, some y =>
    obtain rfl : 0 = y := h
    simp
  | some x, none =>
    obtain rfl : x = 0 := h
    simp only [Option.getD_some, Option.getD_none, reduceCtorEq, and_true, false_and, or_true,
      true_and, not_not]
    exact eq_comm

section Binding

variable {R : RlpReader} {C : Crypto} {overflowChecks : Bool} {chainId : L2ChainId} {maxTxSize : ℕ}
  {bytesA bytesB : Bytes} {requestA requestB : TransactionRequest} {hashA hashB : H256}
  {txA txB : L2Tx}

/-- **One signature fits two transactions that agree**, unless their priority fees clash. -/
theorem signedMessage_binds_iff (hR : R.Within) (hC : C.HashesContracts) (hW : C.toWriter.Lawful)
    (hlenA : bytesA.length < 2 ^ 63) (hlenB : bytesB.length < 2 ^ 63)
    (hbytesA : fromBytes R C overflowChecks bytesA chainId = .ok (requestA, hashA))
    (hbytesB : fromBytes R C overflowChecks bytesB chainId = .ok (requestB, hashB))
    (htxA : L2Tx.fromRequest overflowChecks requestA maxTxSize = .ok txA)
    (htxB : L2Tx.fromRequest overflowChecks requestB maxTxSize = .ok txB)
    (hfree : Set.InjOn C.keccak256
      {x | x ∈ requestA.hashedStrings C ++ requestB.hashedStrings C})
    (hmessage : requestA.getDefaultSignedMessage C = requestB.getDefaultSignedMessage C) :
    L2Tx.Agree C txA txB ↔ ¬ PriorityClash R bytesA bytesB := by
  obtain ⟨message, hmessageA⟩ := TransactionRequest.getDefaultSignedMessage_of_fromBytes hbytesA
  have hsame := TransactionRequest.sameFields_of_message hC hW (.of_fromBytes hR hlenA hbytesA)
    (.of_fromBytes hR hlenB hbytesB) hfree hmessageA (hmessage ▸ hmessageA)
  obtain ⟨feeA, nonceA, signatureA, toA, hfeeA, hnonceA, -, htoA, rfl⟩ := L2Tx.fromRequest_eq htxA
  obtain ⟨feeB, nonceB, signatureB, toB, hfeeB, hnonceB, -, htoB, rfl⟩ := L2Tx.fromRequest_eq htxB
  obtain ⟨hgasA, hpriceA, hpriorityA, hpubdataA⟩ := TransactionRequest.getFeeDataChecked_eq_ok hfeeA
  obtain ⟨hgasB, hpriceB, hpriorityB, hpubdataB⟩ := TransactionRequest.getFeeDataChecked_eq_ok hfeeB
  have hnonce : nonceA = nonceB := by
    rw [getNonceChecked, hsame.nonce, ← getNonceChecked] at hnonceA
    exact Outcome.ok.inj (hnonceA.symm.trans hnonceB)
  -- all fields but the priority fee agree in any case
  have hagree : L2Tx.Agree C (.ofRequest requestA feeA nonceA (signatureA.getD []) toA)
      (.ofRequest requestB feeB nonceB (signatureB.getD []) toB) ↔
        requestA.maxPriorityFeePerGas.getD requestA.gasPrice =
          requestB.maxPriorityFeePerGas.getD requestB.gasPrice := by
    rw [← hpriorityA, ← hpriorityB]
    refine ⟨fun h => h.maxPriorityFeePerGas, fun hpriority => ?_⟩
    exact
      { transactionType := congrArg TransactionType.ofRequest hsame.transactionType
        nonce := hnonce
        recipient := hsame.toAddress toA toB htoA htoB
        value := hsame.value
        calldata := hsame.input
        gasLimit := hgasA.trans (hsame.gas.trans hgasB.symm)
        maxFeePerGas := hpriceA.trans (hsame.gasPrice.trans hpriceB.symm)
        maxPriorityFeePerGas := hpriority
        gasPerPubdataLimit := by
          show feeA.gasPerPubdataLimit = feeB.gasPerPubdataLimit
          rw [hpubdataA, hpubdataB, hsame.gasPerPubdata]
        factoryDeps := hsame.factoryDeps
        paymasterParams := hsame.paymasterParams }
  obtain ⟨hheadA, hfieldsA⟩ := TransactionRequest.eip1559_of_fromBytes hbytesA
  obtain ⟨hheadB, hfieldsB⟩ := TransactionRequest.eip1559_of_fromBytes hbytesB
  -- in terms of the decoded requests
  have hclash : PriorityClash R bytesA bytesB ↔ requestA.transactionType = some eip1559TxType ∧
      (requestA.maxPriorityFeePerGas = none ∧ requestB.maxPriorityFeePerGas = some 0 ∨
        requestA.maxPriorityFeePerGas = some 0 ∧ requestB.maxPriorityFeePerGas = none) ∧
      requestA.gasPrice ≠ 0 := by
    by_cases htype : requestA.transactionType = some eip1559TxType
    · have hA := hheadA.2 htype
      have hB := hheadB.2 (hsame.transactionType ▸ htype)
      rw [PriorityClash, PriorityItem, PriorityItem, PriorityItem, PriorityItem, (hfieldsA hA).1,
        (hfieldsB hB).1, (hfieldsA hA).2]
      simp [hA, hB, htype, Except.toOption]
    · have hA : bytesA.head? ≠ some 0x02 := fun h => htype (hheadA.1 h)
      simp [PriorityClash, PriorityItem, hA, htype]
  rw [hagree, hclash]
  rcases hsame.priority with hpriority | ⟨htype, hpriority⟩
  · refine iff_of_true hpriority ?_
    rintro ⟨-, ⟨hA, hB⟩ | ⟨hA, hB⟩, hprice⟩
    · rw [hA, hB] at hpriority
      exact hprice hpriority
    · rw [hA, hB, ← hsame.gasPrice] at hpriority
      exact hprice hpriority.symm
  · rw [← hsame.gasPrice, priority_eq_iff hpriority, and_iff_right htype]

end Binding

/-! ### A priority fee that is not bound -/

theorem rlpCrate_within : rlpCrate.Within := fun _ _ _ h => Rlp.length_dataAt_le h

/-- An EIP-1559 transaction with a gas price of 100, and with these bytes for the priority fee. -/
def sampleEip1559 (priority : Bytes) (r : ℕ) : Bytes :=
  0x02 :: sampleCrypto.encodeList
    (sampleCrypto.encodeItems [minimalBe 270, minimalBe 1] ++ priority ++
      sampleCrypto.encodeItems
        [minimalBe 100, minimalBe 21000, List.replicate 20 5, minimalBe 7, []] ++
      sampleCrypto.encodeList [] ++
      sampleCrypto.encodeItems [minimalBe 1, minimalBe r, minimalBe 4])

def sampleSignedString : Bytes :=
  0x02 :: sampleCrypto.encodeList
    (sampleCrypto.encodeItems [minimalBe 270, minimalBe 1, [], minimalBe 100, minimalBe 21000,
      List.replicate 20 5, minimalBe 7, []] ++ sampleCrypto.encodeList [])

theorem sampleEip1559_parsed {priority : Bytes} {r : ℕ}
    (h : ((fromBytes rlpCrate sampleCrypto false (sampleEip1559 priority r)
      sampleChainId).toOption.map fun p => (p.1.hashedStrings sampleCrypto,
        p.1.getDefaultSignedMessage sampleCrypto,
        (L2Tx.fromRequest false p.1 1000000).toOption.isSome)) =
      some ([sampleSignedString], .ok (sampleCrypto.keccak256 sampleSignedString), true)) :
    ∃ request hash tx, fromBytes rlpCrate sampleCrypto false
        (sampleEip1559 priority r) sampleChainId = .ok (request, hash) ∧
      request.hashedStrings sampleCrypto = [sampleSignedString] ∧
      request.getDefaultSignedMessage sampleCrypto =
        .ok (sampleCrypto.keccak256 sampleSignedString) ∧
      L2Tx.fromRequest false request 1000000 = .ok tx := by
  obtain ⟨⟨request, hash⟩, hrequest, hvalues⟩ := Option.map_eq_some_iff.1 h
  simp only [Prod.mk.injEq] at hvalues
  obtain ⟨hstrings, hmessage, htx⟩ := hvalues
  obtain ⟨tx, htx⟩ := Option.isSome_iff_exists.1 htx
  exact ⟨request, hash, tx, Outcome.toOption_eq_some.1 hrequest, hstrings, hmessage,
    Outcome.toOption_eq_some.1 htx⟩

theorem signedMessage_binds_sample :
    ∃ requestA hashA txA requestB hashB txB,
      fromBytes rlpCrate sampleCrypto false (sampleEip1559 [0x80] 3) sampleChainId =
        .ok (requestA, hashA) ∧
      fromBytes rlpCrate sampleCrypto false (sampleEip1559 [0x80] 9) sampleChainId =
        .ok (requestB, hashB) ∧
      L2Tx.fromRequest false requestA 1000000 = .ok txA ∧
      L2Tx.fromRequest false requestB 1000000 = .ok txB ∧ L2Tx.Agree sampleCrypto txA txB := by
  obtain ⟨requestA, hashA, txA, hA, hstringsA, hmessageA, htxA⟩ :=
    @sampleEip1559_parsed [0x80] 3 (by decide +kernel)
  obtain ⟨requestB, hashB, txB, hB, hstringsB, hmessageB, htxB⟩ :=
    @sampleEip1559_parsed [0x80] 9 (by decide +kernel)
  have hfree : Set.InjOn sampleCrypto.keccak256
      {x | x ∈ requestA.hashedStrings sampleCrypto ++ requestB.hashedStrings sampleCrypto} := by
    rw [hstringsA, hstringsB]
    rintro x hx y hy -
    simp only [List.cons_append, List.nil_append, Set.mem_ofPred_eq, List.mem_cons,
      List.not_mem_nil, or_false, or_self] at hx hy
    exact hx.trans hy.symm
  have hitem : ∀ r ∈ [3, 9],
      (rlpCrate.u256At (sampleEip1559 [0x80] r).tail 2).toOption = some 0 := by decide +kernel
  refine ⟨requestA, hashA, txA, requestB, hashB, txB, hA, hB, htxA, htxB, ?_⟩
  refine (signedMessage_binds_iff rlpCrate_within sampleCrypto_hashesContracts Rlp.writer_lawful
    (by decide +kernel) (by decide +kernel) hA hB htxA htxB hfree
    (hmessageA.trans hmessageB.symm)).2 ?_
  rintro ⟨⟨⟨-, hnone⟩, -⟩ | ⟨-, -, hnone⟩, -⟩
  · cases (hitem 3 (by decide)).symm.trans hnone
  · cases (hitem 9 (by decide)).symm.trans hnone

/-- One signature, two priority fees: an item that is a list, and an item that is zero, are signed
as the same string. -/
theorem signedMessage_priority_differs :
    (∃ requestA hashA txA requestB hashB txB,
      fromBytes rlpCrate sampleCrypto false (sampleEip1559 [0x80] 3) sampleChainId =
        .ok (requestA, hashA) ∧
      fromBytes rlpCrate sampleCrypto false (sampleEip1559 [0xc0] 3) sampleChainId =
        .ok (requestB, hashB) ∧
      L2Tx.fromRequest false requestA 1000000 = .ok txA ∧
      L2Tx.fromRequest false requestB 1000000 = .ok txB ∧
      requestA.hashedStrings sampleCrypto = requestB.hashedStrings sampleCrypto ∧
      requestA.getDefaultSignedMessage sampleCrypto = requestB.getDefaultSignedMessage
        sampleCrypto) ∧
    (parseTransactionBytes rlpCrate sampleCrypto false (sampleEip1559 [0x80] 3) sampleChainId
        1000000).toOption.map (fun p => p.1.commonData.fee.maxPriorityFeePerGas) = some 0 ∧
    (parseTransactionBytes rlpCrate sampleCrypto false (sampleEip1559 [0xc0] 3) sampleChainId
        1000000).toOption.map (fun p => p.1.commonData.fee.maxPriorityFeePerGas) = some 100 := by
  refine ⟨?_, by decide +kernel, by decide +kernel⟩
  obtain ⟨requestA, hashA, txA, hA, hstringsA, hmessageA, htxA⟩ :=
    @sampleEip1559_parsed [0x80] 3 (by decide +kernel)
  obtain ⟨requestB, hashB, txB, hB, hstringsB, hmessageB, htxB⟩ :=
    @sampleEip1559_parsed [0xc0] 3 (by decide +kernel)
  exact ⟨requestA, hashA, txA, requestB, hashB, txB, hA, hB, htxA, htxB,
    hstringsA.trans hstringsB.symm, hmessageA.trans hmessageB.symm⟩

end Web3
