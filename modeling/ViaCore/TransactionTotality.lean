/-
Decoding the transactions of users without a panic.

The bytes come from an open endpoint, and they are decoded, encoded again, hashed and checked before
the chain in them is compared with the chain of the node.  Of the places on the way that could panic
two are not guarded: the chain of a typed transaction is unwrapped, although it can be any number of
64 bits, and 27 is added to a `v` that can be any byte.

* `parseTransactionBytes_returns_iff` — for which bytes there is no panic.
-/
import ViaCore.TransactionRequest

namespace Web3

open PackedEthSignature (fromRsv serializePacked)

open Outcome (ok_bind returns_bind_iff bind_eq_ok)

section Returns

variable {ε α β : Type}

theorem ensures_read {x : Except Rlp.DecoderError α} {f : α → Result β} {Q : β → Prop}
    (hf : ∀ a, x = .ok a → (f a).Ensures Q) : (rlpResult x >>= f).Ensures Q := by
  cases x with
  | ok a => exact hf a rfl
  | error e => exact .err

theorem okOr_returns (error : SerializationTransactionError) (x : Option α) :
    (okOr error x).Returns := by
  cases x with
  | some a => exact .ok a
  | none => exact .err _

theorem okOrNone_returns_iff {x : Result α} :
    (okOrNone x : Outcome ε (Option α)).Returns ↔ x.Returns := by
  cases x with
  | ok a => exact iff_of_true (.ok _) (.ok _)
  | err e => exact iff_of_true (.ok _) (.err _)
  | panic => exact iff_of_false (fun h => h rfl) (fun h => h rfl)

theorem okOr_eq_ok {error : SerializationTransactionError} {x : Option α} {a : α} :
    okOr error x = .ok a ↔ x = some a := by
  cases x <;> simp [okOr]

end Returns

theorem validateFactoryDepsFrom_returns (i : ℕ) (deps : List Bytes) :
    (validateFactoryDepsFrom i deps).Returns := by
  induction deps generalizing i with
  | nil => exact .ok ()
  | cons dep deps ih =>
    rw [validateFactoryDepsFrom]
    cases validateBytecode dep with
    | ok _ => exact ih (i + 1)
    | error error => exact .err _

theorem validateBytecode_of_mem {i : ℕ} {deps : List Bytes}
    (h : validateFactoryDepsFrom i deps = .ok ()) {dep : Bytes} (hdep : dep ∈ deps) :
    validateBytecode dep = .ok () := by
  induction deps generalizing i with
  | nil => cases hdep
  | cons first deps ih =>
    rw [validateFactoryDepsFrom] at h
    cases hfirst : validateBytecode first with
    | error error =>
      rw [hfirst] at h
      cases h
    | ok _ =>
      rw [hfirst] at h
      rcases List.mem_cons.1 hdep with rfl | hdep
      · exact hfirst
      · exact ih h hdep

theorem hashBytecode_of_valid {ε : Type} {C : Crypto} (hC : C.HashesContracts) {code : Bytes}
    (h : validateBytecode code = .ok ()) : ∃ hash, hashBytecode (ε := ε) C code = .ok hash := by
  rw [validateBytecode] at h
  split_ifs at h with hlong hwords hodd
  have hlen : ((List.range (code.length / 32)).map
      fun i => (code.drop (32 * i)).take 32).length = code.length / 32 := by
    rw [List.length_map, List.length_range]
  obtain ⟨hash, hhash⟩ := Option.isSome_iff_exists.1 (hC _ (by rw [hlen]; omega) (by
    rw [hlen]
    have : code.length ≤ 65535 * 32 := not_lt.1 hlong
    omega))
  refine ⟨hash, ?_⟩
  rw [hashBytecode, bytesToChunks, if_pos (not_not.1 hwords), ok_bind, hhash]
  rfl

theorem mapM_hashBytecode {ε : Type} {C : Crypto} (hC : C.HashesContracts) {deps : List Bytes}
    (h : ∀ dep ∈ deps, validateBytecode dep = .ok ()) :
    ∃ hashes, deps.mapM (hashBytecode (ε := ε) C) = .ok hashes := by
  induction deps with
  | nil => exact ⟨[], rfl⟩
  | cons dep deps ih =>
    rw [List.forall_mem_cons] at h
    obtain ⟨hash, hhash⟩ := hashBytecode_of_valid (ε := ε) hC h.1
    obtain ⟨hashes, hhashes⟩ := ih h.2
    exact ⟨hash :: hashes, by rw [List.mapM_cons, hhash, hhashes]; rfl⟩

theorem PaymasterParams.fromVector_returns (params : List Bytes) :
    (PaymasterParams.fromVector params).Returns := by
  match params with
  | [] => exact .ok none
  | [_] | _ :: _ :: _ :: _ => exact .err _
  | [paymaster, paymasterInput] =>
    rw [PaymasterParams.fromVector]
    by_cases hlen : paymaster.length = 20
    · rw [if_neg (not_not.2 hlen), FixedBytes.fromSlice, dif_pos hlen]
      exact .ok _
    · rw [if_pos hlen]
      exact .err _

namespace TransactionRequest

/-! ### What was decoded -/

structure IsLegacy (tx : TransactionRequest) : Prop where
  transactionType : tx.transactionType = none
  eip712Meta : tx.eip712Meta = none
  fromAddress : tx.fromAddress = none
  maxPriorityFeePerGas : tx.maxPriorityFeePerGas = none

structure IsEip1559 (tx : TransactionRequest) : Prop where
  transactionType : tx.transactionType = some eip1559TxType
  eip712Meta : tx.eip712Meta = none
  fromAddress : tx.fromAddress = none
  chainId : ∃ chainId, tx.chainId = some chainId

structure IsEip712 (tx : TransactionRequest) : Prop where
  transactionType : tx.transactionType = some eip712TxType
  eip712Meta : ∃ params, tx.eip712Meta = some params
  fromAddress : ∃ fromAddress, tx.fromAddress = some fromAddress
  chainId : ∃ chainId, tx.chainId = some chainId

/-- What decoding gives: a signature, and the fields of one of three types. -/
structure Decoded (R : RlpReader) (bytes : Bytes) (tx : TransactionRequest) : Prop where
  signature : ∃ v r s, tx.v = some v ∧ tx.r = some r ∧ tx.s = some s
  kind : tx.IsLegacy ∨ tx.IsEip1559 ∨ tx.IsEip712
  input : R.Within → tx.input.length ≤ bytes.length

variable {R : RlpReader}

variable {rlp : Bytes} {fields : TransactionRequest}

theorem decodeStandardFields_spec {offset : ℕ}
    (h : decodeStandardFields R rlp offset = .ok fields) :
    fields.IsLegacy ∧ R.dataAt rlp (offset + 5) = .ok fields.input := by
  obtain ⟨_, -, h⟩ := Rlp.bind_eq_ok h
  obtain ⟨_, -, h⟩ := Rlp.bind_eq_ok h
  obtain ⟨_, -, h⟩ := Rlp.bind_eq_ok h
  obtain ⟨_, -, h⟩ := Rlp.bind_eq_ok h
  obtain ⟨input, hinput, h⟩ := Rlp.bind_eq_ok h
  cases h
  exact ⟨⟨rfl, rfl, rfl, rfl⟩, hinput⟩

theorem decodeEip1559Fields_spec {offset : ℕ} (h : decodeEip1559Fields R rlp offset = .ok fields) :
    (fields.eip712Meta = none ∧ fields.fromAddress = none ∧
      R.dataAt rlp (offset + 6) = .ok fields.input) ∧
    fields.maxPriorityFeePerGas = (R.u256At rlp (offset + 1)).toOption ∧
      R.u256At rlp (offset + 2) = .ok fields.gasPrice := by
  obtain ⟨_, -, h⟩ := Rlp.bind_eq_ok h
  obtain ⟨gasPrice, hgasPrice, h⟩ := Rlp.bind_eq_ok h
  obtain ⟨_, -, h⟩ := Rlp.bind_eq_ok h
  obtain ⟨_, -, h⟩ := Rlp.bind_eq_ok h
  obtain ⟨input, hinput, h⟩ := Rlp.bind_eq_ok h
  cases h
  exact ⟨⟨rfl, rfl, hinput⟩, rfl, hgasPrice⟩

theorem checkAccessList_returns (rlp : Bytes) : (checkAccessList R rlp).Returns := by
  rw [checkAccessList]
  cases R.itemAt rlp 8 with
  | error _ => exact .ok ()
  | ok accessListRlp =>
    refine (ensures_read (Q := fun _ => True) fun itemCount _ => ?_).1
    split
    · exact .err
    · exact .ok trivial

theorem decodePaymasterParams_returns (rlp : Bytes) : (decodePaymasterParams R rlp).Returns := by
  rw [decodePaymasterParams]
  cases R.listAt rlp 15 with
  | error _ => exact .ok none
  | ok params => exact PaymasterParams.fromVector_returns params

theorem decodeLegacy_spec (bytes : Bytes) :
    (decodeLegacy R bytes).Ensures fun tx => Decoded R bytes tx ∧ tx.IsLegacy := by
  refine ensures_read fun itemCount _ => ?_
  split
  · exact .err
  refine ensures_read fun _ _ => (okOr_returns _ _).ensures.bind fun unpacked _ =>
    ensures_read fun v _ => ensures_read fun r _ => ensures_read fun s _ =>
    ensures_read fun fields hfields => ?_
  obtain ⟨hlegacy, hinput⟩ := decodeStandardFields_spec hfields
  have hkind : IsLegacy
      { fields with chainId := unpacked.2, v := some v, r := some r, s := some s } :=
    ⟨hlegacy.1, hlegacy.2, hlegacy.3, hlegacy.4⟩
  exact .ok ⟨⟨⟨v, r, s, rfl, rfl, rfl⟩, .inl hkind, fun hR => hR _ _ _ hinput⟩, hkind⟩

theorem decodeEip1559_spec (rlp : Bytes) :
    (decodeEip1559 R rlp).Ensures fun tx => Decoded R rlp tx ∧ tx.IsEip1559 ∧
      tx.maxPriorityFeePerGas = (R.u256At rlp 2).toOption ∧ R.u256At rlp 3 = .ok tx.gasPrice := by
  refine ensures_read fun itemCount _ => ?_
  split
  · exact .err
  refine (checkAccessList_returns rlp).ensures.bind fun _ _ => ensures_read fun chainId _ =>
    ensures_read fun v _ => ensures_read fun r _ => ensures_read fun s _ =>
    ensures_read fun fields hfields => ?_
  obtain ⟨⟨hmeta, hfrom, hinput⟩, hpriority, hgasPrice⟩ := decodeEip1559Fields_spec hfields
  have hkind : IsEip1559 { fields with
      chainId := some chainId, v := some v, r := some r, s := some s, raw := some rlp
      transactionType := some eip1559TxType } := ⟨rfl, hmeta, hfrom, chainId, rfl⟩
  exact .ok ⟨⟨⟨v, r, s, rfl, rfl, rfl⟩, .inr (.inl hkind), fun hR => hR _ _ _ hinput⟩, hkind,
    hpriority, hgasPrice⟩

theorem decodeEip712_spec (rlp : Bytes) :
    (decodeEip712 R rlp).Ensures fun tx => Decoded R rlp tx ∧ tx.IsEip712 := by
  refine ensures_read fun itemCount _ => ?_
  split
  · exact .err
  refine ensures_read fun v _ => ensures_read fun r _ => ensures_read fun s _ =>
    ensures_read fun gasPerPubdata _ => ensures_read fun factoryDeps _ =>
    (decodePaymasterParams_returns rlp).ensures.bind fun paymasterParams _ =>
    ensures_read fun chainId _ => ensures_read fun fromAddress _ =>
    ensures_read fun fields hfields => ?_
  obtain ⟨⟨-, -, hinput⟩, -⟩ := decodeEip1559Fields_spec hfields
  have hkind : IsEip712 { fields with
      v := some v, r := some r, s := some s
      eip712Meta := some
        { gasPerPubdata, factoryDeps, paymasterParams
          customSignature := (R.dataAt rlp 14).toOption }
      chainId := some chainId, transactionType := some eip712TxType
      fromAddress := some fromAddress } := ⟨rfl, ⟨_, rfl⟩, ⟨fromAddress, rfl⟩, chainId, rfl⟩
  exact .ok ⟨⟨⟨v, r, s, rfl, rfl, rfl⟩, .inr (.inr hkind), fun hR => hR _ _ _ hinput⟩, hkind⟩

variable {tx : TransactionRequest}

theorem Decoded.cons {rest : Bytes} (h : Decoded R rest tx) (x : UInt8) :
    Decoded R (x :: rest) tx :=
  ⟨h.signature, h.kind, fun hR => (h.input hR).trans (Nat.le_succ _)⟩

/-- **What decoding gives**, for any bytes, without a panic. -/
theorem decode_spec (bytes : Bytes) : (decode R bytes).Ensures (Decoded R bytes) := by
  cases bytes with
  | nil => exact .err
  | cons x rest =>
    rw [decode]
    split_ifs with hlist h1559 h712 h2930
    · exact (decodeLegacy_spec _).mono fun _ h => h.1
    · exact (decodeEip1559_spec rest).mono fun _ h => h.1.cons x
    · exact (decodeEip712_spec rest).mono fun _ h => h.1.cons x
    · exact .err
    · exact .err

theorem decode_eip1559 {bytes : Bytes} (h : decode R bytes = .ok tx) :
    (bytes.head? = some 0x02 ↔ tx.transactionType = some eip1559TxType) ∧
      (bytes.head? = some 0x02 →
        tx.maxPriorityFeePerGas = (R.u256At bytes.tail 2).toOption ∧
          R.u256At bytes.tail 3 = .ok tx.gasPrice) := by
  cases bytes with
  | nil => cases h
  | cons x rest =>
    rw [List.head?_cons, List.tail_cons, Option.some_inj]
    rw [decode] at h
    split_ifs at h with hlist h1559 h712 h2930
    · have hx : x ≠ 0x02 := fun hx => absurd (hx ▸ hlist) (by decide)
      refine ⟨iff_of_false hx ?_, fun h => absurd h hx⟩
      rw [((decodeLegacy_spec _).2 _ h).2.transactionType]
      exact (Option.some_ne_none _).symm
    · have hx : x = 0x02 := by
        have hnat := congrArg UInt64.toNat h1559
        exact UInt8.toNat_inj.1 hnat
      obtain ⟨-, h1559, hfields⟩ := (decodeEip1559_spec rest).2 _ h
      exact ⟨iff_of_true hx h1559.transactionType, fun _ => hfields⟩
    · have hx : x ≠ 0x02 := fun hx => absurd (hx ▸ h712) (by decide)
      refine ⟨iff_of_false hx ?_, fun h => absurd h hx⟩
      rw [((decodeEip712_spec rest).2 _ h).2.transactionType]
      decide

theorem decodeValidated_spec (bytes : Bytes) :
    (decodeValidated R bytes).Ensures fun tx =>
      Decoded R bytes tx ∧ (∀ dep ∈ tx.getFactoryDeps, validateBytecode dep = .ok ()) ∧
        tx.raw = some bytes := by
  refine (decode_spec bytes).bind fun request hspec =>
    (validateFactoryDepsFrom_returns 0 _).ensures.bind fun _ hvalid => .ok ?_
  refine ⟨⟨hspec.signature, ?_, hspec.input⟩, fun dep hdep =>
    validateBytecode_of_mem hvalid hdep, rfl⟩
  rcases hspec.kind with h | h | h
  · exact .inl ⟨h.1, h.2, h.3, h.4⟩
  · exact .inr (.inl ⟨h.1, h.2, h.3, h.4⟩)
  · exact .inr (.inr ⟨h.1, h.2, h.3, h.4⟩)

/-! ### The signed message -/

variable {C : Crypto} {overflowChecks : Bool} {tx : TransactionRequest} {bytes : Bytes}

/-- What a legacy transaction signs: with a chain, the chain and two empty items come last. -/
def legacyItems (tx : TransactionRequest) : List Bytes :=
  [uintItem tx.nonce, uintItem tx.gasPrice, uintItem tx.gas, optItem FixedBytes.bytes tx.toAddress,
    uintItem tx.value, tx.input] ++ tx.rlpSignature none

def eip1559Items (tx : TransactionRequest) (chainId : UInt64) : List Bytes :=
  [minimalBe chainId.toNat, uintItem tx.nonce, optItem uintItem tx.maxPriorityFeePerGas,
    uintItem tx.gasPrice, uintItem tx.gas, optItem FixedBytes.bytes tx.toAddress,
    uintItem tx.value, tx.input]

theorem getRlp_legacy (h : tx.transactionType = none) :
    tx.getRlp C = .ok (C.encodeList (C.encodeItems tx.legacyItems)) := by
  have hfields : tx.rlpFields C = .ok (C.encodeItems
      [uintItem tx.nonce, uintItem tx.gasPrice, uintItem tx.gas,
        optItem FixedBytes.bytes tx.toAddress, uintItem tx.value, tx.input]) := by
    simp [rlpFields, isLegacyTx, h]
  have h712 : tx.rlpEip712 C = .ok [] := by simp [rlpEip712, isEip712Tx, h]
  rw [getRlp, rlp, hfields, h712, legacyItems, Rlp.Writer.encodeItems_append]
  simp

theorem getRlp_eip1559 (h : tx.transactionType = some eip1559TxType) {chainId : UInt64}
    (hchain : tx.chainId = some chainId) :
    tx.getRlp C = .ok (C.encodeList
      (C.encodeItems (tx.eip1559Items chainId) ++ C.encodeList [])) := by
  have hfields : tx.rlpFields C = .ok
      (C.encodeItems (tx.eip1559Items chainId) ++ C.encodeList []) := by
    simp [rlpFields, h, hchain, okOr, eip1559Items, eip1559TxType, eip2930TxType]
  have h712 : tx.rlpEip712 C = .ok [] := by
    simp [rlpEip712, isEip712Tx, h, eip1559TxType, eip712TxType]
  have hsignature : tx.rlpSignature none = [] := by
    simp [rlpSignature, isLegacyTx, h, hchain, eip1559TxType, legacyTxType]
  rw [getRlp, rlp, hfields, h712, hsignature]
  simp

theorem getDefaultSignedMessage_of_getRlp
    (h : tx.transactionType ≠ some eip712TxType) {data : Bytes} (hdata : tx.getRlp C = .ok data) :
    tx.getDefaultSignedMessage C = .ok (C.keccak256 (tx.withType data)) := by
  have htype : tx.isEip712Tx = false := by simp [isEip712Tx, h]
  rw [getDefaultSignedMessage, htype, hdata]
  rfl

theorem eip1559_ne_eip712 (h : tx.transactionType = some eip1559TxType) :
    tx.transactionType ≠ some eip712TxType := by
  rw [h]
  decide

theorem legacy_ne_eip712 (h : tx.transactionType = none) :
    tx.transactionType ≠ some eip712TxType := by
  rw [h]
  exact (Option.some_ne_none _).symm

theorem getDefaultSignedMessage_eip712 (h : tx.transactionType = some eip712TxType)
    {chainId : UInt64} (hchain : tx.chainId = some chainId) {members : List EncodedMember}
    (hmembers : tx.buildStructure C = .ok members) :
    tx.getDefaultSignedMessage C = (Outcome.unwrap (L2ChainId.tryFrom chainId) >>= fun id =>
      .ok (typedDataToSignedBytes C (hashStruct C "EIP712Domain" (eip712Domain C id))
        (hashStruct C "Transaction" members))) := by
  have htype : tx.isEip712Tx = true := by simp [isEip712Tx, h]
  rw [getDefaultSignedMessage, htype, if_pos rfl, hchain, hmembers]
  rfl

theorem buildStructure_of_eip712 (hC : C.HashesContracts) (h : tx.IsEip712)
    (hdeps : ∀ dep ∈ tx.getFactoryDeps, validateBytecode dep = .ok ()) :
    ∃ params fromAddress hashes, tx.eip712Meta = some params ∧ tx.fromAddress = some fromAddress ∧
      tx.getFactoryDeps.mapM (hashBytecode (ε := SerializationTransactionError) C) = .ok hashes ∧
      tx.buildStructure C = .ok (tx.members C params fromAddress hashes) := by
  obtain ⟨params, hparams⟩ := h.eip712Meta
  obtain ⟨fromAddress, hfrom⟩ := h.fromAddress
  obtain ⟨hashes, hhashes⟩ := @mapM_hashBytecode SerializationTransactionError C hC _ hdeps
  refine ⟨params, fromAddress, hashes, hparams, hfrom, hhashes, ?_⟩
  rw [buildStructure, hparams, hfrom, hhashes]
  rfl

/-- The chain of a typed transaction is a chain of the second layer. -/
def SafeChainId (tx : TransactionRequest) : Prop :=
  tx.isEip712Tx = true → ∀ chainId, tx.chainId = some chainId → chainId ≤ maxL2ChainId

theorem getDefaultSignedMessage_cases (hC : C.HashesContracts) (hdec : Decoded R bytes tx)
    (hdeps : ∀ dep ∈ tx.getFactoryDeps, validateBytecode dep = .ok ()) :
    (tx.SafeChainId ∧ ∃ message, tx.getDefaultSignedMessage C = .ok message) ∨
      (¬ tx.SafeChainId ∧ tx.getDefaultSignedMessage C = .panic) := by
  rcases hdec.kind with h | h | h
  · have hne := legacy_ne_eip712 h.transactionType
    exact .inl ⟨fun htype => absurd (of_decide_eq_true htype) hne, _,
      getDefaultSignedMessage_of_getRlp hne (getRlp_legacy h.transactionType)⟩
  · have hne := eip1559_ne_eip712 h.transactionType
    obtain ⟨chainId, hchain⟩ := h.chainId
    exact .inl ⟨fun htype => absurd (of_decide_eq_true htype) hne, _,
      getDefaultSignedMessage_of_getRlp hne (getRlp_eip1559 h.transactionType hchain)⟩
  · obtain ⟨chainId, hchain⟩ := h.chainId
    obtain ⟨params, fromAddress, hashes, -, -, -, hmembers⟩ := buildStructure_of_eip712 hC h hdeps
    have htype : tx.isEip712Tx = true := by simp [isEip712Tx, h.transactionType]
    have hsafe : tx.SafeChainId ↔ chainId ≤ maxL2ChainId := by
      rw [SafeChainId, hchain]
      exact ⟨fun h => h htype chainId rfl, fun h _ _ hid => Option.some.inj hid ▸ h⟩
    rw [getDefaultSignedMessage_eip712 h.transactionType hchain hmembers, hsafe, L2ChainId.tryFrom]
    by_cases hle : chainId ≤ maxL2ChainId
    · rw [dif_pos hle]
      exact .inl ⟨hle, _, rfl⟩
    · rw [dif_neg hle]
      exact .inr ⟨hle, rfl⟩

/-- When the build checks overflows: a `v` that has to be packed stays a byte when 27 is added. -/
def SafeV (overflowChecks : Bool) (tx : TransactionRequest) : Prop :=
  overflowChecks = true → tx.isLegacyTx = false → tx.getCustomSignature.getD [] = [] →
    ∀ v, tx.v = some v → v.toNat < 256 → v.toNat + 27 ≤ 255

end TransactionRequest

@[simp] theorem PackedEthSignature.v_fromRsv (r s : H256) (v : UInt8) :
    PackedEthSignature.v (fromRsv r s v) = v := by
  have hlen : (r.bytes ++ s.bytes).length = 64 := by rw [List.length_append, r.size, s.size]
  rw [PackedEthSignature.v, fromRsv]
  rw [← hlen, List.drop_left]
  rfl

variable {request : TransactionRequest}

namespace TransactionRequest

variable {R : RlpReader} {C : Crypto} {overflowChecks : Bool} {tx : TransactionRequest}
  {bytes : Bytes}

theorem recoveryId_returns (v : UInt64) : (tx.recoveryId v).Returns := by
  rw [recoveryId]
  split_ifs
  · exact okOr_returns _ _
  · exact .ok _
  · exact .err _

theorem serializePacked_returns_iff {ε : Type} (signature : PackedEthSignature) :
    (serializePacked (ε := ε) overflowChecks signature).Returns ↔
      (overflowChecks = true → (PackedEthSignature.v signature).toNat + 27 ≤ 255) := by
  rw [serializePacked]
  by_cases hover : overflowChecks = true ∧ 255 < (PackedEthSignature.v signature).toNat + 27
  · rw [if_pos hover]
    exact iff_of_false (fun h => h rfl) fun h => absurd (h hover.1) (not_le.2 hover.2)
  · rw [if_neg hover]
    exact iff_of_true (.ok _) fun hchecks => not_lt.1 fun hlt => hover ⟨hchecks, hlt⟩

theorem getSignature_returns_iff (hsignature : ∃ v r s, tx.v = some v ∧ tx.r = some r ∧
    tx.s = some s) :
    (tx.getSignature overflowChecks).Returns ↔ tx.SafeV overflowChecks := by
  obtain ⟨v, r, s, hv, hr, hs⟩ := hsignature
  have hpacked : (tx.getPackedSignature >>=
      serializePacked overflowChecks).Returns ↔
        (overflowChecks = true → tx.isLegacyTx = false → v.toNat < 256 → v.toNat + 27 ≤ 255) := by
    rw [getPackedSignature, hv, hr, hs]
    show ((tx.recoveryId v >>= fun v =>
      .ok (fromRsv (u256ToH256 r) (u256ToH256 s) v)) >>= _).Returns ↔ _
    rw [bind_assoc, returns_bind_iff, and_iff_right (recoveryId_returns v)]
    simp only [ok_bind, serializePacked_returns_iff, PackedEthSignature.v_fromRsv]
    by_cases hlegacy : tx.isLegacyTx = true
    · -- a recovery id is zero or one
      refine iff_of_true (fun id hid _ => ?_) fun _ h => absurd (hlegacy.symm.trans h) (by decide)
      rw [recoveryId, if_pos hlegacy] at hid
      obtain ⟨unpacked, hunpacked, rfl⟩ := Option.map_eq_some_iff.1 (okOr_eq_ok.1 hid)
      have hle : unpacked.1.toNat ≤ 1 := by
        simp only [PackedEthSignature.unpackV] at hunpacked
        split_ifs at hunpacked <;> obtain rfl := Option.some.inj hunpacked <;> simp
      omega
    · rw [recoveryId, if_neg hlegacy, Bool.eq_false_iff.2 hlegacy]
      by_cases hbyte : v.toNat < 256
      · have hid : v.toUInt8.toNat = v.toNat := by
          rw [UInt64.toNat_toUInt8]
          exact Nat.mod_eq_of_lt hbyte
        rw [if_pos hbyte]
        constructor
        · intro h hchecks _ _
          exact hid ▸ h _ rfl hchecks
        · rintro h id hpure hchecks
          cases hpure
          exact hid.symm ▸ h hchecks rfl hbyte
      · rw [if_neg hbyte]
        exact iff_of_true nofun fun _ _ h => absurd h hbyte
  rw [getSignature, SafeV, hv]
  match tx.getCustomSignature with
  | some (b :: signature) =>
    exact iff_of_true (.ok _) fun _ _ h => absurd h (List.cons_ne_nil b signature)
  | some [] | none =>
    refine hpacked.trans ⟨fun h hchecks hlegacy _ v' hv' => ?_, fun h hchecks hlegacy => ?_⟩
    · exact Option.some.inj hv' ▸ h hchecks hlegacy
    · exact h hchecks hlegacy rfl v rfl

/-! ### From bytes to a request -/

theorem recoverSender_spec (message : H256) :
    (recoverSender C overflowChecks tx message).Returns ↔
      tx.fromAddress = none → (tx.getSignature overflowChecks).Returns := by
  rw [recoverSender]
  cases hfrom : tx.fromAddress with
  | some fromAddress =>
    exact iff_of_true (.ok _) fun h => absurd h (Option.some_ne_none fromAddress)
  | none =>
    rw [returns_bind_iff, okOrNone_returns_iff, recoverDefaultSigner, returns_bind_iff,
      and_iff_left fun _ _ => Outcome.Returns.bind (okOr_returns _ _) fun _ _ => okOr_returns _ _]
    exact ⟨fun h _ => h.1, fun h => ⟨h rfl, fun _ _ => .ok _⟩⟩

theorem recoverSender_eq {message : H256} {sent : TransactionRequest}
    (h : recoverSender C overflowChecks tx message = .ok sent) :
    ∃ fromAddress, sent = { tx with fromAddress } ∧
      ∀ known, tx.fromAddress = some known → fromAddress = some known := by
  rw [recoverSender] at h
  cases hfrom : tx.fromAddress with
  | some known =>
    rw [hfrom] at h
    refine ⟨some known, ?_, fun _ hknown => hknown⟩
    rw [← Outcome.ok.inj h, ← hfrom]
  | none =>
    rw [hfrom] at h
    obtain ⟨fromAddress, -, h⟩ := bind_eq_ok.1 h
    exact ⟨fromAddress, (Outcome.ok.inj h).symm, nofun⟩

theorem fromBytesUnverified_returns_iff (hC : C.HashesContracts) :
    (fromBytesUnverified R C overflowChecks bytes).Returns ↔
      ∀ tx, decodeValidated R bytes = .ok tx → tx.SafeChainId ∧ tx.SafeV overflowChecks := by
  rw [fromBytesUnverified, returns_bind_iff, and_iff_right (decodeValidated_spec bytes).1]
  refine forall_congr' fun tx => forall_congr' fun hdecode => ?_
  obtain ⟨hdec, hdeps, hraw⟩ := (decodeValidated_spec bytes).2 _ hdecode
  rcases getDefaultSignedMessage_cases hC hdec hdeps with
    ⟨hsafe, message, hmessage⟩ | ⟨hsafe, hpanic⟩
  · rw [hmessage, ok_bind, and_iff_right hsafe, ← getSignature_returns_iff hdec.signature,
      returns_bind_iff, recoverSender_spec]
    have hrest : ∀ sent, recoverSender C overflowChecks tx message = .ok sent →
        ((sent.getTxHashWithSignedMessage C overflowChecks message >>= fun hash =>
          Outcome.unwrap hash >>= fun hash =>
            (pure (sent, hash) : Result (TransactionRequest × H256))).Returns ↔
          (tx.isEip712Tx = true → (tx.getSignature overflowChecks).Returns)) := by
      intro sent hsent
      obtain ⟨fromAddress, rfl, -⟩ := recoverSender_eq hsent
      -- the hash of a typed transaction needs the signature, the hash of the others the bytes
      have hraw' : ({ tx with fromAddress } : TransactionRequest).raw = some bytes := hraw
      rw [getTxHashWithSignedMessage]
      split
      · rename_i htype
        rw [bind_assoc, returns_bind_iff]
        exact ⟨fun h _ => h.1, fun h => ⟨h htype, fun _ _ => .ok _⟩⟩
      · rename_i htype
        rw [hraw']
        exact iff_of_true (.ok _) fun h => absurd h htype
    constructor
    · rintro ⟨hfrom, hsent⟩
      cases hknown : tx.fromAddress with
      | none => exact hfrom hknown
      | some fromAddress =>
        have heq : recoverSender C overflowChecks tx message = .ok tx := by
          rw [recoverSender, hknown]
          rfl
        refine (hrest tx heq).1 (hsent tx heq) ?_
        rcases hdec.kind with h | h | h
        · cases hknown.symm.trans h.fromAddress
        · cases hknown.symm.trans h.fromAddress
        · simp [isEip712Tx, h.transactionType]
    · intro h
      exact ⟨fun _ => h, fun sent hsent => (hrest sent hsent).2 fun _ => h⟩
  · rw [hpanic, Outcome.panic_bind]
    exact iff_of_false (fun h => h rfl) fun h => hsafe h.1

variable {chainId : L2ChainId}

theorem checkChainId_eq_ok (h : tx.checkChainId chainId = .ok ()) {id : UInt64}
    (hid : tx.chainId = some id) : id = chainId.asU64 := by
  by_contra hne
  rw [checkChainId, hid, if_pos ⟨rfl, fun heq => hne (Option.some.inj heq)⟩] at h
  cases h

theorem fromBytes_eq {hash : H256}
    (h : fromBytes R C overflowChecks bytes chainId = .ok (request, hash)) :
    ∃ tx message fromAddress, decodeValidated R bytes = .ok tx ∧
      tx.getDefaultSignedMessage C = .ok message ∧ request = { tx with fromAddress } ∧
      (∀ known, tx.fromAddress = some known → fromAddress = some known) ∧
      request.getTxHashWithSignedMessage C overflowChecks message = .ok (some hash) ∧
      (∀ {id}, request.chainId = some id → id = chainId.asU64) := by
  obtain ⟨⟨sent, sentHash⟩, hunverified, h⟩ := bind_eq_ok.1 h
  obtain ⟨tx, htx, hunverified⟩ := bind_eq_ok.1 hunverified
  obtain ⟨message, hmessage, hunverified⟩ := bind_eq_ok.1 hunverified
  obtain ⟨sender, hsender, hunverified⟩ := bind_eq_ok.1 hunverified
  obtain ⟨found, hfound, hunverified⟩ := bind_eq_ok.1 hunverified
  obtain ⟨unwrapped, hunwrapped, hunverified⟩ := bind_eq_ok.1 hunverified
  cases hunverified
  obtain ⟨fromAddress, hfromAddress, hknown⟩ := recoverSender_eq hsender
  obtain ⟨_, hcheck, h⟩ := bind_eq_ok.1 h
  cases h
  refine ⟨tx, message, fromAddress, htx, hmessage, hfromAddress, hknown, ?_,
    checkChainId_eq_ok hcheck⟩
  rw [hfound, Outcome.unwrap_eq_ok.1 hunwrapped]

theorem fromBytes_returns_iff :
    (fromBytes R C overflowChecks bytes chainId).Returns ↔
      (fromBytesUnverified R C overflowChecks bytes).Returns := by
  rw [fromBytes, returns_bind_iff]
  refine and_iff_left ?_
  rintro ⟨tx, hash⟩ -
  refine .bind ?_ fun _ _ => .ok _
  rw [checkChainId]
  split
  · exact .err _
  · exact .ok ()

theorem getFeeDataChecked_returns : tx.getFeeDataChecked.Returns := by
  have hlimit : tx.gasPerPubdataLimit.Returns := by
    rw [gasPerPubdataLimit]
    cases tx.eip712Meta with
    | none => exact .ok _
    | some params =>
      show (if u64Max < params.gasPerPubdata then _ else _ : Result U256).Returns
      split_ifs
      · exact .err _
      · exact .err _
      · exact .ok _
  rw [getFeeDataChecked]
  split
  · exact .err _
  · refine .bind hlimit fun _ _ => ?_
    show (if u64Max < tx.maxPriorityFeePerGas.getD tx.gasPrice then _ else _ : Result Fee).Returns
    split
    · exact .err _
    · exact .ok _

theorem getNonceChecked_returns : tx.getNonceChecked.Returns := by
  rw [getNonceChecked]
  by_cases hnonce : tx.nonce ≤ 4294967295
  · have hlt : tx.nonce.toNat < 2 ^ 32 := Nat.lt_succ_of_le (BitVec.le_def.1 hnonce)
    rw [if_pos hnonce, asU32, if_pos hlt]
    exact .ok _
  · rw [if_neg hnonce]
    exact .err _

end TransactionRequest

theorem L2Tx.fromRequest_returns {overflowChecks : Bool}
    (hsignature : (request.getSignature overflowChecks).Returns) (maxTxSize : ℕ) :
    (L2Tx.fromRequest overflowChecks request maxTxSize).Returns := by
  have hunverified : (L2Tx.fromRequestUnverified overflowChecks request).Returns :=
    .bind TransactionRequest.getFeeDataChecked_returns fun _ _ =>
      .bind TransactionRequest.getNonceChecked_returns fun _ _ =>
      .bind (okOrNone_returns_iff.2 hsignature) fun _ _ =>
      .bind (validateFactoryDepsFrom_returns 0 _) fun _ _ =>
      .bind (okOr_returns _ _) fun _ _ => .ok _
  refine .bind hunverified fun tx _ => .bind ?_ fun _ _ => .ok _
  rw [L2Tx.checkEncodedSize]
  split
  · exact .err _
  · exact .ok ()

section Totality

variable {R : RlpReader} {C : Crypto} {overflowChecks : Bool} {bytes : Bytes} {chainId : L2ChainId}
  {maxTxSize : ℕ}

/-- **No panic, exactly for these bytes**: they decode to a request with valid contracts, a chain
that a node can have, and, where overflows are checked, a `v` of at most 228. -/
theorem parseTransactionBytes_returns_iff (hC : C.HashesContracts) :
    (parseTransactionBytes R C overflowChecks bytes chainId maxTxSize).Returns ↔
      ∀ tx, TransactionRequest.decodeValidated R bytes = .ok tx →
        tx.SafeChainId ∧ tx.SafeV overflowChecks := by
  rw [← TransactionRequest.fromBytesUnverified_returns_iff hC, parseTransactionBytes,
    returns_bind_iff, TransactionRequest.fromBytes_returns_iff]
  refine and_iff_left_of_imp fun hreturns => ?_
  rintro ⟨request, hash⟩ hrequest
  obtain ⟨tx, -, fromAddress, hdecode, -, rfl, -⟩ := TransactionRequest.fromBytes_eq hrequest
  have hsafe := (TransactionRequest.fromBytesUnverified_returns_iff hC).1 hreturns tx hdecode
  have hdec := ((TransactionRequest.decodeValidated_spec bytes).2 _ hdecode).1
  refine .bind (L2Tx.fromRequest_returns ?_ maxTxSize) fun _ _ => .ok _
  exact (TransactionRequest.getSignature_returns_iff hdec.signature).2 hsafe.2

end Totality

def rlpCrate : RlpReader := ⟨Rlp.itemCount, Rlp.itemAt, Rlp.dataAt, Rlp.listAt⟩

def sampleCrypto : Crypto where
  toWriter := Rlp.writer
  toEncoder := Abi.encoder
  keccak256 bytes := FixedBytes.ofNat 32 (bytes.foldl (fun sum b => 257 * sum + b.toNat + 1) 0)
  recoverSigner _ _ := some (FixedBytes.replicate 20 7)
  bytecodeToCodeHash words := some (FixedBytes.ofNat 32 words.length)

theorem sampleCrypto_hashesContracts : sampleCrypto.HashesContracts := fun _ _ _ => rfl

def sampleChainId : L2ChainId := ⟨270, by decide⟩

def sampleEip712 (chainId v : ℕ) : Bytes :=
  0x71 :: sampleCrypto.encodeList
    (sampleCrypto.encodeItems [minimalBe 1, minimalBe 0, minimalBe 100, minimalBe 21000,
      List.replicate 20 5,
        minimalBe 7, [], minimalBe v, minimalBe 3, minimalBe 4, minimalBe chainId,
        List.replicate 20 6, minimalBe 800] ++
      sampleCrypto.encodeList [] ++ sampleCrypto.encodeItems [[]] ++ sampleCrypto.encodeList [])

theorem parseTransactionBytes_returns_sample :
    (parseTransactionBytes rlpCrate sampleCrypto true (sampleEip712 270 1) sampleChainId
        1000000).Returns ∧
      ∀ tx, TransactionRequest.decodeValidated rlpCrate (sampleEip712 270 1) = .ok tx →
        tx.SafeChainId ∧ tx.SafeV true := by
  have h : (parseTransactionBytes rlpCrate sampleCrypto true (sampleEip712 270 1) sampleChainId
      1000000).Returns := by decide +kernel
  exact ⟨h, (parseTransactionBytes_returns_iff sampleCrypto_hashesContracts).1 h⟩

/-- A chain of `2 ^ 53` panics in every build, and a `v` of 255 when overflows are checked. -/
theorem parseTransactionBytes_panics :
    ¬ (parseTransactionBytes rlpCrate sampleCrypto false (sampleEip712 (2 ^ 53) 1) sampleChainId
        1000000).Returns ∧
      ¬ (parseTransactionBytes rlpCrate sampleCrypto true (sampleEip712 270 255) sampleChainId
        1000000).Returns := by decide +kernel

end Web3
