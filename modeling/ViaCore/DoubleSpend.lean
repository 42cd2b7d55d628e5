/-
What the inscriber spends.

A commit transaction must not spend an output twice, and none that a transaction of a pending
inscription spends already.  The spendable outputs are the confirmed ones without those that the
queue marks as spent, and one more from the queue: the change of the reveal transaction at its
front.  That is the right one only if the front is also the last, and it is there twice if the
reveal transaction has been confirmed since the queue was synchronised.

A run (`inscriberStep`) is any interleaving of inscriptions, synchronisations and confirmations.

* `prepareCommitTxInput_sound_iff` — when the chosen inputs are sound.
-/
import ViaCore.Inscriber
import ViaCore.Runs

section Chain

variable (txid : Transaction → Txid) (script : Bytes) (chain : List Transaction)

def placedOutputs (tx : Transaction) : List (OutPoint × TxOut) :=
  tx.output.mapIdx fun vout output => (⟨txid tx, vout⟩, output)

def unspentOutputs : List (OutPoint × TxOut) :=
  (chain.flatMap (placedOutputs txid)).filter fun utxo =>
    utxo.2.scriptPubkey = script ∧ ∀ tx ∈ chain, utxo.1 ∉ tx.spends

def IsConfirmed (id : Txid) : Prop := ∃ tx ∈ chain, txid tx = id
deriving Decidable

/-- The id of the transaction is new: no other transaction has it, and none spends from it. -/
def FreshTxid (txs : List Transaction) (tx : Transaction) : Prop :=
  (∀ k ∈ txs, txid k ≠ txid tx) ∧ ∀ k ∈ txs ++ [tx], ∀ op ∈ k.spends, op.txid ≠ txid tx
deriving Decidable

def FreshTxids : List Transaction → List Transaction → Prop
  | _, [] => True
  | txs, tx :: rest => FreshTxid txid txs tx ∧ FreshTxids (txs ++ [tx]) rest

instance FreshTxids.decidable (txs new : List Transaction) :
    Decidable (FreshTxids txid txs new) := by
  induction new generalizing txs with
  | nil => exact .isTrue trivial
  | cons tx rest ih =>
    unfold FreshTxids
    infer_instance

def SpendsForeign (txs : List Transaction) (tx : Transaction) : Prop :=
  ∀ op ∈ tx.spends, ∀ k ∈ txs, txid k = op.txid →
    ∀ output ∈ k.output[op.vout]?, output.scriptPubkey ≠ script
deriving Decidable

/-- The chain can take the transaction: it has the outputs that are spent, and they are unspent. -/
def CanConfirm (tx : Transaction) : Prop :=
  ∀ op ∈ tx.spends, (∃ k ∈ chain, txid k = op.txid ∧ op.vout < k.output.length)
    ∧ ∀ k ∈ chain, op ∉ k.spends
deriving Decidable

variable {txid script chain} {op : OutPoint} {output : TxOut}

theorem mem_placedOutputs {tx : Transaction} :
    (op, output) ∈ placedOutputs txid tx ↔
      txid tx = op.txid ∧ tx.output[op.vout]? = some output := by
  unfold placedOutputs
  rw [List.mem_mapIdx]
  constructor
  · rintro ⟨i, hi, heq⟩
    obtain ⟨rfl, rfl⟩ := Prod.mk.inj heq
    exact ⟨rfl, List.getElem?_eq_getElem hi⟩
  · rintro ⟨hid, hout⟩
    obtain ⟨hi, rfl⟩ := List.getElem?_eq_some_iff.1 hout
    refine ⟨op.vout, hi, ?_⟩
    rw [hid]

theorem mem_unspentOutputs :
    (op, output) ∈ unspentOutputs txid script chain ↔
      (∃ tx ∈ chain, txid tx = op.txid ∧ tx.output[op.vout]? = some output)
        ∧ output.scriptPubkey = script ∧ ∀ tx ∈ chain, op ∉ tx.spends := by
  unfold unspentOutputs
  rw [List.mem_filter, List.mem_flatMap, decide_eq_true_iff]
  simp only [mem_placedOutputs]

theorem nodup_unspentOutputs (h : (chain.map txid).Nodup) :
    ((unspentOutputs txid script chain).map Prod.fst).Nodup := by
  have hall : ((chain.flatMap (placedOutputs txid)).map Prod.fst).Nodup := by
    rw [List.map_flatMap, List.nodup_flatMap]
    constructor
    · intro tx _
      unfold placedOutputs
      rw [List.nodup_iff_injective_getElem]
      intro i j hij
      simpa [Fin.ext_iff] using hij
    · refine (List.pairwise_map.1 h).imp fun {tx tx'} hne => ?_
      -- outputs of two transactions differ in the id
      intro op hop hop'
      obtain ⟨⟨_, output⟩, hmem, rfl⟩ := List.mem_map.1 hop
      obtain ⟨⟨_, output'⟩, hmem', heq⟩ := List.mem_map.1 hop'
      have hid := (mem_placedOutputs.1 hmem).1
      have hid' := (mem_placedOutputs.1 hmem').1
      exact hne (hid.trans ((congrArg OutPoint.txid heq).symm.trans hid'.symm))
  exact hall.sublist (List.filter_sublist.map _)

end Chain

section Runs

variable {Address : Type}

structure InscriberTrace (Address : Type) where
  chain : List Transaction
  mempool : List Transaction
  inscriber : Inscriber Address

def InscriberTrace.known (t : InscriberTrace Address) : List Transaction := t.chain ++ t.mempool

def InscriberTrace.initial (signer : BitcoinSigner) (network : Network) : InscriberTrace Address :=
  ⟨[], [], ⟨signer, network, []⟩⟩

/-- A foreign transaction is confirmed, one of the inscriber is, the queue is synchronised, or an
inscription succeeds.  `inscribe_with_recipient` is `sync`, confirmations, and `inscribe`. -/
inductive InscriberEvent (Address : Type) where
  | receive (tx : Transaction)
  | confirm (tx : Transaction)
  | sync (fails : Txid → Bool)
  | inscribe (message : InscriptionMessage Address) (config : InscriptionConfig)
      (recipient : Option (Recipient Address)) (utxos : List (OutPoint × TxOut))
      (commitFeeRate revealFeeRate : ℕ)

variable (B : RustBitcoin Address)

/-- What `fetch_utxos` may answer: the unspent outputs, in any order. -/
def InscriberTrace.Fetches (t : InscriberTrace Address) (utxos : List (OutPoint × TxOut)) : Prop :=
  utxos.Perm (unspentOutputs B.computeTxid t.inscriber.signer.p2wpkhScriptPubkey t.chain)
deriving Decidable

def InscriberTrace.step (t : InscriberTrace Address) :
    InscriberEvent Address → Option (InscriberTrace Address)
  | .receive tx =>
    if FreshTxid B.computeTxid t.known tx
        ∧ SpendsForeign B.computeTxid t.inscriber.signer.p2wpkhScriptPubkey t.known tx
        ∧ ∀ k ∈ t.chain, ∀ op ∈ tx.spends, op ∉ k.spends then
      some { t with chain := t.chain ++ [tx] }
    else none
  | .confirm tx =>
    if tx ∈ t.mempool ∧ CanConfirm B.computeTxid t.chain tx then
      some { t with chain := t.chain ++ [tx], mempool := t.mempool.erase tx }
    else none
  | .sync fails =>
    let check := fun id =>
      if fails id then none else some (decide (IsConfirmed B.computeTxid t.chain id))
    some { t with inscriber := (t.inscriber.syncContextWithBlockchain check).1 }
  | .inscribe message config recipient utxos commitFeeRate revealFeeRate =>
    if t.Fetches B utxos then
      match t.inscriber.inscribeSynced B message config recipient
        { utxos := some utxos
          commitFeeRate := some commitFeeRate
          revealFeeRate := some revealFeeRate
          broadcastCommit := true
          broadcastReveal := true } with
      | (inscriber, txs, .ok _) =>
        if FreshTxids B.computeTxid t.known txs then
          some { t with mempool := t.mempool ++ txs, inscriber }
        else none
      | _ => none
    else none

def inscriberStep : StepRel (InscriberTrace Address) (InscriberEvent Address) :=
  StepRel.ofPartial (InscriberTrace.step B)

def InscriptionRequest.changeOutput (r : InscriptionRequest Address) : OutPoint :=
  ⟨r.inscriberOutput.revealTxid, 0⟩

/-- At most one inscription is pending, and its reveal transaction is not confirmed. -/
def QueueSafe (t : InscriberTrace Address) : Prop :=
  match t.inscriber.fifoQueue with
  | [] => True
  | [r] => ¬ IsConfirmed B.computeTxid t.chain r.inscriberOutput.revealTxid
  | _ => False

instance (t : InscriberTrace Address) : Decidable (QueueSafe B t) := by
  unfold QueueSafe
  split <;> infer_instance

def InscribesSafely (t : InscriberTrace Address) : InscriberEvent Address → Prop
  | .inscribe .. => QueueSafe B t
  | _ => True

instance (t : InscriberTrace Address) (e : InscriberEvent Address) :
    Decidable (InscribesSafely B t e) := by
  unfold InscribesSafely
  split <;> infer_instance

def InputsSound (queue : List (InscriptionRequest Address)) (inputs : List OutPoint) : Prop :=
  inputs.Nodup ∧ ∀ op ∈ inputs, ∀ r ∈ queue,
    op ∉ r.inscriberOutput.commitRawTx.spends ∧ op ∉ r.inscriberOutput.revealRawTx.spends
deriving Decidable

end Runs

section Invariant

variable {Address : Type} {B : RustBitcoin Address} {known : List Transaction}
  {inscriber : Inscriber Address}

variable (B known inscriber) in
/-- Pending inscriptions are well built, each one spends the change of the one before, and the
change of the last one is not spent at all. -/
structure SpendInv : Prop where
  unique : (known.map B.computeTxid).Nodup
  built : ∀ r ∈ inscriber.fifoQueue, WellBuilt inscriber.signer B r
  broadcast : ∀ r ∈ inscriber.fifoQueue,
    r.inscriberOutput.commitRawTx ∈ known ∧ r.inscriberOutput.revealRawTx ∈ known
  lastUnspent : ∀ r ∈ inscriber.fifoQueue.getLast?, ∀ tx ∈ known, r.changeOutput ∉ tx.spends
  chained : inscriber.fifoQueue.IsChain fun r r' =>
    r.changeOutput ∈ r'.inscriberOutput.commitRawTx.spends

namespace SpendInv

variable {tx : Transaction} {t : InscriberTrace Address}

theorem eq_of_txid (h : SpendInv B known inscriber) {tx' : Transaction} (htx : tx ∈ known)
    (htx' : tx' ∈ known) (hid : B.computeTxid tx = B.computeTxid tx') : tx = tx' :=
  List.inj_on_of_nodup_map h.unique htx htx' hid

theorem perm (h : SpendInv B known inscriber) {known' : List Transaction}
    (hperm : known.Perm known') : SpendInv B known' inscriber where
  unique := (hperm.map _).nodup_iff.1 h.unique
  built := h.built
  broadcast r hr := ⟨hperm.mem_iff.1 (h.broadcast r hr).1, hperm.mem_iff.1 (h.broadcast r hr).2⟩
  lastUnspent r hr tx htx := h.lastUnspent r hr tx (hperm.mem_iff.2 htx)
  chained := h.chained

theorem nodup_append_fresh (h : (known.map B.computeTxid).Nodup)
    (hfresh : FreshTxid B.computeTxid known tx) : ((known ++ [tx]).map B.computeTxid).Nodup := by
  rw [List.map_append, List.map_singleton]
  refine List.Nodup.append h (List.nodup_singleton _) fun id hid hid' => ?_
  obtain ⟨k, hk, rfl⟩ := List.mem_map.1 hid
  exact hfresh.1 k hk (List.mem_singleton.1 hid')

theorem receive (h : SpendInv B known inscriber) (hfresh : FreshTxid B.computeTxid known tx)
    (hforeign : SpendsForeign B.computeTxid inscriber.signer.p2wpkhScriptPubkey known tx) :
    SpendInv B (known ++ [tx]) inscriber where
  unique := nodup_append_fresh h.unique hfresh
  built := h.built
  broadcast r hr :=
    ⟨List.mem_append_left _ (h.broadcast r hr).1, List.mem_append_left _ (h.broadcast r hr).2⟩
  lastUnspent r hr tx' htx' := by
    rcases List.mem_append.1 htx' with htx' | htx'
    · exact h.lastUnspent r hr tx' htx'
    · rw [List.mem_singleton.1 htx']
      intro hspends
      -- the change is locked to the signer
      have hmem := List.mem_of_getLast? hr
      obtain ⟨output, houtput, hscript⟩ := (h.built r hmem).change
      exact hforeign _ hspends _ (h.broadcast r hmem).2 (h.built r hmem).revealTxid.symm output
        houtput hscript
  chained := h.chained

theorem suffix (h : SpendInv B known inscriber) {queue : List (InscriptionRequest Address)}
    (hsuffix : queue <:+ inscriber.fifoQueue) :
    SpendInv B known { inscriber with fifoQueue := queue } where
  unique := h.unique
  built r hr := h.built r (hsuffix.mem hr)
  broadcast r hr := h.broadcast r (hsuffix.mem hr)
  lastUnspent r hr := by
    refine h.lastUnspent r ?_
    obtain ⟨front, hfront⟩ := hsuffix
    rw [← hfront, List.getLast?_append, Option.mem_def.1 hr]
    rfl
  chained := h.chained.suffix hsuffix

variable {r : InscriptionRequest Address}

theorem inscribe (h : SpendInv B known inscriber) (hbuilt : WellBuilt inscriber.signer B r)
    (hfresh : FreshTxids B.computeTxid known
      [r.inscriberOutput.commitRawTx, r.inscriberOutput.revealRawTx])
    (hchain : (inscriber.fifoQueue ++ [r]).IsChain fun r r' =>
      r.changeOutput ∈ r'.inscriberOutput.commitRawTx.spends) :
    SpendInv B (known ++ [r.inscriberOutput.commitRawTx, r.inscriberOutput.revealRawTx])
      { inscriber with fifoQueue := inscriber.fifoQueue ++ [r] } := by
  obtain ⟨hcommit, hreveal, -⟩ := hfresh
  have hknown : known ++ [r.inscriberOutput.commitRawTx, r.inscriberOutput.revealRawTx]
      = known ++ [r.inscriberOutput.commitRawTx] ++ [r.inscriberOutput.revealRawTx] := by
    simp
  constructor
  · rw [hknown]
    exact nodup_append_fresh (nodup_append_fresh h.unique hcommit) hreveal
  · intro r' hr'
    rcases List.mem_append.1 hr' with hr' | hr'
    · exact h.built r' hr'
    · rw [List.mem_singleton.1 hr']
      exact hbuilt
  · intro r' hr'
    rcases List.mem_append.1 hr' with hr' | hr'
    · exact ⟨List.mem_append_left _ (h.broadcast r' hr').1,
        List.mem_append_left _ (h.broadcast r' hr').2⟩
    · rw [List.mem_singleton.1 hr']
      simp
  -- the reveal transaction is new, so nothing spends its change
  · intro r' hr' tx htx hspends
    rw [List.getLast?_append] at hr'
    cases hr'
    rw [hknown] at htx
    exact hreveal.2 tx htx _ hspends hbuilt.revealTxid
  · exact hchain

theorem map_fst_spendableUtxos {head : InscriptionRequest Address}
    {rest : List (InscriptionRequest Address)} (hqueue : inscriber.fifoQueue = head :: rest)
    (hvout : head.feePayerCtx.feePayerUtxoVout = 0) (utxos : List (OutPoint × TxOut)) :
    (inscriber.spendableUtxos utxos).map Prod.fst
      = (inscriber.retainedUtxos utxos).map Prod.fst ++ [head.changeOutput] := by
  rw [Inscriber.spendableUtxos, List.map_append, Inscriber.headUtxo, hqueue,
    InscriptionRequest.changeOutput, ← hvout]
  rfl

theorem isChain_append (h : SpendInv B t.known t.inscriber) (hsafe : QueueSafe B t)
    {utxos : List (OutPoint × TxOut)}
    (hspends : r.inscriberOutput.commitRawTx.spends
      = (t.inscriber.spendableUtxos utxos).map Prod.fst) :
    (t.inscriber.fifoQueue ++ [r]).IsChain fun r r' =>
      r.changeOutput ∈ r'.inscriberOutput.commitRawTx.spends := by
  cases hqueue : t.inscriber.fifoQueue with
  | nil => exact List.isChain_singleton r
  | cons head rest =>
    cases rest with
    | cons _ _ =>
      simp only [QueueSafe, hqueue] at hsafe
    | nil =>
      have hhead : head ∈ t.inscriber.fifoQueue := hqueue ▸ List.mem_cons_self
      refine List.isChain_pair.2 ?_
      rw [hspends, map_fst_spendableUtxos hqueue (h.built head hhead).changeVout]
      exact List.mem_append_right _ (List.mem_singleton.2 rfl)

theorem step {t' : InscriberTrace Address} {e : InscriberEvent Address}
    (h : SpendInv B t.known t.inscriber)
    (hstep : (inscriberStep B).under (InscribesSafely B) t e t') :
    SpendInv B t'.known t'.inscriber := by
  obtain ⟨hstep, hsafe⟩ := hstep
  cases e with
  | receive tx =>
    simp only [inscriberStep, StepRel.ofPartial, InscriberTrace.step] at hstep
    split at hstep
    · rename_i hallowed
      cases hstep
      refine (h.receive hallowed.1 hallowed.2.1).perm ?_
      -- the new transaction stands before the mempool
      unfold InscriberTrace.known
      rw [List.append_assoc, List.append_assoc]
      exact List.perm_append_comm.append_left _
    · cases hstep
  | confirm tx =>
    simp only [inscriberStep, StepRel.ofPartial, InscriberTrace.step] at hstep
    split at hstep
    · rename_i hallowed
      cases hstep
      refine h.perm ?_
      unfold InscriberTrace.known
      rw [List.append_assoc]
      exact (List.perm_cons_erase hallowed.1).append_left _
    · cases hstep
  | sync fails =>
    cases hstep
    exact h.suffix (syncQueue_suffix _ _)
  | inscribe message config recipient utxos commitFeeRate revealFeeRate =>
    simp only [inscriberStep, StepRel.ofPartial, InscriberTrace.step] at hstep
    split at hstep
    · split at hstep
      · rename_i inscriber txs info hinscribe
        split at hstep
        · rename_i hfresh
          cases hstep
          obtain ⟨_, r, hutxos, rfl, rfl, hspends, hbuilt⟩ := inscribeSynced_ok hinscribe
          have hknown : InscriberTrace.known
              { t with
                mempool :=
                  t.mempool ++ [r.inscriberOutput.commitRawTx, r.inscriberOutput.revealRawTx]
                inscriber :=
                  { t.inscriber with fifoQueue := t.inscriber.fifoQueue ++ [r] } }
              = t.known ++ [r.inscriberOutput.commitRawTx, r.inscriberOutput.revealRawTx] :=
            (List.append_assoc _ _ _).symm
          rw [hknown]
          exact h.inscribe hbuilt hfresh (h.isChain_append hsafe hspends)
        · cases hstep
      · cases hstep
    · cases hstep

theorem initial (signer : BitcoinSigner) (network : Network) :
    SpendInv B (@InscriberTrace.initial Address signer network).known
      (InscriberTrace.initial signer network).inscriber where
  unique := List.nodup_nil
  built _ hr := absurd hr List.not_mem_nil
  broadcast _ hr := absurd hr List.not_mem_nil
  lastUnspent _ hr := by cases hr
  chained := List.isChain_nil

end SpendInv

end Invariant

section Inputs

variable {Address : Type} {B : RustBitcoin Address} {t : InscriberTrace Address}
  {utxos : List (OutPoint × TxOut)}

theorem mem_retainedUtxos (hfetch : t.Fetches B utxos) {op : OutPoint} {output : TxOut} :
    (op, output) ∈ t.inscriber.retainedUtxos utxos ↔
      (op, output) ∈ unspentOutputs B.computeTxid t.inscriber.signer.p2wpkhScriptPubkey t.chain
        ∧ op ∉ spentUtxos t.inscriber.fifoQueue := by
  rw [Inscriber.retainedUtxos, List.mem_filter, hfetch.mem_iff, decide_eq_true_iff,
    Inscriber.isP2wpkh, decide_eq_true_iff]
  constructor
  · rintro ⟨hmem, hspent, -⟩
    exact ⟨hmem, hspent⟩
  · rintro ⟨hmem, hspent⟩
    exact ⟨hmem, hspent, (mem_unspentOutputs.1 hmem).2.1⟩

theorem nodup_retainedUtxos (h : SpendInv B t.known t.inscriber) (hfetch : t.Fetches B utxos) :
    ((t.inscriber.retainedUtxos utxos).map Prod.fst).Nodup := by
  have hchain : (t.chain.map B.computeTxid).Nodup := by
    have hunique := h.unique
    rw [InscriberTrace.known, List.map_append] at hunique
    exact hunique.of_append_left
  have hutxos : (utxos.map Prod.fst).Nodup :=
    (hfetch.map _).nodup_iff.2 (nodup_unspentOutputs hchain)
  exact hutxos.sublist (List.filter_sublist.map _)

variable {r : InscriptionRequest Address}

theorem mem_spentUtxos_single (hbuilt : WellBuilt t.inscriber.signer B r) (op : OutPoint) :
    op ∈ spentUtxos [r] ↔
      op ∈ r.inscriberOutput.commitRawTx.spends ∨ op = ⟨r.inscriberOutput.commitTxid, 0⟩ := by
  rw [spentUtxos, InscriptionRequest.spentUtxos, if_pos rfl, List.append_nil, List.mem_append,
    hbuilt.spent, List.mem_singleton]

section

variable (h : SpendInv B t.known t.inscriber)
include h

theorem changeOutput_not_spent (hqueue : t.inscriber.fifoQueue = [r]) :
    r.changeOutput ∉ r.inscriberOutput.commitRawTx.spends
      ∧ r.changeOutput ∉ r.inscriberOutput.revealRawTx.spends := by
  have hr : r ∈ t.inscriber.fifoQueue := hqueue ▸ List.mem_cons_self
  have hlast : r ∈ t.inscriber.fifoQueue.getLast? := by
    rw [hqueue]
    rfl
  exact ⟨h.lastUnspent r hlast _ (h.broadcast r hr).1, h.lastUnspent r hlast _ (h.broadcast r hr).2⟩

theorem inputsSound_single (hfetch : t.Fetches B utxos) (hqueue : t.inscriber.fifoQueue = [r])
    (hunconfirmed : ¬ IsConfirmed B.computeTxid t.chain r.inscriberOutput.revealTxid) :
    InputsSound t.inscriber.fifoQueue ((t.inscriber.spendableUtxos utxos).map Prod.fst) := by
  have hr : r ∈ t.inscriber.fifoQueue := hqueue ▸ List.mem_cons_self
  have hbuilt := h.built r hr
  rw [SpendInv.map_fst_spendableUtxos hqueue hbuilt.changeVout]
  constructor
  · refine (nodup_retainedUtxos h hfetch).append (List.nodup_singleton _) ?_
    intro op hop hop'
    obtain ⟨utxo, hmem, rfl⟩ := List.mem_map.1 hop
    obtain ⟨⟨tx, htx, hid, -⟩, -⟩ := mem_unspentOutputs.1 ((mem_retainedUtxos hfetch).1 hmem).1
    -- a retained output of the reveal transaction would be a confirmed one
    rw [List.mem_singleton.1 hop'] at hid
    exact hunconfirmed ⟨tx, htx, hid⟩
  · intro op hop r' hr'
    rw [hqueue] at hr'
    obtain rfl := List.mem_singleton.1 hr'
    rcases List.mem_append.1 hop with hop | hop
    · obtain ⟨utxo, hmem, rfl⟩ := List.mem_map.1 hop
      obtain ⟨hunspent, hmarked⟩ := (mem_retainedUtxos hfetch).1 hmem
      rw [hqueue, mem_spentUtxos_single hbuilt, not_or] at hmarked
      refine ⟨hmarked.1, ?_⟩
      rw [hbuilt.revealSpends, List.mem_cons, List.mem_singleton, not_or]
      refine ⟨hmarked.2, fun htapscript => ?_⟩
      -- the taproot output of the commit transaction is not locked to the signer
      obtain ⟨⟨tx, htx, hid, houtput⟩, hscript, -⟩ := mem_unspentOutputs.1 hunspent
      rw [htapscript] at hid houtput
      have hcommit : tx = r'.inscriberOutput.commitRawTx :=
        h.eq_of_txid (List.mem_append_left _ htx) (h.broadcast r' hr).1
          (hid.trans hbuilt.commitTxid)
      rw [hcommit] at houtput
      exact hbuilt.tapscript utxo.2 houtput hscript
    · rw [List.mem_singleton.1 hop]
      exact changeOutput_not_spent h hqueue

/-- One pending request that is confirmed: its change is chosen twice. -/
theorem not_nodup_of_isConfirmed (hfetch : t.Fetches B utxos) (hqueue : t.inscriber.fifoQueue = [r])
    (hconfirmed : IsConfirmed B.computeTxid t.chain r.inscriberOutput.revealTxid) :
    ¬ ((t.inscriber.spendableUtxos utxos).map Prod.fst).Nodup := by
  have hr : r ∈ t.inscriber.fifoQueue := hqueue ▸ List.mem_cons_self
  have hbuilt := h.built r hr
  obtain ⟨tx, htx, hid⟩ := hconfirmed
  obtain ⟨output, houtput, hscript⟩ := hbuilt.change
  have hreveal : tx = r.inscriberOutput.revealRawTx :=
    h.eq_of_txid (List.mem_append_left _ htx) (h.broadcast r hr).2 (hid.trans hbuilt.revealTxid)
  have hlast : r ∈ t.inscriber.fifoQueue.getLast? := by
    rw [hqueue]
    rfl
  -- the node reports the change, and the queue adds it once more
  have hunspent : (r.changeOutput, output)
      ∈ unspentOutputs B.computeTxid t.inscriber.signer.p2wpkhScriptPubkey t.chain := by
    refine mem_unspentOutputs.2 ⟨⟨tx, htx, hid, hreveal ▸ houtput⟩, hscript, fun tx' htx' => ?_⟩
    exact h.lastUnspent r hlast tx' (List.mem_append_left _ htx')
  have hmarked : r.changeOutput ∉ spentUtxos t.inscriber.fifoQueue := by
    have hapart := changeOutput_not_spent h hqueue
    rw [hqueue, mem_spentUtxos_single hbuilt, not_or]
    refine ⟨hapart.1, fun heq => hapart.2 ?_⟩
    rw [heq, hbuilt.revealSpends]
    exact List.mem_cons_self
  rw [SpendInv.map_fst_spendableUtxos hqueue hbuilt.changeVout]
  intro hnodup
  exact (List.nodup_append.1 hnodup).2.2 _
    (List.mem_map_of_mem ((mem_retainedUtxos hfetch).2 ⟨hunspent, hmarked⟩)) _
    (List.mem_singleton.2 rfl) rfl

end

/-- **No self double-spend.**  In every run in which inscriptions are made with a safe queue, and
for every answer of the node, the inputs chosen next are sound exactly if the queue is safe. -/
theorem prepareCommitTxInput_sound_iff {signer : BitcoinSigner} {network : Network}
    {es : List (InscriberEvent Address)}
    (hrun : Run ((inscriberStep B).under (InscribesSafely B)) (.initial signer network) es t)
    (hfetch : t.Fetches B utxos) :
    InputsSound t.inscriber.fifoQueue
        ((t.inscriber.prepareCommitTxInput utxos).commitTxInputs.map TxIn.previousOutput)
      ↔ QueueSafe B t := by
  have h : SpendInv B t.known t.inscriber :=
    hrun.invariant (I := fun t => SpendInv B t.known t.inscriber)
      (fun _ _ _ h hstep => h.step hstep) (SpendInv.initial signer network)
  rw [prepareCommitTxInput_spends]
  unfold QueueSafe
  split
  · rename_i hqueue
    refine ⟨fun _ => trivial, fun _ => ⟨?_, ?_⟩⟩
    · have hretained := nodup_retainedUtxos h hfetch
      rw [Inscriber.spendableUtxos, Inscriber.headUtxo, hqueue]
      simpa using hretained
    · rw [hqueue]
      exact fun _ _ r hr => absurd hr List.not_mem_nil
  · rename_i r hqueue
    constructor
    · intro hsound hconfirmed
      exact not_nodup_of_isConfirmed h hfetch hqueue hconfirmed hsound.1
    · exact inputsSound_single h hfetch hqueue
  · rename_i hnil hsingle
    refine ⟨fun hsound => ?_, False.elim⟩
    match hqueue : t.inscriber.fifoQueue with
    | [] => exact hnil hqueue
    | [r] => exact hsingle r hqueue
    | head :: next :: rest =>
      -- the front's change is already spent by the request behind it
      have hhead : head ∈ t.inscriber.fifoQueue := hqueue ▸ List.mem_cons_self
      have hnext : next ∈ t.inscriber.fifoQueue := by
        rw [hqueue]
        exact List.mem_cons_of_mem _ List.mem_cons_self
      have hchained := h.chained
      rw [hqueue, List.isChain_cons_cons] at hchained
      refine (hsound.2 head.changeOutput ?_ next hnext).1 hchained.1
      rw [SpendInv.map_fst_spendableUtxos hqueue (h.built head hhead).changeVout]
      exact List.mem_append_right _ (List.mem_singleton.2 rfl)

def sampleBatchReference : InscriptionMessage SampleAddress := .l1BatchDAReference
  { l1BatchHash := .replicate 32 1
    l1BatchIndex := 1
    daIdentifier := sampleDaIdentifier
    blobId := sampleBlobId }

def sampleFunding : Txid × Transaction :=
  (.ofNat 32 0x1a2e67192695f4125f04c6eb2526609d8c7a1d5363ade19def281a5efe54777c,
    { version := 2
      lockTime := 0
      input := [SampleAddress.key2.spendInput ⟨.replicate 32 12, 0⟩]
      output := [⟨1000000, SampleAddress.key1.script⟩] })

def sampleCommitTxid : Txid :=
  .ofNat 32 0xa951fece6ef82fa162fa711603308350acb485662bfdd6818d63cba5c1ce6971

def sampleRevealTxid : Txid :=
  .ofNat 32 0xde11dd366660d2f9b05c8063a33a8f05bdc5c21cd1c8c365ed4d8ae013eb48c3

def sampleNextCommitTxid : Txid :=
  .ofNat 32 0x08c2d786f08e191227231f89488e1286bf84f2644067a4c37bbffbb9a66083f9

def sampleNextRevealTxid : Txid :=
  .ofNat 32 0x57417cbe41471b5daa41b06046d08dffbf43ff307065d5606d54700eb71cb432

def derInteger (n : ℕ) : Bytes :=
  let bytes := (FixedBytes.ofNat 32 n).bytes
  let bytes := if 0x80 ≤ bytes.headD 0 then 0x00 :: bytes else bytes
  0x02 :: UInt8.ofNat bytes.length :: bytes

def ecdsaSignature (r s : ℕ) : Bytes :=
  let body := derInteger r ++ derInteger s
  0x30 :: UInt8.ofNat body.length :: body ++ [0x01]

def schnorrSignature (r s : ℕ) : Bytes :=
  (FixedBytes.ofNat 32 r).bytes ++ (FixedBytes.ofNat 32 s).bytes ++ [0x01]

def sampleSignatures : List (OutPoint × Bytes) :=
  [(⟨sampleFunding.1, 0⟩, ecdsaSignature
      0x856b316ac9a373eb9e49d936b71744da326ab2ee18e0547c95b8d4bf34998454
      0x1ffc676a1aad6d51d0fcc4709e296ab02dce8fb1ed3f8f830b00272c2bbcf884),
    (⟨sampleCommitTxid, 0⟩, ecdsaSignature
      0xc05e4fff5e80df41c93de8545ac9ee3a5b691e7ff08f7f28fe840774c6fcbb3f
      0x7df951b44cfb72d2943842bed07a985efe009e5b6e10c47c5d712538f2596e11),
    (⟨sampleCommitTxid, 1⟩, schnorrSignature
      0xc4d5ab04200975679516c08b223894eeea3c59962c2e39738b4898f51af30aca
      0x4e3900cb68bf82294a3c2fbd38e49faa35cc1205d96833ac1aed2a057314fc58),
    (⟨sampleRevealTxid, 0⟩, ecdsaSignature
      0x50cf5731328a3f523e8013e9858f3e6efb8329f014a02d18f793c6d58eaf9b27
      0x189856c448a9371daeb27bff6cfecefe1fbb2cb94a5e8bc1139ec15ece229085),
    (⟨sampleNextCommitTxid, 0⟩, ecdsaSignature
      0x2cee76d1df4692be86f384eea96e93ade8370c8013ef0016d8072563f1b7df9c
      0x1836b61e4a35dc9f952e9e7bb22f095b79600f6f17992a51ef8f392cd3966d6a),
    (⟨sampleNextCommitTxid, 1⟩, schnorrSignature
      0x39298a5d664af874ce7b91d4ec63f4b5e80419846424a53361ca79f0345fb93f
      0xd7a34b1965edb90af52e664ae171c71b992c4b555de731114079998033267691)]

def sampleSignature (tx : Transaction) (index : ℕ) : Bytes :=
  ((sampleSignatures.find? fun e => some e.1 = tx.spends[index]?).map Prod.snd).getD []

def sampleTaprootScript : Bytes :=
  0x51 :: 0x20 :: (FixedBytes.ofNat 32
    0x64f0e8b19d44dd7f7e3dfcbbaff61b1b5d8bc4d2749322e9b038ea229897bbbd).bytes

def sampleSigner : BitcoinSigner where
  p2wpkhScriptPubkey := SampleAddress.key1.script
  publicKey := SampleAddress.key1.publicKey
  internalKey := SampleAddress.key1.xCoordinate
  signP2wpkh tx index _ := sampleSignature tx index
  signTapscript tx index _ _ := sampleSignature tx index
  taprootScriptPubkey _ := sampleTaprootScript
  controlBlock _ := 0xC1 :: SampleAddress.key1.xCoordinate.bytes
  taproot_ne _ := by decide +kernel

/-- An input signed by `key1`; inputs that reveal a script have more in their witness. -/
def sampleSignedInput (previousOutput : OutPoint) (rest : List Bytes) : TxIn :=
  { previousOutput
    scriptSig := []
    sequence := 0xFFFFFFFD
    witness :=
      ((sampleSignatures.find? fun e => e.1 = previousOutput).map Prod.snd).getD [] :: rest }

def sampleCommit (previous : OutPoint) (change : ℕ) : Transaction :=
  { version := 2
    lockTime := 0
    input := [sampleSignedInput previous [SampleAddress.key1.publicKey]]
    output := [⟨change, SampleAddress.key1.script⟩, ⟨0, sampleTaprootScript⟩] }

def sampleReveal (commit : Txid) (change : ℕ) : Transaction :=
  { version := 2
    lockTime := 0
    input :=
      [sampleSignedInput ⟨commit, 0⟩ [SampleAddress.key1.publicKey],
        sampleSignedInput ⟨commit, 1⟩
          [encodeItems (basicItems SampleAddress.key1.xCoordinate.bytes
            ++ messageItems scriptBitcoin sampleBatchReference ++ [.opcode opEndif]),
            0xC1 :: SampleAddress.key1.xCoordinate.bytes]]
    output := [⟨change, SampleAddress.key1.script⟩] }

def inscriberBitcoin : RustBitcoin SampleAddress :=
  let txid := txidFrom
    [sampleFunding,
      (sampleCommitTxid, sampleCommit ⟨sampleFunding.1, 0⟩ 999686),
      (sampleRevealTxid, sampleReveal sampleCommitTxid 999264),
      (sampleNextCommitTxid, sampleCommit ⟨sampleRevealTxid, 0⟩ 998950),
      (sampleNextRevealTxid, sampleReveal sampleNextCommitTxid 998528)]
  sampleBitcoin txid txid

def sampleUtxos : List (OutPoint × TxOut) :=
  [(⟨sampleFunding.1, 0⟩, ⟨1000000, SampleAddress.key1.script⟩)]

/-- A synchronisation without an error, and an inscription at two satoshi a byte. -/
def sampleInscription : List (InscriberEvent SampleAddress) :=
  [.sync fun _ => false, .inscribe sampleBatchReference ⟨1⟩ none sampleUtxos 2 2]

theorem prepareCommitTxInput_sound_first :
    ∃ t, Run ((inscriberStep inscriberBitcoin).under (InscribesSafely inscriberBitcoin))
        (.initial sampleSigner .testnet) (.receive sampleFunding.2 :: sampleInscription) t
      ∧ t.Fetches inscriberBitcoin sampleUtxos
      ∧ QueueSafe inscriberBitcoin t
      ∧ (InputsSound t.inscriber.fifoQueue
          ((t.inscriber.prepareCommitTxInput sampleUtxos).commitTxInputs.map TxIn.previousOutput)
        ↔ QueueSafe inscriberBitcoin t) :=
  Run.witnessUnder (P := fun t => t.Fetches inscriberBitcoin sampleUtxos ∧
      QueueSafe inscriberBitcoin t)
    (fun _ hrun ⟨hfetch, hsafe⟩ => ⟨hfetch, hsafe, prepareCommitTxInput_sound_iff hrun hfetch⟩)
    (by decide +kernel)

/-- **The front is not the last.**  After two inscriptions without a block, the next commit
transaction would spend a change that is spent. -/
theorem prepareCommitTxInput_spends_twice :
    ∃ t, Run (inscriberStep inscriberBitcoin) (.initial sampleSigner .testnet)
        (.receive sampleFunding.2 :: sampleInscription ++ sampleInscription) t
      ∧ t.Fetches inscriberBitcoin sampleUtxos
      ∧ (t.inscriber.prepareCommitTxInput sampleUtxos).commitTxInputs.map TxIn.previousOutput
          = [⟨sampleRevealTxid, 0⟩]
      ∧ t.inscriber.fifoQueue.map (fun r => r.inscriberOutput.commitRawTx.spends)
          = [[⟨sampleFunding.1, 0⟩], [⟨sampleRevealTxid, 0⟩]]
      ∧ ¬ InputsSound t.inscriber.fifoQueue
          ((t.inscriber.prepareCommitTxInput sampleUtxos).commitTxInputs.map
            TxIn.previousOutput) :=
  Run.witness (fun _ _ h => h) (by decide +kernel)

end Inputs
