/-
Sending a request again.

A request whose last attempt is not confirmed after six blocks is sent again.  The manager looks at
that attempt only, and it looks before it broadcasts.  Every attempt spends the change of the one
before, so it is the earlier attempt that is confirmed first, and then the request is sent a third
time.

* `resend_of_unconfirmed` — all runs in which the manager sees confirmations.
-/
import ViaCore.ProofMessage

section Resend

variable {Address : Type} {B : RustBitcoin Address} {config : ManagerConfig}
  {node node' : SenderNode Address}

section Conditions

variable (config)

def AttemptConfirmed (db : SenderDb Address) (chain : List (List Txid)) (requestId : ℕ) : Prop :=
  ∃ attempt ∈ db.history, attempt.inscriptionRequestId = requestId
    ∧ checkTxConfirmation chain attempt.revealTxId config.blockConfirmations = true
deriving Decidable

def LastConfirmed (db : SenderDb Address) (chain : List (List Txid)) (requestId : ℕ) : Prop :=
  ∃ last ∈ getLastInscriptionRequestHistory db requestId,
    checkTxConfirmation chain last.revealTxId config.blockConfirmations = true
deriving Decidable

def ManagerPhase.pending : ManagerPhase Address → Option (InscriptionRequestRow Address)
  | .unconfirmed request _ _ => some request
  | .resending request _ _ => some request
  | _ => none

/-- **The condition.**  When a request with a confirmed attempt is looked at, the last one is
confirmed, and no block before the broadcast confirms one. -/
def ConfirmationsSeen (node : SenderNode Address) : NodeEvent → Prop
  | .check _ => ∀ request ∈ node.phase.requests.head?,
      AttemptConfirmed config node.db node.chain request.id →
        LastConfirmed config node.db node.chain request.id
  | .block txids => ∀ request ∈ node.phase.pending,
      ¬ AttemptConfirmed config node.db (node.chain ++ [txids]) request.id
  | _ => True

instance (node : SenderNode Address) (e : NodeEvent) :
    Decidable (ConfirmationsSeen config node e) := by
  unfold ConfirmationsSeen
  split <;> infer_instance

end Conditions

/-! ### Runs -/

variable (config node) in
/-- A request that may be sent again has no confirmed attempt. -/
def ResendInv : Prop :=
  ∀ request ∈ node.phase.pending, ¬ AttemptConfirmed config node.db node.chain request.id

variable {request : InscriptionRequestRow Address}

namespace ResendInv

theorem of_pending_none (h : node.phase.pending = none) : ResendInv config node := by
  intro request hrequest
  cases h.symm.trans hrequest

variable {rest : List (InscriptionRequestRow Address)}

theorem check (hseen : AttemptConfirmed config node.db node.chain request.id →
      LastConfirmed config node.db node.chain request.id) (confirm : Verdict) :
    ResendInv config (node.check config request rest confirm) := by
  unfold SenderNode.check
  cases hlast : getLastInscriptionRequestHistory node.db request.id with
  | none => exact of_pending_none rfl
  | some last =>
    simp only
    split
    · cases confirm with
      | done | failed applied => exact of_pending_none rfl
    · rename_i hunconfirmed
      rintro request' hrequest' hconfirmed
      cases hrequest'
      obtain ⟨last', hlast', hconfirmed'⟩ := hseen hconfirmed
      cases hlast.symm.trans hlast'
      exact hunconfirmed hconfirmed'

theorem fetchBlockHeight (h : ResendInv config node) {last : InscriptionHistoryRow}
    (hphase : node.phase = .unconfirmed request last rest) :
    ResendInv config (node.fetchBlockHeight request last rest) := by
  unfold SenderNode.fetchBlockHeight
  split
  · exact of_pending_none rfl
  · intro request' hrequest'
    cases hrequest'
    exact h request (by rw [hphase]; rfl)

theorem attempt {inscriptionConfig : InscriptionConfig} {answers : SendAnswers}
    {next : ManagerPhase Address} (hnext : next.pending = none) :
    ResendInv config (node.attempt B request inscriptionConfig answers next) := by
  refine of_pending_none ?_
  unfold SenderNode.attempt
  simp only
  split
  · exact hnext
  · rfl

theorem step (h : ResendInv config node) {e : NodeEvent}
    (hstep : ((nodeStep B config).under (ConfirmationsSeen config)) node e node') :
    ResendInv config node' := by
  obtain ⟨hstep, hseen⟩ := hstep
  cases SenderNode.stepped_of_step hstep with
  | other he =>
    intro request hrequest
    rw [AttemptConfirmed, (node.db.step_history he).1]
    exact h request hrequest
  | block => exact hseen
  | @check request rest hphase confirm =>
    exact check (hseen request (by rw [hphase]; rfl)) confirm
  | fetchBlockHeight hphase => exact h.fetchBlockHeight hphase
  | resend | send => exact attempt rfl
  | fetchInflight | fetchNew | finish | fail | restart => exact of_pending_none rfl

end ResendInv

def SenderNode.resent (B : RustBitcoin Address) (node : SenderNode Address)
    (answers : SendAnswers) : Option (InscriptionRequestRow Address × List Transaction) :=
  match node.phase with
  | .resending request inscriptionConfig _ =>
    some (request,
      (sendInscriptionTx B node.inscriber node.db request inscriptionConfig answers).taken)
  | _ => none

variable {answers : SendAnswers} {taken : List Transaction}

theorem SenderNode.pending_of_resent
    (h : node.resent B answers = some (request, taken)) : request ∈ node.phase.pending := by
  unfold SenderNode.resent at h
  split at h
  · rename_i request' _ _ hphase
    cases h
    rw [hphase]
    rfl
  · cases h

/-- **No resend of a confirmed request.**  In every run in which the manager sees confirmations, a
request is only sent again if no attempt has enough of them. -/
theorem resend_of_unconfirmed {signer : BitcoinSigner} {network : Network}
    {chain : List (List Txid)} {es : List NodeEvent} {request : InscriptionRequestRow Address}
    (hrun : Run ((nodeStep B config).under (ConfirmationsSeen config))
      (SenderNode.initial signer network chain) es node)
    (hresent : node.resent B answers = some (request, taken)) :
    ¬ AttemptConfirmed config node.db node.chain request.id := by
  have hinv : ResendInv config node :=
    hrun.invariant (fun _ _ _ h hstep => h.step hstep) (ResendInv.of_pending_none rfl)
  exact hinv request (SenderNode.pending_of_resent hresent)

def sampleThirdCommitTxid : Txid :=
  .ofNat 32 0xd8c4e52fed9a33a7b304a253175973996d70266ed18b3740e5b1bcd7cd61435b

def sampleThirdRevealTxid : Txid :=
  .ofNat 32 0x9bcc2b3016b024af09163e72ea447a27269aa492d1d2c8594e65a4f85445bfbc

def sampleThirdSignatures : List (OutPoint × Bytes) :=
  [(⟨sampleNextRevealTxid, 0⟩, ecdsaSignature
      0x0fdaef90dbc2fde2bedc675bd04b14dcc1265aa682f7cb9784425c8e9ba4b642
      0x2d0cbf2c33b1b07713d0a40d1dd921b90f3f588ded9047929f228c281b83ec9e),
    (⟨sampleThirdCommitTxid, 0⟩, ecdsaSignature
      0xa5fdd190987006d499132bb67fa1f73909327d8e8b5fd6594ddc2eecf6be398c
      0x59f544665768c4e64edfb21a2f97a48c366ae0914a18b3f2c4fe96e9678f7c77),
    (⟨sampleThirdCommitTxid, 1⟩, schnorrSignature
      0xe0f4af4f8185dc1711d36616f9c18452fba35e4ecf521c109e5d98432a184cff
      0x579f0435696ea741fd8006f1da95c6077933c058d20e9281ff984d9ab89e0764)]

def sampleThirdSignature (previousOutput : OutPoint) : Option Bytes :=
  (sampleThirdSignatures.find? fun e => e.1 = previousOutput).map Prod.snd

def sampleThirdSigner : BitcoinSigner :=
  { sampleSigner with
    signP2wpkh := fun tx index _ =>
      ((tx.spends[index]?).bind sampleThirdSignature).getD (sampleSignature tx index)
    signTapscript := fun tx index _ _ =>
      ((tx.spends[index]?).bind sampleThirdSignature).getD (sampleSignature tx index) }

def signThird (tx : Transaction) : Transaction :=
  { tx with
    input := tx.input.map fun input =>
      { input with
        witness := (sampleThirdSignature input.previousOutput).getD [] :: input.witness.tail } }

def resendBitcoin : RustBitcoin SampleAddress :=
  let txid := fun tx =>
    if tx = signThird (sampleCommit ⟨sampleNextRevealTxid, 0⟩ 998214) then sampleThirdCommitTxid
    else if tx = signThird (sampleReveal sampleThirdCommitTxid 997792) then sampleThirdRevealTxid
    else inscriberBitcoin.computeTxid tx
  sampleBitcoin txid txid

def sampleAttempt (blockHeight : ℕ) : SendAnswers :=
  { sampleSendAnswers true .done with blockHeight := some blockHeight }

def sampleLateAttempt : SendAnswers :=
  { sampleAttempt 12 with
    checkTxConfirmation := fun txid => some (txid = sampleRevealTxid)
    inscribe :=
      { (sampleAttempt 12).inscribe with
        utxos := some [(⟨sampleRevealTxid, 0⟩, ⟨999264, SampleAddress.key1.script⟩)] } }

def sampleLook : List NodeEvent := [.fetchInflight, .check .done, .fetchBlockHeight]

/-- The request is sent, and nothing is confirmed for six blocks. -/
def sampleWaitRun : List NodeEvent :=
  (.insertProtocolVersion sampleProtocolVersion :: sealBatch 1 ++ readyBatch 1
    ++ [sampleIteration]).map .other
    ++ [.fetchInflight, .fetchNew, .send (sampleAttempt 0), .finish]
    ++ .replicate 6 (.block []) ++ sampleLook

/-- It is sent again, and the first attempt is confirmed. -/
def sampleResendRun : List NodeEvent :=
  sampleWaitRun ++ [.resend (sampleAttempt 6), .fetchNew, .finish]
    ++ .replicate 5 (.block []) ++ .block [sampleCommitTxid, sampleRevealTxid] :: sampleLook

def sampleResendNode : SenderNode SampleAddress := .initial sampleThirdSigner .testnet []

theorem resend_of_unconfirmed_second :
    ∃ node request taken,
      Run ((nodeStep resendBitcoin sampleManagerConfig).under
        (ConfirmationsSeen sampleManagerConfig)) sampleResendNode sampleWaitRun node
      ∧ node.resent resendBitcoin (sampleAttempt 6) = some (request, taken)
      ∧ taken.map resendBitcoin.computeTxid = [sampleNextCommitTxid, sampleNextRevealTxid]
      ∧ ¬ AttemptConfirmed sampleManagerConfig node.db node.chain request.id := by
  obtain ⟨node, hrun, hresult⟩ : ∃ node, Run ((nodeStep resendBitcoin sampleManagerConfig).under
      (ConfirmationsSeen sampleManagerConfig)) sampleResendNode sampleWaitRun node ∧
      (node.resent resendBitcoin (sampleAttempt 6)).map (fun r => r.2.map resendBitcoin.computeTxid)
        = some [sampleNextCommitTxid, sampleNextRevealTxid] :=
    Run.witnessUnder (fun _ _ h => h) (by decide +kernel)
  obtain ⟨⟨request, taken⟩, hresent, htaken⟩ := Option.map_eq_some_iff.1 hresult
  exact ⟨node, request, taken, hrun, hresent, htaken, resend_of_unconfirmed hrun hresent⟩

/-- **A third attempt.**  The first attempt is confirmed, the second one not yet, and the request is
sent again. -/
theorem resend_of_confirmed :
    ∃ node request taken,
      Run (nodeStep resendBitcoin sampleManagerConfig) sampleResendNode sampleResendRun node
      ∧ node.resent resendBitcoin sampleLateAttempt = some (request, taken)
      ∧ taken.map resendBitcoin.computeTxid = [sampleThirdCommitTxid, sampleThirdRevealTxid]
      ∧ AttemptConfirmed sampleManagerConfig node.db node.chain request.id := by
  obtain ⟨node, hrun, hresult⟩ : ∃ node, Run (nodeStep resendBitcoin sampleManagerConfig)
      sampleResendNode sampleResendRun node ∧
      (node.resent resendBitcoin sampleLateAttempt).any (fun r => decide
        (r.2.map resendBitcoin.computeTxid = [sampleThirdCommitTxid, sampleThirdRevealTxid] ∧
          AttemptConfirmed sampleManagerConfig node.db node.chain r.1.id)) = true :=
    Run.witness (fun _ _ h => h) (by decide +kernel)
  obtain ⟨⟨request, taken⟩, hresent, htaken, hconfirmed⟩ := Option.exists_of_any hresult
  exact ⟨node, request, taken, hrun, hresent, htaken, hconfirmed⟩

end Resend
