/-
Synchronising the queue of the inscriber when the node does not answer.

The loop pops an inscription, asks whether it is confirmed, and pushes it back if it is not.  An
error of the question leaves the loop in between, and then the inscription is gone, although nothing
is known about it.  And the change of the inscription at the front is an input of the next commit
transaction, even if another one in the queue spends it.

* `syncContext_keeps_iff` — when nothing pending is forgotten.
-/
import ViaCore.DoubleSpend

open Inscriber (syncQueue)

section ContextSync

variable {Address : Type} {check : Txid → Option Bool} {self : Inscriber Address}

/-- The answer of the node about an inscription; `none` is an error. -/
def InscriptionRequest.confirmation (check : Txid → Option Bool) (r : InscriptionRequest Address) :
    Option Bool :=
  check r.feePayerCtx.feePayerUtxoTxid

/-- **The loop** drops the confirmed inscriptions.  Then the queue is empty, or the next one stays,
or the question about it failed and it is dropped too. -/
theorem syncQueue_spec (queue : List (InscriptionRequest Address)) :
    ∃ dropped, (∀ r ∈ dropped, r.confirmation check = some true) ∧
      (queue = dropped ∧ syncQueue check queue = ([], true) ∨
        ∃ r rest, queue = dropped ++ r :: rest ∧
          (r.confirmation check = some false ∧ syncQueue check queue = (r :: rest, true) ∨
            r.confirmation check = none ∧ syncQueue check queue = (rest, false))) := by
  induction queue with
  | nil => exact ⟨[], List.forall_mem_nil _, .inl ⟨rfl, rfl⟩⟩
  | cons r rest ih =>
    cases hr : r.confirmation check with
    | none =>
      refine ⟨[], List.forall_mem_nil _, .inr ⟨r, rest, rfl, .inr ⟨hr, ?_⟩⟩⟩
      rw [InscriptionRequest.confirmation] at hr
      rw [syncQueue, hr]
    | some confirmed =>
      cases confirmed with
      | false =>
        refine ⟨[], List.forall_mem_nil _, .inr ⟨r, rest, rfl, .inl ⟨hr, ?_⟩⟩⟩
        rw [InscriptionRequest.confirmation] at hr
        rw [syncQueue, hr]
      | true =>
        -- the inscription is dropped, and the loop goes on with the rest
        obtain ⟨dropped, hdropped, hrest⟩ := ih
        have hsync : syncQueue check (r :: rest) = syncQueue check rest := by
          rw [InscriptionRequest.confirmation] at hr
          rw [syncQueue, hr]
        refine ⟨r :: dropped, List.forall_mem_cons.2 ⟨hr, hdropped⟩, ?_⟩
        rw [hsync]
        rcases hrest with ⟨rfl, hsynced⟩ | ⟨r', rest', rfl, hsynced⟩
        · exact .inl ⟨rfl, hsynced⟩
        · exact .inr ⟨r', rest', rfl, hsynced⟩

variable {r : InscriptionRequest Address}

theorem mem_spentUtxos {queue : List (InscriptionRequest Address)}
    (hr : r ∈ queue) {input : TxIn} (hinput : input ∈ r.commitTxInput) :
    input.previousOutput ∈ spentUtxos queue := by
  have hown : ∀ isLast, input.previousOutput ∈ r.spentUtxos isLast := fun isLast =>
    List.mem_append_left _ (List.mem_append_left _ (List.mem_map_of_mem hinput))
  induction queue with
  | nil => cases hr
  | cons head rest ih =>
    cases rest with
    | nil =>
      obtain rfl := List.mem_singleton.1 hr
      exact hown true
    | cons next rest =>
      rw [spentUtxos]
      · rcases List.mem_cons.1 hr with rfl | hr
        · exact List.mem_append_left _ (hown false)
        · exact List.mem_append_right _ (ih hr)
      · exact List.cons_ne_nil _ _

/-! ### The synchronisation -/

/-- **Nothing pending is forgotten**: the queue lost confirmed inscriptions at its front, and no
commit transaction takes what the others spend. -/
structure KeepsUnconfirmed (check : Txid → Option Bool) (before after : Inscriber Address) :
    Prop where
  dropped : ∃ dropped, before.fifoQueue = dropped ++ after.fifoQueue ∧
    ∀ r ∈ dropped, r.confirmation check = some true
  excluded : ∀ r ∈ before.fifoQueue, r.confirmation check ≠ some true → ∀ input ∈ r.commitTxInput,
    ∀ utxos, input.previousOutput ∉
      (after.prepareCommitTxInput utxos).commitTxInputs.map TxIn.previousOutput

def InscriptionRequest.change (r : InscriptionRequest Address) : OutPoint :=
  ⟨r.inscriberOutput.revealTxid, r.feePayerCtx.feePayerUtxoVout⟩

/-- The node answers the question about the first inscription that it does not report confirmed, and
the change of that inscription is not spent by it or another one. -/
def FirstUnconfirmedUsable (check : Txid → Option Bool)
    (queue : List (InscriptionRequest Address)) :
    Prop :=
  ∀ head ∈ queue.find? fun r => r.confirmation check ≠ some true, head.confirmation check ≠ none ∧
    ∀ r ∈ queue, r.confirmation check ≠ some true →
      ∀ input ∈ r.commitTxInput, input.previousOutput ≠ head.change

theorem mem_commitTxInputs_iff {queue : List (InscriptionRequest Address)} (hr : r ∈ queue)
    {input : TxIn} (hinput : input ∈ r.commitTxInput) (hqueue : self.fifoQueue = queue)
    (utxos : List (OutPoint × TxOut)) :
    input.previousOutput ∈
        (self.prepareCommitTxInput utxos).commitTxInputs.map TxIn.previousOutput ↔
      ∃ head ∈ queue.head?, input.previousOutput = head.change := by
  have hnode : input.previousOutput ∉ (self.retainedUtxos utxos).map Prod.fst := by
    intro hmem
    obtain ⟨utxo, hutxo, heq⟩ := List.mem_map.1 hmem
    exact (of_decide_eq_true (List.mem_filter.1 hutxo).2).1
      (heq ▸ mem_spentUtxos (hqueue ▸ hr) hinput)
  rw [prepareCommitTxInput_spends, Inscriber.spendableUtxos, List.map_append, List.mem_append,
    or_iff_right hnode, Inscriber.headUtxo, hqueue]
  cases queue with
  | nil => cases hr
  | cons head rest => simp [InscriptionRequest.change]

theorem find_unconfirmed {dropped rest : List (InscriptionRequest Address)}
    (hdropped : ∀ r ∈ dropped, r.confirmation check = some true)
    (hr : r.confirmation check ≠ some true) :
    (dropped ++ r :: rest).find? (fun r => r.confirmation check ≠ some true) = some r := by
  rw [List.find?_append, List.find?_eq_none.2 fun r hr => by simp [hdropped r hr], Option.none_or]
  exact List.find?_cons_of_pos (by simpa using hr)

/-- **A synchronisation keeps what is pending** exactly when the first inscription that is not
reported confirmed can be used, whether the call succeeds or not. -/
theorem syncContext_keeps_iff (self : Inscriber Address) (check : Txid → Option Bool) :
    KeepsUnconfirmed check self (self.syncContextWithBlockchain check).1 ↔
      FirstUnconfirmedUsable check self.fifoQueue := by
  obtain ⟨dropped, hdropped, hqueue⟩ := @syncQueue_spec _ check self.fifoQueue
  have hafter : (self.syncContextWithBlockchain check).1.fifoQueue =
      (syncQueue check self.fifoQueue).1 := rfl
  rcases hqueue with ⟨hall, hsync⟩ | ⟨head, rest, hqueue, ⟨hhead, hsync⟩ | ⟨hhead, hsync⟩⟩
  · -- everything is confirmed
    refine iff_of_true ⟨⟨dropped, ?_, hdropped⟩, fun r hr hunconfirmed => ?_⟩ fun r hr => ?_
    · rw [hafter, hsync, List.append_nil, hall]
    · exact absurd (hdropped r (hall ▸ hr)) hunconfirmed
    · have hmem : r ∈ self.fifoQueue := List.mem_of_find?_eq_some hr
      have hunconfirmed := List.find?_some hr
      rw [hdropped r (hall ▸ hmem)] at hunconfirmed
      cases hunconfirmed
  · -- the front is `head`, and everything that is not confirmed is still there
    rw [hsync] at hafter
    have hfind := @find_unconfirmed _ check head dropped rest hdropped (by rw [hhead]; decide)
    rw [FirstUnconfirmedUsable, hqueue, hfind]
    have hmem : ∀ r ∈ dropped ++ head :: rest, r.confirmation check ≠ some true →
        r ∈ head :: rest := fun r hr hunconfirmed =>
      (List.mem_append.1 hr).resolve_left fun hr => hunconfirmed (hdropped r hr)
    constructor
    · rintro ⟨-, hexcluded⟩ _ ⟨⟩
      refine ⟨by rw [hhead]; exact Option.some_ne_none _, fun r hr hunconfirmed input hinput => ?_⟩
      have hnot := hexcluded r (hqueue ▸ hr) hunconfirmed input hinput []
      rw [mem_commitTxInputs_iff (hmem r hr hunconfirmed) hinput hafter] at hnot
      exact fun heq => hnot ⟨head, rfl, heq⟩
    · intro husable
      refine ⟨⟨dropped, by rw [hafter, hqueue], hdropped⟩, ?_⟩
      intro r hr hunconfirmed input hinput utxos
      rw [hqueue] at hr
      rw [mem_commitTxInputs_iff (hmem r hr hunconfirmed) hinput hafter]
      rintro ⟨_, ⟨⟩, heq⟩
      exact (husable head rfl).2 r hr hunconfirmed input hinput heq
  · refine iff_of_false ?_ fun hanswered => ?_
    · rintro ⟨⟨dropped', hqueue', hdropped'⟩, -⟩
      -- the inscription in question is among the dropped ones
      rw [hafter, hsync, hqueue, List.append_cons] at hqueue'
      have hsame : dropped' = dropped ++ [head] := (List.append_cancel_right hqueue').symm
      have hconfirmed := hdropped' head (hsame ▸ List.mem_append_right _ List.mem_cons_self)
      cases hhead.symm.trans hconfirmed
    · refine (hanswered head ?_).1 hhead
      rw [hqueue]
      exact find_unconfirmed hdropped (by rw [hhead]; decide)

def samplePending (commitTxid revealTxid : Txid) (spent : OutPoint) :
    InscriptionRequest SampleAddress where
  message := sampleBatchReference
  inscriberOutput :=
    { commitTxid, revealTxid
      commitRawTx := sampleCommit spent 999686
      commitTxFeeRate := 2
      revealRawTx := sampleReveal commitTxid 999264
      revealTxFeeRate := 2
      isBroadcasted := true }
  feePayerCtx := ⟨revealTxid, 0, 999264⟩
  commitTxInput := [unsignedInput spent]

/-- **One question that fails.**  The only pending inscription is dropped, and the output that it
spends is taken again. -/
theorem syncContext_forgets :
    let self : Inscriber SampleAddress := ⟨sampleSigner, .testnet,
      [samplePending sampleCommitTxid sampleRevealTxid ⟨sampleFunding.1, 0⟩]⟩
    (self.syncContextWithBlockchain fun _ => none).2 = false ∧
      ((self.syncContextWithBlockchain fun _ => none).1.prepareCommitTxInput
        sampleUtxos).commitTxInputs.map TxIn.previousOutput = [⟨sampleFunding.1, 0⟩] ∧
      ¬ KeepsUnconfirmed (fun _ => none) self (self.syncContextWithBlockchain fun _ => none).1 := by
  intro self
  have hspent : ((self.syncContextWithBlockchain fun _ => none).1.prepareCommitTxInput
      sampleUtxos).commitTxInputs.map TxIn.previousOutput = [⟨sampleFunding.1, 0⟩] := by
    decide +kernel
  refine ⟨rfl, hspent, fun hkeeps => ?_⟩
  refine hkeeps.excluded _ List.mem_cons_self ?_ _ List.mem_cons_self sampleUtxos
    (hspent ▸ List.mem_cons_self)
  exact (Option.some_ne_none true).symm

end ContextSync
