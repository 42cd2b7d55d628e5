/-
The order in which the mempool gives out transactions.

Priority operations go first, by their ids.  Of the transactions of the second layer the oldest one
is given out that pays enough, and the transactions of one account are given out by their nonces.

This rests on the agreement of the structures in the mempool, so it holds for the sequences of
operations in which a rollback finds the account as it was (`Session.RollbackFinds`).

* `mempool_order` — all three orders, along every such sequence;
* `mempool_rollsBack` — a transaction that the keeper gives back can be given out again.
-/
import ViaCore.DepositInclusion

namespace Mempool

variable {Hash Account : Type}

def serialIds (taken : List (Transaction Hash Account)) : List ℕ :=
  taken.filterMap fun
    | .l1 tx => some tx.commonData.serialId
    | _ => none

def nextId (id : ℕ) : ℕ := (id + 1) % 2 ^ 64

variable [LinearOrder Account]

def noncesOf (account : Account) (taken : List (Transaction Hash Account)) : List UInt32 :=
  taken.filterMap fun
    | .l2 tx => if tx.initiatorAccount = account then some tx.nonce else none
    | _ => none

/-- A transaction that could be given out: the current one of an account, with enough fees. -/
def Candidate (s : MempoolStore Hash Account) (filter : L2TxFilter) (tx : L2Tx Account) : Prop :=
  ∃ account txs, s.l2TransactionsPerAccount.lookup account = some txs ∧
    txs.transactions.lookup txs.nonce = some tx ∧
    (scoreForTransaction tx).matchesFilter filter = true

/-- What a call of `next_transaction` gives out. -/
structure NextSpec (s : MempoolStore Hash Account) (filter : L2TxFilter) : Prop where
  returns : ∃ tx s', s.nextTransaction filter = .ok (tx, s') ∧
    (tx = none ↔ s.hasNext filter = false)
  priority : ∀ tx, s.l1Transactions.lookup s.nextPriorityId = some tx →
    tx.commonData.serialId = s.nextPriorityId ∧
      ∃ s', s.nextTransaction filter = .ok (some (.l1 tx), s')
  greatest : ∀ tx s', s.nextTransaction filter = .ok (some (.l2 tx), s') →
    Candidate s filter tx ∧ ∀ tx', Candidate s filter tx' →
      (scoreForTransaction tx').key ≤ (scoreForTransaction tx).key ∧
        tx.receivedTimestampMs ≤ tx'.receivedTimestampMs

/-! ### One call -/

def L1Filed (s : MempoolStore Hash Account) : Prop :=
  ∀ id tx, s.l1Transactions.lookup id = some tx → tx.commonData.serialId = id

namespace MempoolInv

variable {s : MempoolStore Hash Account}

theorem mem_queue_of_candidate (h : MempoolInv s) {filter : L2TxFilter} {tx : L2Tx Account}
    (htx : Candidate s filter tx) : scoreForTransaction tx ∈ s.l2PriorityQueue := by
  obtain ⟨account, txs, htxs, hcurrent, _⟩ := htx
  have haccount := (h.filed account txs htxs _ _ hcurrent).1
  rw [h.index.mem_iff]
  show currentScore _ tx.initiatorAccount = _
  rw [haccount, currentScore, htxs, Option.bind_some, AccountTransactions.score, hcurrent,
    Option.map_some]

theorem nextTransaction_cases (h : MempoolInv s) (filter : L2TxFilter) :
    (∃ tx, s.l1Transactions.lookup s.nextPriorityId = some tx ∧
      s.nextTransaction filter = .ok (some (.l1 tx), { s with
        l1Transactions := s.l1Transactions.erase s.nextPriorityId
        nextPriorityId := nextId s.nextPriorityId })) ∨
    (s.l1Transactions.lookup s.nextPriorityId = none ∧ s.bestPointer filter = none ∧
      s.nextTransaction filter = .ok (none, s)) ∨
    ∃ pointer tx s', s.l1Transactions.lookup s.nextPriorityId = none ∧
      s.bestPointer filter = some pointer ∧ s.nextTransaction filter = .ok (some (.l2 tx), s') ∧
      TakenL2 s pointer tx s' := by
  cases hl1 : s.l1Transactions.lookup s.nextPriorityId with
  | some tx =>
    refine .inl ⟨tx, rfl, ?_⟩
    rw [MempoolStore.nextTransaction, hl1]
    rfl
  | none =>
    refine .inr ?_
    cases hpointer : s.bestPointer filter with
    | none => exact .inl ⟨rfl, rfl, by rw [MempoolStore.nextTransaction, hl1, hpointer]⟩
    | some pointer =>
      obtain ⟨tx, s', hok, htaken⟩ := h.nextTransaction_of_pointer hl1 hpointer
      exact .inr ⟨pointer, tx, s', rfl, rfl, hok, htaken⟩

theorem receivedAtMs_le {p q : MempoolScore Account} (h : p.key ≤ q.key) :
    q.receivedAtMs ≤ p.receivedAtMs := by
  rcases Prod.Lex.le_iff.1 h with hlt | ⟨heq, _⟩
  · exact (OrderDual.toDual_lt_toDual.1 hlt).le
  · exact (OrderDual.toDual_inj.1 heq).ge

theorem nextSpec (h : MempoolInv s) (hl1 : L1Filed s) (filter : L2TxFilter) :
    NextSpec s filter := by
  rcases h.nextTransaction_cases filter with
    ⟨tx, hstored, hok⟩ | ⟨hnone, hpointer, hok⟩ | ⟨pointer, tx, s', hnone, hpointer, hok, htaken⟩
  · refine ⟨⟨_, _, hok, ?_⟩, fun tx' htx' => ?_, fun tx' s' hok' => ?_⟩
    · rw [MempoolStore.hasNext, hstored]
      simp
    · cases hstored.symm.trans htx'
      exact ⟨hl1 _ tx hstored, _, hok⟩
    · cases hok.symm.trans hok'
  · refine ⟨⟨_, _, hok, ?_⟩, fun tx' htx' => ?_, fun tx' s' hok' => ?_⟩
    · rw [MempoolStore.hasNext, hnone, hpointer]
      simp
    · cases hnone.symm.trans htx'
    · cases hok.symm.trans hok'
  · obtain ⟨hqueue, hmatches, hbest⟩ := OrderedSet.rfind_eq_some h.index.sorted hpointer
    refine ⟨⟨_, _, hok, ?_⟩, fun tx' htx' => ?_, fun tx' s'' hok' => ?_⟩
    · rw [MempoolStore.hasNext, hnone, hpointer]
      simp
    · cases hnone.symm.trans htx'
    · rw [hok] at hok'
      obtain ⟨htx, _⟩ := Prod.mk.inj (Except.ok.inj hok')
      obtain rfl := Transaction.l2.inj (Option.some.inj htx)
      obtain ⟨txs, _, htxs, _, hcurrent, _⟩ := htaken.entry
      refine ⟨⟨pointer.account, txs, htxs, hcurrent, htaken.score ▸ hmatches⟩, fun tx' htx' => ?_⟩
      -- every candidate is in the queue, which was searched from its end
      have hmem := h.mem_queue_of_candidate htx'
      obtain ⟨_, _, _, _, hmatches'⟩ := htx'
      have hle := hbest _ hmem hmatches'
      rw [← htaken.score] at hle
      exact ⟨hle, receivedAtMs_le hle⟩

end MempoolInv

/-! ### What one operation adds -/

variable {account : Account} {transactions : List (Transaction Hash Account)}
  {initialNonces : Account → Option UInt32}

variable {s s' : MempoolStore Hash Account}

theorem insert_lookup (h : MempoolInv s)
    (hok : s.insert initialNonces transactions = .ok s') {txs' : AccountTransactions Account}
    (htxs' : s'.l2TransactionsPerAccount.lookup account = some txs') :
    txs'.nonce = ((s.l2TransactionsPerAccount.lookup account).getD
      (.new ((initialNonces account).getD 0))).nonce := by
  induction transactions generalizing s with
  | nil =>
    cases hok
    rw [htxs', Option.getD_some]
  | cons tx rest ih =>
    cases tx with
    | l1 tx =>
      exact @ih { s with
        l1Transactions := s.l1Transactions.insert tx.commonData.serialId tx }
        ⟨h.index, h.filed, h.size⟩ hok
    | l2 tx =>
      rw [ih (h.insertL2Transaction tx initialNonces) hok]
      show (((s.l2TransactionsPerAccount.insert _ _).lookup account).getD _).nonce = _
      by_cases haccount : account = tx.initiatorAccount
      · subst haccount
        rw [AList.lookup_insert, Option.getD_some]
        exact ((h.entry _ _).1.insert rfl).nonce
      · rw [AList.lookup_insert_ne haccount]
    | protocolUpgrade => cases hok

theorem insert_l1Filed (h : L1Filed s) (hok : s.insert initialNonces transactions = .ok s') :
    L1Filed s' ∧ s'.nextPriorityId = s.nextPriorityId := by
  induction transactions generalizing s with
  | nil =>
    cases hok
    exact ⟨h, rfl⟩
  | cons tx rest ih =>
    cases tx with
    | l1 tx =>
      refine @ih { s with
        l1Transactions := s.l1Transactions.insert tx.commonData.serialId tx }
        (fun id stored hstored => ?_) hok
      replace hstored :
        (s.l1Transactions.insert tx.commonData.serialId tx).lookup id = some stored := hstored
      by_cases hid : id = tx.commonData.serialId
      · rw [hid, AList.lookup_insert] at hstored
        rw [hid, ← Option.some.inj hstored]
      · rw [AList.lookup_insert_ne hid] at hstored
        exact h id stored hstored
    | l2 tx => exact @ih (s.insertL2Transaction tx initialNonces) h hok
    | protocolUpgrade => cases hok

theorem getMempoolInfo_lookup (s : MempoolStore Hash Account) (account : Account) :
    s.getMempoolInfo.2.l2TransactionsPerAccount.lookup account = none ∨
      s.getMempoolInfo.2.l2TransactionsPerAccount.lookup account =
        s.l2TransactionsPerAccount.lookup account := by
  rw [MempoolStore.getMempoolInfo, MempoolStore.gc]
  by_cases hfull : s.capacity ≤ s.size
  · rw [if_pos hfull]
    rw [AList.lookup_filterKeys]
    split
    · exact .inr rfl
    · exact .inl rfl
  · rw [if_neg hfull]
    exact .inr rfl

theorem ok_of_map_eq_ok {ε α β : Type} {f : α → β} {x : Except ε α} {b : β}
    (h : x.map f = .ok b) : ∃ a, x = .ok a ∧ f a = b := by
  cases x with
  | error e => cases h
  | ok a => exact ⟨a, rfl, Except.ok.inj h⟩

namespace Session

variable {s s' : Session Hash Account} {op : Operation Hash Account}

/-- What an operation does with priority operations: unless it rolls one back, it gives out nothing,
or the one that is next. -/
theorem apply_l1 (h : MempoolInv s.store) (hl1 : L1Filed s.store) (hok : s.apply op = .ok s') :
    L1Filed s'.store ∧ ((∃ tx, op = .rollback (.l1 tx)) ∨
      serialIds s'.taken = serialIds s.taken ∧
        s'.store.nextPriorityId = s.store.nextPriorityId ∨
      serialIds s'.taken = serialIds s.taken ++ [s.store.nextPriorityId] ∧
        s'.store.nextPriorityId = nextId s.store.nextPriorityId) := by
  cases op with
  | insert transactions initialNonces =>
    obtain ⟨store, hstore, rfl⟩ := ok_of_map_eq_ok hok
    obtain ⟨hfiled, hid⟩ := insert_l1Filed hl1 hstore
    exact ⟨hfiled, .inr (.inl ⟨rfl, hid⟩)⟩
  | nextTransaction filter =>
    obtain ⟨result, hresult, rfl⟩ := ok_of_map_eq_ok hok
    rcases h.nextTransaction_cases filter with
      ⟨tx, hstored, hnext⟩ | ⟨_, _, hnext⟩ | ⟨pointer, tx, store, _, _, hnext, htaken⟩
    -- a priority operation is there, and it has the next id
    · cases hnext.symm.trans hresult
      refine ⟨fun id stored hstored' => ?_, .inr (.inr ⟨?_, rfl⟩)⟩
      · have hne : id ≠ s.store.nextPriorityId := by
          rintro rfl
          rw [AList.lookup_erase] at hstored'
          cases hstored'
        exact hl1 id stored ((AList.lookup_erase_ne hne).symm.trans hstored')
      · rw [← hl1 _ tx hstored]
        exact List.filterMap_append
    · cases hnext.symm.trans hresult
      refine ⟨hl1, .inr (.inl ⟨congrArg serialIds (List.append_nil s.taken), rfl⟩)⟩
    · cases hnext.symm.trans hresult
      refine ⟨fun id stored hstored => ?_, .inr (.inl ⟨?_, htaken.nextPriorityId⟩)⟩
      · exact hl1 id stored (htaken.l1Transactions ▸ hstored)
      · exact List.filterMap_append.trans (List.append_nil _)
  | rollback tx =>
    obtain ⟨store, hstore, rfl⟩ := ok_of_map_eq_ok hok
    cases tx with
    | l1 tx =>
      cases hstore
      exact ⟨hl1, .inl ⟨tx, rfl⟩⟩
    | l2 tx =>
      rw [MempoolStore.rollback] at hstore
      cases htxs : s.store.l2TransactionsPerAccount.lookup tx.initiatorAccount with
      | none =>
        rw [htxs] at hstore
        cases hstore
      | some txs =>
        rw [htxs] at hstore
        cases hstore
        exact ⟨hl1, .inr (.inl ⟨rfl, rfl⟩)⟩
    | protocolUpgrade => cases hstore
  | getMempoolInfo =>
    cases hok
    rw [MempoolStore.getMempoolInfo, MempoolStore.gc]
    by_cases hfull : s.store.capacity ≤ s.store.size
    · rw [if_pos hfull]
      exact ⟨hl1, .inr (.inl ⟨rfl, rfl⟩)⟩
    · rw [if_neg hfull]
      exact ⟨hl1, .inr (.inl ⟨rfl, rfl⟩)⟩

def entry (s : Session Hash Account) (account : Account) : Option (AccountTransactions Account) :=
  s.store.l2TransactionsPerAccount.lookup account

def nonceAt (account : Account) (s : Session Hash Account) : UInt32 :=
  ((s.entry account).map AccountTransactions.nonce).getD 0

theorem nonceAt_of_entry {txs : AccountTransactions Account} (h : s.entry account = some txs) :
    s.nonceAt account = txs.nonce := by
  rw [nonceAt, h, Option.map_some, Option.getD_some]

theorem nonceAt_of_kept (h : s'.entry account = none ∨
    s'.entry account = s.entry account) (hafter : (s'.entry account).isSome) :
    s'.nonceAt account = s.nonceAt account := by
  rcases h with hnone | hsame
  · rw [hnone] at hafter
    cases hafter
  · rw [nonceAt, hsame, nonceAt]

/-- Unless a transaction of the account is rolled back, an operation gives out nothing of the
account, or what is at its nonce. -/
theorem apply_nonces (h : MempoolInv s.store) (hok : s.apply op = .ok s')
    (hop : ∀ tx, op = .rollback (.l2 tx) → tx.initiatorAccount ≠ account)
    (hbefore : (s.entry account).isSome) (hafter : (s'.entry account).isSome) :
    noncesOf account s'.taken = noncesOf account s.taken ∧
        s'.nonceAt account = s.nonceAt account ∨
      noncesOf account s'.taken = noncesOf account s.taken ++ [s.nonceAt account] ∧
        s'.nonceAt account = s.nonceAt account + 1 := by
  cases op with
  | insert transactions initialNonces =>
    obtain ⟨store, hstore, rfl⟩ := ok_of_map_eq_ok hok
    obtain ⟨txs, htxs⟩ := Option.isSome_iff_exists.1 hbefore
    obtain ⟨txs', htxs'⟩ := Option.isSome_iff_exists.1 hafter
    have hnonce := insert_lookup h hstore htxs'
    rw [show s.store.l2TransactionsPerAccount.lookup account = some txs from htxs,
      Option.getD_some] at hnonce
    exact .inl ⟨rfl, by rw [nonceAt_of_entry htxs', nonceAt_of_entry htxs, hnonce]⟩
  | nextTransaction filter =>
    obtain ⟨result, hresult, rfl⟩ := ok_of_map_eq_ok hok
    rcases h.nextTransaction_cases filter with
      ⟨tx, hstored, hnext⟩ | ⟨_, _, hnext⟩ | ⟨pointer, tx, store, _, _, hnext, htaken⟩
    · cases hnext.symm.trans hresult
      exact .inl ⟨List.filterMap_append.trans (List.append_nil _), rfl⟩
    · cases hnext.symm.trans hresult
      exact .inl ⟨congrArg (noncesOf account) (List.append_nil s.taken), rfl⟩
    · cases hnext.symm.trans hresult
      obtain ⟨txs, txs', htxs, htxs', hcurrent, hnonce'⟩ := htaken.entry
      have hfiled := h.filed _ txs htxs _ _ hcurrent
      have happend : noncesOf account (s.taken ++ [.l2 tx]) = noncesOf account s.taken ++
          noncesOf account [(.l2 tx : Transaction Hash Account)] := List.filterMap_append
      -- what is given out is at the nonce of the account of the pointer
      by_cases haccount : account = pointer.account
      · subst haccount
        refine .inr ⟨happend.trans ?_, ?_⟩
        · rw [nonceAt_of_entry htxs, ← hfiled.2.1]
          simp only [noncesOf, List.filterMap_cons, if_pos hfiled.1, List.filterMap_nil]
        · rw [nonceAt_of_entry htxs, ← hnonce']
          exact nonceAt_of_entry htxs'
      · have hother : tx.initiatorAccount ≠ account := fun heq => haccount (heq ▸ hfiled.1)
        refine .inl ⟨happend.trans ?_, nonceAt_of_kept (htaken.others account haccount) hafter⟩
        simp only [noncesOf, List.filterMap_cons, if_neg hother, List.filterMap_nil,
          List.append_nil]
  | rollback tx =>
    obtain ⟨store, hstore, rfl⟩ := ok_of_map_eq_ok hok
    cases tx with
    | l1 tx =>
      cases hstore
      exact .inl ⟨rfl, rfl⟩
    | l2 tx =>
      rw [MempoolStore.rollback] at hstore
      cases htxs : s.store.l2TransactionsPerAccount.lookup tx.initiatorAccount with
      | none =>
        rw [htxs] at hstore
        cases hstore
      | some txs =>
        rw [htxs] at hstore
        cases hstore
        -- only the account of the transaction is set back
        refine .inl ⟨rfl, nonceAt_of_kept (.inr ?_) hafter⟩
        exact AList.lookup_insert_ne (hop tx rfl).symm
    | protocolUpgrade => cases hstore
  | getMempoolInfo =>
    cases hok
    exact .inl ⟨rfl, nonceAt_of_kept (getMempoolInfo_lookup s.store account) hafter⟩

def Sound : StepRel (Session Hash Account) (Operation Hash Account) :=
  (StepRel.ofPartial step).under RollbackFinds

def NoL1Rollback (_ : Session Hash Account) (op : Operation Hash Account) : Prop :=
  ∀ tx, op ≠ .rollback (.l1 tx)

/-- Operations after which an account is still there and that do not roll back its transactions. -/
def KeepsEntry (account : Account) : StepRel (Session Hash Account) (Operation Hash Account) :=
  fun s op s' => Sound s op s' ∧ (s'.entry account).isSome ∧
    ∀ tx, op = .rollback (.l2 tx) → tx.initiatorAccount ≠ account

structure OrderInv (s : Session Hash Account) : Prop where
  inv : MempoolInv s.store
  l1 : L1Filed s.store

theorem apply_of_step (hstep : s.step op = some s') : s.apply op = .ok s' := by
  have hsome : (s.apply op).toOption = some s' := hstep
  cases hok : s.apply op with
  | error panic =>
    rw [hok] at hsome
    cases hsome
  | ok t =>
    rw [hok] at hsome
    rw [Option.some.inj hsome]

theorem OrderInv.step (h : OrderInv s) (hstep : Sound s op s') : OrderInv s' :=
  ⟨step_inv h.inv hstep, (apply_l1 h.inv h.l1 (apply_of_step hstep.1)).1⟩

variable {ops : List (Operation Hash Account)}

theorem orderInv_of_run {nextPriorityId capacity : ℕ}
    (hrun : Run Sound (start nextPriorityId capacity) ops s) : OrderInv s := by
  refine hrun.invariant (I := OrderInv) (fun _ _ _ h => h.step) ⟨MempoolInv.new _ _, ?_⟩
  intro id tx htx
  cases htx

theorem serialIds_of_run (h : OrderInv s) (hrun : Run (Sound.under NoL1Rollback) s ops s') :
    ∃ k, serialIds s'.taken =
      serialIds s.taken ++ List.iterate nextId s.store.nextPriorityId k := by
  refine hrun.handsOut (I := OrderInv) (fun s => serialIds s.taken)
    (fun s => s.store.nextPriorityId) nextId (fun s op s' h hstep => ⟨h.step hstep.1, ?_⟩) h
  rcases (apply_l1 h.inv h.l1 (apply_of_step hstep.1.1)).2 with ⟨tx, htx⟩ | hhanded
  · exact absurd htx (hstep.2 tx)
  · exact hhanded

theorem noncesOf_of_run (h : MempoolInv s.store) (hentry : (s.entry account).isSome)
    (hrun : Run (KeepsEntry account) s ops s') :
    ∃ k, noncesOf account s'.taken =
      noncesOf account s.taken ++ List.iterate (· + 1) (s.nonceAt account) k := by
  refine hrun.handsOut (I := fun s => MempoolInv s.store ∧ (s.entry account).isSome)
    (fun s => noncesOf account s.taken) (nonceAt account) (· + 1)
    (fun s op s' h hstep => ?_) ⟨h, hentry⟩
  obtain ⟨hstep, hafter, hop⟩ := hstep
  exact ⟨⟨step_inv h.1 hstep, hafter⟩, apply_nonces h.1 (apply_of_step hstep.1) hop h.2 hafter⟩

end Session

/-- **The order of the mempool.**  A call gives out the next priority operation, or else the
greatest candidate; until one is rolled back, the ids are consecutive; and as long as an entry
stays, so are the nonces of its account. -/
theorem mempool_order {nextPriorityId capacity : ℕ} {ops : List (Operation Hash Account)}
    {s : Session Hash Account} (hrun : Run Session.Sound (.start nextPriorityId capacity) ops s) :
    (∀ filter, NextSpec s.store filter) ∧
    (∀ ops' s', Run (Session.Sound.under Session.NoL1Rollback) s ops' s' →
      ∃ k, serialIds s'.taken =
        serialIds s.taken ++ List.iterate nextId s.store.nextPriorityId k) ∧
    ∀ account transactions initialNonces s₁ ops' s', s.entry account = none →
      s.apply (.insert transactions initialNonces) = .ok s₁ → (s₁.entry account).isSome →
      Run (Session.KeepsEntry account) s₁ ops' s' →
      ∃ k, noncesOf account s'.taken = noncesOf account s.taken ++
        List.iterate (· + 1) ((initialNonces account).getD 0) k := by
  have h := Session.orderInv_of_run hrun
  refine ⟨h.inv.nextSpec h.l1, fun ops' s' hrun' => Session.serialIds_of_run h hrun', ?_⟩
  intro account transactions initialNonces s₁ ops' s' hnone hok hentry hrun'
  have hinv₁ : MempoolInv s₁.store := by
    have hop : s.RollbackFinds (.insert transactions initialNonces) := trivial
    rcases Session.apply_of_inv h.inv hop with ⟨t, hok', hinv⟩ | herror
    · exact Except.ok.inj (hok'.symm.trans hok) ▸ hinv
    · cases herror.symm.trans hok
  obtain ⟨k, hk⟩ := Session.noncesOf_of_run hinv₁ hentry hrun'
  -- the entry starts with the initial nonce
  obtain ⟨store, hstore, rfl⟩ := ok_of_map_eq_ok hok
  obtain ⟨txs, htxs⟩ := Option.isSome_iff_exists.1 hentry
  have hnonce := insert_lookup h.inv hstore htxs
  rw [show s.store.l2TransactionsPerAccount.lookup account = none from hnone,
    Option.getD_none] at hnonce
  rw [Session.nonceAt_of_entry htxs, hnonce] at hk
  exact ⟨k, hk⟩

def samplePriorityOp : L1Tx ℕ where
  execute := ⟨.replicate 20 0, [], 0⟩
  commonData := ⟨.replicate 20 0, 7, 0, 0, 0, 0, 0, 0, 0, .replicate 20 0, 0⟩

theorem mempool_order_sample : ∃ s : Session ℕ ℕ,
    serialIds s.taken = [7] ∧ noncesOf 1 s.taken = [0] ∧ (∀ filter, NextSpec s.store filter) ∧
      (∃ k, serialIds s.taken = List.iterate nextId 7 k) ∧
      ∃ k, noncesOf 1 s.taken = List.iterate (· + 1) 0 k := by
  have hruns : ((Session.start 7 10).step (.insert [.l2 (sampleTx 1 0 10), .l2 (sampleTx 1 1 11),
        .l1 samplePriorityOp] fun _ => none)).any (fun s₁ =>
      (s₁.entry 1).isSome && (s₁.step (.nextTransaction sampleFilter)).any fun s₂ =>
        (s₂.entry 1).isSome && (s₂.step (.nextTransaction sampleFilter)).any fun s₃ =>
          (s₃.entry 1).isSome && decide (serialIds s₃.taken = [7]) &&
            decide (noncesOf 1 s₃.taken = [0])) = true := by
    decide +kernel
  simp only [Option.any_eq_true, Bool.and_eq_true, decide_eq_true_eq] at hruns
  obtain ⟨s₁, h₁, he₁, s₂, h₂, he₂, s₃, h₃, ⟨he₃, hids⟩, hnonces⟩ := hruns
  have hsound : Run Session.Sound (Session.start 7 10) _ s₃ :=
    .cons ⟨h₁, trivial⟩ (.cons ⟨h₂, trivial⟩ (.cons ⟨h₃, trivial⟩ (.nil _)))
  have hstart : Run Session.Sound (Session.start 7 10 : Session ℕ ℕ) [] (.start 7 10) := .nil _
  obtain ⟨-, hpriority, haccount⟩ := mempool_order hstart
  have hids' := hpriority _ s₃ (.cons ⟨⟨h₁, trivial⟩, nofun⟩
    (.cons ⟨⟨h₂, trivial⟩, nofun⟩ (.cons ⟨⟨h₃, trivial⟩, nofun⟩ (.nil _))))
  have hnonces' := haccount 1 _ _ s₁ _ s₃ rfl (Session.apply_of_step h₁) he₁
    (.cons ⟨⟨h₂, trivial⟩, he₂, nofun⟩ (.cons ⟨⟨h₃, trivial⟩, he₃, nofun⟩ (.nil _)))
  exact ⟨s₃, hids, hnonces, (mempool_order hsound).1, hids', hnonces'⟩

/-- The account of the transaction that was taken is purged and made again, and its transactions
have come at one time. -/
def returnedOperations : List (Operation ℕ ℕ) :=
  [.insert [.l2 (sampleTx 1 0 10), .l2 (sampleTx 2 0 20)] fun _ => none,
    .nextTransaction sampleFilter, .getMempoolInfo,
    .insert [.l2 (sampleTx 1 0 10), .l2 (sampleTx 1 1 10)] fun _ => none,
    .rollback (.l2 (sampleTx 1 0 10))]

/-- **A rollback that drops the wrong pointer.**  A younger transaction is given out although the
older one is the current one of its account and pays enough. -/
theorem mempool_order_younger :
    ∃ s s' : Session ℕ ℕ,
      Run (StepRel.ofPartial Session.step) (Session.start 0 1) returnedOperations s ∧
      s.taken = [.l2 (sampleTx 1 0 10)] ∧ Candidate s.store sampleFilter (sampleTx 1 0 10) ∧
      s.apply (.nextTransaction sampleFilter) = .ok s' ∧
      s'.taken = [.l2 (sampleTx 1 0 10), .l2 (sampleTx 2 0 20)] := by
  have hrun : (runPartial Session.step (Session.start 0 1) returnedOperations).map (fun s =>
      (s.taken, (s.entry 1).bind fun txs => txs.transactions.lookup txs.nonce,
        (s.step (.nextTransaction sampleFilter)).map Session.taken)) =
      some ([.l2 (sampleTx 1 0 10)], some (sampleTx 1 0 10),
        some [.l2 (sampleTx 1 0 10), .l2 (sampleTx 2 0 20)]) := by
    decide +kernel
  obtain ⟨s, hs, hvalues⟩ := Option.map_eq_some_iff.1 hrun
  obtain ⟨htaken, hvalues⟩ := Prod.mk.inj hvalues
  obtain ⟨hentry, hnext⟩ := Prod.mk.inj hvalues
  obtain ⟨txs, htxs, hcurrent⟩ := Option.bind_eq_some_iff.1 hentry
  obtain ⟨s', hs', htaken'⟩ := Option.map_eq_some_iff.1 hnext
  refine ⟨s, s', Run.of_runPartial hs, htaken, ⟨1, txs, htxs, hcurrent, rfl⟩, ?_, htaken'⟩
  exact Session.apply_of_step hs'

section Rollback

variable {Hash Account : Type} [LinearOrder Account] {tx : L2Tx Account}

/-- The rollback succeeds, the structures agree, and the next call can give the transaction out. -/
def MempoolIo.RollsBack (self : MempoolIo Hash Account) (tx : L2Tx Account) : Prop :=
  ∃ self', self.rollback (.l2 tx) = .ok self' ∧ MempoolInv self'.mempool ∧ ∀ filter,
    (scoreForTransaction tx).matchesFilter filter = true → Candidate self'.mempool filter tx

/-- Where the account is at the nonce, the transaction that is inserted becomes the current one. -/
theorem candidate_insert {s : MempoolStore Hash Account} {txs : AccountTransactions Account}
    (htxs : s.l2TransactionsPerAccount.lookup tx.initiatorAccount = some txs)
    (hnonce : txs.nonce = tx.nonce) {filter : L2TxFilter}
    (hmatches : (scoreForTransaction tx).matchesFilter filter = true) :
    Candidate (s.insertL2Transaction tx fun _ => none) filter tx := by
  have hinsert : (txs.insert tx).1 =
      { txs with transactions := txs.transactions.insert tx.nonce tx } := by
    rw [AccountTransactions.insert, if_neg (hnonce ▸ UInt32.lt_irrefl _)]
  refine ⟨tx.initiatorAccount, (txs.insert tx).1, ?_, ?_, hmatches⟩
  · rw [MempoolStore.insertL2Transaction, htxs]
    exact AList.lookup_insert _
  · rw [hinsert, hnonce, AList.lookup_insert]

/-- **Giving a transaction back.**  From any state in which the structures agree, after operations
whose rollbacks find their accounts, a transaction whose account is found is rolled back. -/
theorem mempool_rollsBack {ops : List (Operation Hash Account)} {s s' : Session Hash Account}
    (h : MempoolInv s.store) (hrun : Run Session.Sound s ops s')
    (hfinds : s'.RollbackFinds (.rollback (.l2 tx)))
    (io : MempoolIo Hash Account) (hio : io.mempool = s'.store) : io.RollsBack tx := by
  have hinv := hrun.invariant (I := fun s => MempoolInv s.store) (fun _ _ _ => Session.step_inv) h
  rw [Session.RollbackFinds] at hfinds
  split at hfinds
  · rename_i txs htxs
    obtain ⟨mempool, hok, hinv', hentry⟩ := hinv.rollback_l2 htxs hfinds.1
      (hfinds.2.imp_right Option.isNone_iff_eq_none.1)
    refine ⟨{ io with mempool := mempool.insertL2Transaction tx fun _ => none }, ?_,
      hinv'.insertL2Transaction tx fun _ => none, fun _ => candidate_insert hentry rfl⟩
    rw [MempoolIo.rollback, hio, hok]
    rfl
  · exact hfinds.elim

theorem mempool_rollsBack_sample : ∃ s : Session ℕ ℕ, s.taken = [.l2 (sampleTx 1 0 10)] ∧
    MempoolIo.RollsBack ⟨s.store, sampleFilter, 0, []⟩ (sampleTx 1 0 10) := by
  obtain ⟨s, hrun, htaken, hfinds⟩ : ∃ s, Run ((StepRel.ofPartial Session.step).under
      Session.RollbackFinds) (Session.start 0 10) (sampleOperations.take 2) s ∧
      s.taken = [.l2 (sampleTx 1 0 10)] ∧ s.RollbackFinds (.rollback (.l2 (sampleTx 1 0 10))) :=
    Run.witnessUnder (fun _ _ h => h) (by decide +kernel)
  exact ⟨s, htaken, mempool_rollsBack (MempoolInv.new 0 10) hrun hfinds _ rfl⟩

end Rollback

end Mempool
