/-
When the parser comes back.

`H256::from_slice` and `Address::from_slice` panic on a slice of the wrong length, and three message
parsers call them on whatever a script pushes.  Nothing else in the parser can panic: every other
position is read with a guard or with a conversion that is checked.

* `parseTransaction_returns_iff` — the transactions for which the parser returns.
-/
import ViaCore.ScriptBuilder

section Sizes

variable {Address : Type} (B : RustBitcoin Address)

def pushesAt (instrs : List Instruction) (i : ℕ) : Bool :=
  ((instrs[i]?).bind Instruction.toPushBytes).isSome

/-- A data push at position `i`, if there is one, has `n` bytes. -/
def sizedAt (n : ℕ) (instrs : List Instruction) (i : ℕ) : Bool :=
  ((instrs[i]?).bind Instruction.toPushBytes).all fun b => b.length = n

/-- Two fields of `n` bytes that are read one after the other: the second one matters only once the
first is a push. -/
def pairSizedAt (n : ℕ) (instrs : List Instruction) (i j : ℕ) : Bool :=
  sizedAt n instrs i && (!pushesAt instrs i || sizedAt n instrs j)

/-- The fixed-size fields of a message have their sizes, as far as the parser reads them. -/
def wellSizedMessage (network : Network) (instrs : List Instruction) : Bool :=
  match messageKind instrs with
  | some .systemBootstrapping =>
    (readBootstrapping B network instrs).isNone
      || pairSizedAt 32 instrs (instrs.length - 3) (instrs.length - 2)
  | some .l1BatchDAReference =>
    instrs.length < minL1BatchDAReferenceInstructions || sizedAt 32 instrs 2
  | some .l1ToL2Message =>
    instrs.length < minL1ToL2MessageInstructions || pairSizedAt 20 instrs 2 3
  | _ => true

def wellSized (network : Network) (input : TxIn) : Bool :=
  (revealedInscription B input).all fun r => wellSizedMessage B network r.instructions

end Sizes

section Totality

variable {Address : Type} {B : RustBitcoin Address} {self : MessageParser Address}
  {tx : Transaction} {blockHeight : ℕ} {address : Address} {input : TxIn}
  {instrs : List Instruction} {common : CommonFields Address} {i j n : ℕ}

theorem pushAt_ne_panic : pushAt instrs i ≠ .panic := Outcome.ofOption_ne_panic _

theorem pushAt_fromSlice_eq_panic {α : Type} {k : FixedBytes n → Outcome Unit α} :
    (pushAt instrs i >>= fun b => FixedBytes.fromSlice n b >>= k) = .panic
      ↔ sizedAt n instrs i = false
        ∨ ∃ a : FixedBytes n, pushAt instrs i = .ok a.bytes ∧ k a = .panic := by
  cases hpush : (instrs[i]?).bind Instruction.toPushBytes with
  | none => simp [pushAt, sizedAt, hpush]
  | some b =>
    simp only [pushAt, sizedAt, hpush, Outcome.ofOption_some, Outcome.ok_bind,
      Outcome.bind_eq_panic, FixedBytes.fromSlice_eq_panic, FixedBytes.fromSlice_eq_ok,
      Option.all_some, Outcome.ok.injEq]
    simp [eq_comm]

theorem pushAt_fromSlice_pair_eq_panic {α : Type} {k : FixedBytes n → FixedBytes n → Outcome Unit α}
    (hk : ∀ a b, k a b ≠ .panic) :
    (do
      let first ← pushAt instrs i
      let a ← FixedBytes.fromSlice n first
      let second ← pushAt instrs j
      let b ← FixedBytes.fromSlice n second
      k a b) = .panic ↔ pairSizedAt n instrs i j = false := by
  rw [pushAt_fromSlice_eq_panic]
  have hsecond : ∀ a, (pushAt instrs j >>= fun second =>
      FixedBytes.fromSlice n second >>= fun b => k a b) = .panic ↔ sizedAt n instrs j = false := by
    intro a
    rw [pushAt_fromSlice_eq_panic]
    exact or_iff_left fun ⟨b, _, hb⟩ => hk a b hb
  simp only [hsecond, exists_and_right]
  -- once the first field has its size, it is there exactly when it is a push
  cases hpush : (instrs[i]?).bind Instruction.toPushBytes with
  | none => simp [pushAt, sizedAt, pushesAt, pairSizedAt, hpush]
  | some b =>
    by_cases hb : b.length = n
    · have hfirst : ∃ a : FixedBytes n, pushAt instrs i = .ok a.bytes :=
        ⟨⟨b, hb⟩, by simp [pushAt, hpush]⟩
      simp [sizedAt, pushesAt, pairSizedAt, hpush, hb, hfirst]
    · simp [sizedAt, pairSizedAt, hpush, hb]

theorem parseSystemBootstrapping_eq_panic :
    (parseSystemBootstrapping B self instrs common).2 = .panic
      ↔ (readBootstrapping B self.network instrs).isNone = false
        ∧ pairSizedAt 32 instrs (instrs.length - 3) (instrs.length - 2) = false := by
  unfold parseSystemBootstrapping
  cases readBootstrapping B self.network instrs with
  | none => simp
  | some head =>
    have hfinish : finishBootstrapping instrs common head = .panic ↔ _ :=
      pushAt_fromSlice_pair_eq_panic fun a b => by simp
    simp [hfinish]

theorem parseL1BatchDAReference_eq_panic :
    parseL1BatchDAReference instrs common = .panic
      ↔ ¬ instrs.length < minL1BatchDAReferenceInstructions ∧ sizedAt 32 instrs 2 = false := by
  unfold parseL1BatchDAReference
  split
  · rename_i hshort
    simp [hshort]
  · rename_i hlong
    rw [pushAt_fromSlice_eq_panic]
    simp [hlong, Outcome.bind_eq_panic, pushAt_ne_panic]

theorem parseL1ToL2Message_eq_panic {bridge : Option Address} :
    parseL1ToL2Message B bridge tx instrs common = .panic
      ↔ ¬ instrs.length < minL1ToL2MessageInstructions ∧ pairSizedAt 20 instrs 2 3 = false := by
  have hinput : readL1ToL2Input instrs = .panic
      ↔ ¬ instrs.length < minL1ToL2MessageInstructions ∧ pairSizedAt 20 instrs 2 3 = false := by
    unfold readL1ToL2Input
    split
    · rename_i hshort
      simp [hshort]
    · rename_i hlong
      rw [pushAt_fromSlice_pair_eq_panic]
      · simp [hlong]
      · intro a b
        simp [Outcome.bind_eq_panic, pushAt_ne_panic]
  rw [← hinput]
  unfold parseL1ToL2Message
  simp [Outcome.bind_eq_panic]

theorem parseMessage_eq_panic :
    (parseMessage B self tx instrs common).2 = .panic
      ↔ wellSizedMessage B self.network instrs = false := by
  unfold parseMessage wellSizedMessage
  cases messageKind instrs with
  | none => simp
  | some kind =>
    cases kind with
    | systemBootstrapping => simp [parseSystemBootstrapping_eq_panic]
    | l1BatchDAReference => simp [parseL1BatchDAReference_eq_panic]
    | proposeSequencer | validatorAttestation | proofDAReference =>
      simp only [parseProposeSequencer, parseValidatorAttestation, parseProofDAReference]
      split <;> simp [Outcome.bind_eq_panic, pushAt_ne_panic]
    | l1ToL2Message => simp [parseL1ToL2Message_eq_panic]

/-- **An input makes the parser panic** exactly when its inscription is not well sized. -/
theorem parseInput_eq_panic :
    (parseInput B self tx blockHeight address input).2 = .panic
      ↔ wellSized B self.network input = false := by
  unfold parseInput wellSized
  cases revealedInscription B input with
  | none => simp
  | some r => exact parseMessage_eq_panic

/-- **The parser returns a list** exactly when the transaction has no sender or every inscription in
it is well sized. -/
theorem parseTransaction_returns_iff {ε : Type} (B : RustBitcoin Address)
    (self : MessageParser Address) (tx : Transaction) (blockHeight : ℕ) :
    (∃ ms, (parseTransaction (ε := ε) B self tx blockHeight).2 = .ok ms)
      ↔ senderAddress B self.network tx = none
        ∨ ∀ input ∈ tx.input, wellSized B self.network input = true := by
  unfold parseTransaction
  cases hsender : senderAddress B self.network tx with
  | none => exact ⟨fun _ => .inl rfl, fun _ => ⟨[], rfl⟩⟩
  | some address =>
    -- the sizes that matter depend on the network only, which no input changes
    have hnetwork : ∀ p : MessageParser Address, p.network = self.network →
        ∀ input ∈ tx.input,
          (readInput (ε := ε) B tx blockHeight address p input).1.network = self.network := by
      intro p hp input _
      rw [readInput_fst, MessageParser.store_network, hp]
    have hsized : ∀ p : MessageParser Address, p.network = self.network → ∀ input ∈ tx.input,
        (∃ ms, (readInput (ε := ε) B tx blockHeight address p input).2 = .ok ms)
          ↔ wellSized B self.network input = true := by
      intro p hp input _
      rw [readInput_returns_iff, ne_eq, parseInput_eq_panic, hp, Bool.not_eq_false]
    simp only [reduceCtorEq, false_or]
    exact collect_returns_iff hnetwork hsized rfl

end Totality

/-- A deposit whose receiver is pushed with 19 bytes, behind an ordinary payment input. -/
def shortReceiverTransaction : Transaction :=
  { version := 2
    lockTime := 0
    input :=
      [SampleAddress.key1.spendInput { txid := .replicate 32 1, vout := 0 },
        SampleAddress.key1.revealInput { txid := .replicate 32 2, vout := 1 }
          (basicItems SampleAddress.key1.xCoordinate.bytes
            ++ [.slice l1ToL2Msg, .slice (List.replicate 19 1), .slice (List.replicate 20 2),
              .slice [], .opcode opEndif])]
    output := [] }

/-- Anyone can send such a transaction, and it takes the parser down. -/
theorem parseTransaction_shortReceiver :
    ¬ ∃ ms, (parseTransaction (ε := Empty) scriptBitcoin (.new .testnet) shortReceiverTransaction
      0).2 = .ok ms := by
  have hpanic : (parseTransaction (ε := Empty) scriptBitcoin (.new .testnet)
      shortReceiverTransaction 0).2 = .panic := by
    decide +kernel
  rw [hpanic]
  rintro ⟨ms, hms⟩
  cases hms
