/-
Bitcoin script as bytes.

A script is a byte string; a builder appends data pushes and opcodes to it, and a reader walks over
it instruction by instruction.

* `nextInstruction_encode` — the reader takes back exactly the item that was appended last;
* `instructions_encodeItems` — reading a whole script gives back its items.

One thing does not read back as it was written: the opcode `0x00` is the push of the empty string
(`ScriptItem.readBack`).
-/
import ViaCore.Bytes

/-- What a reader of scripts yields: the bytes of a data push, or any other opcode. -/
inductive Instruction where
  | pushBytes (b : Bytes)
  | op (o : UInt8)
  deriving DecidableEq

namespace Instruction

/-- The pushed bytes, `None` for an opcode that is not a data push. -/
def toPushBytes : Instruction → Option Bytes
  | pushBytes b => some b
  | op _ => none

end Instruction

inductive ScriptItem where
  | slice (b : Bytes)
  | opcode (o : UInt8)
  deriving DecidableEq

namespace ScriptItem

/-- The items a builder can append: slices below the four-byte length limit, and opcodes that do
not announce data bytes. -/
def Pushable : ScriptItem → Prop
  | slice b => b.length < 2 ^ 32
  | opcode o => o = 0 ∨ 0x4F ≤ o.toNat

/-- The instruction a reader sees for an appended item; the zero opcode is the empty push. -/
def readBack : ScriptItem → Instruction
  | slice b => .pushBytes b
  | opcode o => if o = 0 then .pushBytes [] else .op o

@[simp] theorem readBack_slice (b : Bytes) : (slice b).readBack = .pushBytes b := rfl

/-- The bytes of one item: a push carries its length in one of four forms. -/
def encode : ScriptItem → Bytes
  | opcode o => [o]
  | slice b =>
    let n := b.length
    if n < 0x4C then UInt8.ofNat n :: b
    else if n < 2 ^ 8 then 0x4C :: UInt8.ofNat n :: b
    else if n < 2 ^ 16 then 0x4D :: UInt8.ofNat n :: UInt8.ofNat (n / 2 ^ 8) :: b
    else
      0x4E :: UInt8.ofNat n :: UInt8.ofNat (n / 2 ^ 8) :: UInt8.ofNat (n / 2 ^ 16)
        :: UInt8.ofNat (n / 2 ^ 24) :: b

end ScriptItem

def encodeItems (items : List ScriptItem) : Bytes := items.flatMap ScriptItem.encode

def takeData (n : ℕ) (b : Bytes) : Option (Instruction × Bytes) :=
  if n ≤ b.length then some (.pushBytes (b.take n), b.drop n) else none

/-- Read one instruction off a nonempty script: `none` when the script ends inside it. -/
def nextInstruction (o : UInt8) (rest : Bytes) : Option (Instruction × Bytes) :=
  if o.toNat < 0x4C then takeData o.toNat rest
  else if o = 0x4C then
    match rest with
    | a :: rest => takeData a.toNat rest
    | _ => none
  else if o = 0x4D then
    match rest with
    | a :: b :: rest => takeData (a.toNat + b.toNat * 2 ^ 8) rest
    | _ => none
  else if o = 0x4E then
    match rest with
    | a :: b :: c :: d :: rest =>
      takeData (a.toNat + b.toNat * 2 ^ 8 + c.toNat * 2 ^ 16 + d.toNat * 2 ^ 24) rest
    | _ => none
  else some (.op o, rest)

/-- Read at most `fuel` instructions; an error (`none`) ends the reading. -/
def instructionsUpTo : ℕ → Bytes → List (Option Instruction)
  | 0, _ => []
  | _ + 1, [] => []
  | fuel + 1, o :: rest =>
    match nextInstruction o rest with
    | some (i, rest') => some i :: instructionsUpTo fuel rest'
    | none => [none]

/-- All instructions of a script: every instruction takes at least one byte. -/
def instructions (script : Bytes) : List (Option Instruction) :=
  instructionsUpTo script.length script

/-! ### The reader inverts the builder -/

theorem takeData_append (b rest : Bytes) :
    takeData b.length (b ++ rest) = some (.pushBytes b, rest) := by
  rw [takeData, if_pos (by simp)]
  simp

theorem takeData_of_eq {n : ℕ} {b rest : Bytes} (h : n = b.length) :
    takeData n (b ++ rest) = some (.pushBytes b, rest) := by
  rw [h]
  exact takeData_append b rest

/-- **One item reads back.**  The bytes of a pushable item are not empty, and the reader takes them
off whatever follows. -/
theorem nextInstruction_encode {item : ScriptItem} (h : item.Pushable) (rest : Bytes) :
    ∃ o tail, item.encode ++ rest = o :: tail ∧
      nextInstruction o tail = some (item.readBack, rest) := by
  cases item with
  | opcode o =>
    refine ⟨o, rest, rfl, ?_⟩
    by_cases h0 : o = 0
    · subst h0
      unfold nextInstruction
      rw [if_pos (by decide)]
      exact takeData_append [] rest
    · have hge : 0x4F ≤ o.toNat := h.resolve_left h0
      have hne : ∀ m : UInt8, m.toNat < 0x4F → o ≠ m := by
        rintro m hm rfl
        omega
      unfold nextInstruction
      rw [if_neg (by omega), if_neg (hne 0x4C (by decide)),
        if_neg (hne 0x4D (by decide)), if_neg (hne 0x4E (by decide))]
      simp [ScriptItem.readBack, h0]
  | slice b =>
    have hlt : b.length < 2 ^ 32 := h
    unfold ScriptItem.encode
    simp only
    -- one case for each of the four length forms
    by_cases h1 : b.length < 0x4C
    · rw [if_pos h1]
      have hn : (UInt8.ofNat b.length).toNat = b.length := by
        rw [UInt8.toNat_ofNat']
        omega
      refine ⟨_, _, rfl, ?_⟩
      unfold nextInstruction
      rw [if_pos (by omega)]
      exact takeData_of_eq hn
    · rw [if_neg h1]
      by_cases h2 : b.length < 2 ^ 8
      · rw [if_pos h2]
        refine ⟨_, _, rfl, ?_⟩
        unfold nextInstruction
        rw [if_neg (by decide), if_pos rfl]
        refine takeData_of_eq ?_
        rw [UInt8.toNat_ofNat']
        omega
      · rw [if_neg h2]
        by_cases h3 : b.length < 2 ^ 16
        · rw [if_pos h3]
          refine ⟨_, _, rfl, ?_⟩
          unfold nextInstruction
          rw [if_neg (by decide), if_neg (by decide), if_pos rfl]
          refine takeData_of_eq ?_
          simp only [UInt8.toNat_ofNat']
          omega
        · rw [if_neg h3]
          refine ⟨_, _, rfl, ?_⟩
          unfold nextInstruction
          rw [if_neg (by decide), if_neg (by decide), if_neg (by decide), if_pos rfl]
          refine takeData_of_eq ?_
          simp only [UInt8.toNat_ofNat']
          omega

variable {items : List ScriptItem}

theorem instructionsUpTo_encodeItems (h : ∀ i ∈ items, i.Pushable) :
    ∀ {fuel : ℕ}, (encodeItems items).length ≤ fuel →
      instructionsUpTo fuel (encodeItems items) = items.map fun i => some i.readBack := by
  induction items with
  | nil =>
    intro fuel _
    cases fuel <;> rfl
  | cons item items ih =>
    intro fuel hfuel
    obtain ⟨o, tail, heq, hnext⟩ :=
      nextInstruction_encode (h item List.mem_cons_self) (encodeItems items)
    have hcons : encodeItems (item :: items) = o :: tail := heq
    -- an item takes at least one byte, so the fuel suffices
    have hlen : (encodeItems items).length ≤ tail.length := by
      have htot : (item.encode ++ encodeItems items).length = (o :: tail).length := by rw [heq]
      have hpos : 0 < item.encode.length := by
        cases item with
        | opcode o => simp [ScriptItem.encode]
        | slice b =>
          unfold ScriptItem.encode
          simp only
          split_ifs <;> simp
      simp only [List.length_append, List.length_cons] at htot
      omega
    rw [hcons] at hfuel ⊢
    rcases fuel with _ | fuel
    · simp at hfuel
    · simp only [List.length_cons, Nat.add_le_add_iff_right] at hfuel
      rw [instructionsUpTo, hnext]
      simp only [List.map_cons, List.cons.injEq, true_and]
      exact ih (fun i hi => h i (List.mem_cons_of_mem item hi)) (hlen.trans hfuel)

theorem instructions_encodeItems (h : ∀ i ∈ items, i.Pushable) :
    instructions (encodeItems items) = items.map fun i => some i.readBack :=
  instructionsUpTo_encodeItems h le_rfl
