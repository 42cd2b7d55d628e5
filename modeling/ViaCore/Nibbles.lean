/-
Keys of the state tree and their nibbles.

A key of the Merkle tree is a 256-bit number; the tree has radix 16, so a path from the root is a
sequence of half bytes.  A sequence is kept as 32 bytes of which the unused ones are zero, so that
equality and hashing of sequences can look at the bytes.

* `nibbleDigits` — keys read nibble by nibble.
-/
import Mathlib
import ViaCore.RadixTrie

namespace MerkleTree

abbrev Key := BitVec 256

/-- Half a byte.  The code has `u8` values that are masked or shifted to four bits. -/
abbrev Nibble := BitVec 4

abbrev NibblesBytes := Vector (BitVec 8) 32

namespace Key

/-- The `i`th of the four `u64` words of a key, the least significant one first. -/
def word (key : Key) (i : ℕ) : BitVec 64 := key.extractLsb' (64 * i) 64

def bit (key : Key) (index : ℕ) : Bool := key.getLsbD index

def toBigEndian (key : Key) : NibblesBytes :=
  Vector.ofFn fun i => key.extractLsb' (8 * (31 - i)) 8

end Key

structure Nibbles where
  nibbleCount : ℕ
  bytes : NibblesBytes
  deriving DecidableEq

def updateByte (bytes : NibblesBytes) (i : ℕ) (f : BitVec 8 → BitVec 8) : NibblesBytes :=
  bytes.mapIdx fun j byte => if j = i then f byte else byte

variable {n : ℕ} {key' key : Key}

namespace Nibbles

def empty : Nibbles := ⟨0, Vector.replicate 32 0⟩

/-- The nibble of a key at an index below 64, the most significant one first. -/
def nibble (key : Key) (index : ℕ) : Nibble :=
  let u64Idx := 3 - index / 16
  let shiftInU64 := (15 - index % 16) * 4
  (key.word u64Idx >>> shiftInU64).setWidth 4

/-- The first `nibbleCount` nibbles of a key, at most 64. -/
def new (key : Key) (nibbleCount : ℕ) : Nibbles :=
  let bytes := key.toBigEndian
  -- the unused nibble of the last used byte, then the unused bytes
  let bytes :=
    if nibbleCount % 2 = 1 then updateByte bytes (nibbleCount / 2) (· &&& 0xf0#8) else bytes
  let meaningfulBytes := (nibbleCount + 1) / 2
  ⟨nibbleCount, bytes.mapIdx fun i byte => if meaningfulBytes ≤ i then 0 else byte⟩

def fromParts (bytes : NibblesBytes) (nibbleCount : ℕ) : Nibbles := ⟨nibbleCount, bytes⟩

/-- The parent sequence and the last nibble, if there is one. -/
def splitLast (nibbles : Nibbles) : Option (Nibbles × Nibble) :=
  if nibbles.nibbleCount = 0 then none
  else
    let lastByteIdx := (nibbles.nibbleCount - 1) / 2
    let lastByte := nibbles.bytes[lastByteIdx]?.getD 0
    if nibbles.nibbleCount % 2 = 1 then
      some (⟨nibbles.nibbleCount - 1, updateByte nibbles.bytes lastByteIdx fun _ => 0⟩,
        (lastByte >>> 4).setWidth 4)
    else
      some (⟨nibbles.nibbleCount - 1, updateByte nibbles.bytes lastByteIdx (· &&& 0xf0#8)⟩,
        lastByte.setWidth 4)

theorem splitLast_lt {nibbles parent : Nibbles} {last : Nibble}
    (h : nibbles.splitLast = some (parent, last)) : parent.nibbleCount < nibbles.nibbleCount := by
  unfold splitLast at h
  split at h
  · cases h
  · split at h <;> cases h <;> simp only <;> omega

/-! ### Bytes and nibbles -/

theorem and_f0_eq_iff (x y : BitVec 8) :
    x &&& 0xf0#8 = y &&& 0xf0#8 ↔ (x >>> 4).setWidth 4 = (y >>> 4).setWidth 4 := by
  have hmask : ∀ x : BitVec 8, x &&& 0xf0#8 = (x >>> 4).setWidth 4 ++ 0#4 := by decide +kernel
  have hhigh : ∀ x : BitVec 4, ((x ++ 0#4 : BitVec 8) >>> 4).setWidth 4 = x := by decide +kernel
  rw [hmask, hmask]
  refine ⟨fun h => ?_, fun h => by rw [h]⟩
  have h' := congrArg (fun z : BitVec 8 => (z >>> 4).setWidth 4) h
  simpa only [hhigh] using h'

theorem byte_eq_iff (x y : BitVec 8) :
    x = y ↔ (x >>> 4).setWidth 4 = (y >>> 4).setWidth 4 ∧
      (x.setWidth 4 : Nibble) = y.setWidth 4 := by
  have hsplit : ∀ x : BitVec 8, (x >>> 4).setWidth 4 ++ (x.setWidth 4 : Nibble) = x := by
    decide +kernel
  refine ⟨fun h => by rw [h]; exact ⟨rfl, rfl⟩, fun ⟨hhigh, hlow⟩ => ?_⟩
  rw [← hsplit x, ← hsplit y, hhigh, hlow]

theorem nibble_even (key : Key) {i : ℕ} (hi : i < 32) :
    nibble key (2 * i) = (key.toBigEndian[i] >>> 4).setWidth 4 := by
  apply BitVec.eq_of_getLsbD_eq
  intro j hj
  simp only [nibble, Key.word, Key.toBigEndian, Vector.getElem_ofFn, BitVec.getLsbD_setWidth,
    BitVec.getLsbD_ushiftRight, BitVec.getLsbD_extractLsb']
  have h1 : (15 - 2 * i % 16) * 4 + j < 64 := by omega
  have h2 : 4 + j < 8 := by omega
  have h3 : 64 * (3 - 2 * i / 16) + ((15 - 2 * i % 16) * 4 + j) = 8 * (31 - i) + (4 + j) := by omega
  rw [h3]
  simp [h1, h2]

theorem nibble_odd (key : Key) {i : ℕ} (hi : i < 32) :
    nibble key (2 * i + 1) = key.toBigEndian[i].setWidth 4 := by
  apply BitVec.eq_of_getLsbD_eq
  intro j hj
  simp only [nibble, Key.word, Key.toBigEndian, Vector.getElem_ofFn, BitVec.getLsbD_setWidth,
    BitVec.getLsbD_ushiftRight, BitVec.getLsbD_extractLsb']
  have h1 : (15 - (2 * i + 1) % 16) * 4 + j < 64 := by omega
  have h2 : j < 8 := by omega
  have h3 : 64 * (3 - (2 * i + 1) / 16) + ((15 - (2 * i + 1) % 16) * 4 + j) = 8 * (31 - i) + j := by
    omega
  rw [h3]
  simp [h1, h2]

theorem bytes_new (key : Key) (n : ℕ) {i : ℕ} (hi : i < 32) :
    (new key n).bytes[i] = if 2 * i + 2 ≤ n then key.toBigEndian[i]
      else if 2 * i + 1 = n then key.toBigEndian[i] &&& 0xf0#8 else 0 := by
  by_cases hodd : n % 2 = 1
  · simp only [new, if_pos hodd, updateByte, Vector.getElem_mapIdx]
    by_cases h1 : 2 * i + 2 ≤ n
    · rw [if_pos h1, if_neg (by omega), if_neg (by omega)]
    · rw [if_neg h1]
      by_cases h2 : 2 * i + 1 = n
      · rw [if_pos h2, if_neg (by omega), if_pos (by omega)]
      · rw [if_neg h2, if_pos (by omega)]
  · simp only [new, if_neg hodd, Vector.getElem_mapIdx]
    by_cases h1 : 2 * i + 2 ≤ n
    · rw [if_pos h1, if_neg (by omega)]
    · rw [if_neg h1, if_pos (by omega), if_neg (by omega)]

@[simp] theorem nibbleCount_new (key : Key) (n : ℕ) : (new key n).nibbleCount = n := rfl

theorem ext_bytes {a b : Nibbles} (hcount : a.nibbleCount = b.nibbleCount)
    (hbytes : ∀ i (h : i < 32), a.bytes[i] = b.bytes[i]) : a = b := by
  cases a
  cases b
  cases hcount
  rw [Nibbles.mk.injEq]
  exact ⟨rfl, Vector.ext hbytes⟩

theorem new_zero (key : Key) : new key 0 = empty := by
  refine ext_bytes rfl fun i hi => ?_
  rw [bytes_new key 0 hi, if_neg (by omega), if_neg (by omega)]
  simp [empty]

theorem new_eq_new_iff {m : ℕ} (hm : m ≤ 64) (hn : n ≤ 64) :
    new key m = new key' n ↔ m = n ∧ ∀ i < n, nibble key i = nibble key' i := by
  constructor
  · intro h
    have hcount : m = n := congrArg Nibbles.nibbleCount h
    refine ⟨hcount, fun i hi => ?_⟩
    subst hcount
    have hbyte : (new key m).bytes[i / 2] = (new key' m).bytes[i / 2] := by simp only [h]
    rw [bytes_new _ _ (by omega), bytes_new _ _ (by omega)] at hbyte
    -- a byte holds two nibbles, the even one in its upper half
    rcases Nat.mod_two_eq_zero_or_one i with heven | hodd
    · obtain ⟨a, rfl⟩ : ∃ a, i = 2 * a := ⟨i / 2, by omega⟩
      have ha : 2 * a / 2 = a := by omega
      simp only [ha] at hbyte
      rw [nibble_even _ (by omega), nibble_even _ (by omega)]
      by_cases hwhole : 2 * a + 2 ≤ m
      · rw [if_pos hwhole, if_pos hwhole] at hbyte
        rw [hbyte]
      · rw [if_neg hwhole, if_neg hwhole, if_pos (by omega), if_pos (by omega)] at hbyte
        exact (and_f0_eq_iff _ _).1 hbyte
    · obtain ⟨a, rfl⟩ : ∃ a, i = 2 * a + 1 := ⟨i / 2, by omega⟩
      have ha : (2 * a + 1) / 2 = a := by omega
      simp only [ha] at hbyte
      rw [if_pos (by omega), if_pos (by omega)] at hbyte
      rw [nibble_odd _ (by omega), nibble_odd _ (by omega), hbyte]
  · rintro ⟨rfl, hagree⟩
    refine ext_bytes rfl fun i hi => ?_
    rw [bytes_new _ _ hi, bytes_new _ _ hi]
    by_cases hwhole : 2 * i + 2 ≤ m
    · rw [if_pos hwhole, if_pos hwhole, byte_eq_iff, ← nibble_even _ hi, ← nibble_even _ hi,
        ← nibble_odd _ hi, ← nibble_odd _ hi]
      exact ⟨hagree _ (by omega), hagree _ (by omega)⟩
    · rw [if_neg hwhole, if_neg hwhole]
      -- the last byte may be half used
      by_cases hhalf : 2 * i + 1 = m
      · rw [if_pos hhalf, if_pos hhalf, and_f0_eq_iff, ← nibble_even _ hi, ← nibble_even _ hi]
        exact hagree _ (by omega)
      · rw [if_neg hhalf, if_neg hhalf]

theorem splitLast_new (key : Key) (hn : n < 64) :
    (new key (n + 1)).splitLast = some (new key n, nibble key n) := by
  have hidx : n / 2 < 32 := by omega
  have hlast : (new key (n + 1)).bytes[n / 2]?.getD 0 = (new key (n + 1)).bytes[n / 2] := by
    rw [Vector.getElem?_eq_getElem hidx]
    rfl
  unfold splitLast
  rw [if_neg (by simp)]
  simp only [nibbleCount_new, Nat.add_sub_cancel, hlast, bytes_new _ _ hidx]
  -- the nibble that is split off is the upper or the lower half of its byte
  rcases Nat.mod_two_eq_zero_or_one n with heven | hodd
  · obtain ⟨a, rfl⟩ : ∃ a, n = 2 * a := ⟨n / 2, by omega⟩
    have ha : 2 * a / 2 = a := by omega
    rw [if_pos (by omega), if_neg (by omega), if_pos (by omega)]
    refine congrArg some (Prod.ext (ext_bytes rfl fun i hi => ?_) ?_)
    · simp only [updateByte, Vector.getElem_mapIdx, bytes_new _ _ hi, ha]
      by_cases hia : i = a
      · rw [if_pos hia, if_neg (by omega), if_neg (by omega)]
      · rw [if_neg hia]
        by_cases hwhole : 2 * i + 2 ≤ 2 * a
        · rw [if_pos hwhole, if_pos (by omega)]
        · rw [if_neg hwhole, if_neg (by omega), if_neg (by omega), if_neg (by omega)]
    · have hmask : ∀ x : BitVec 8,
          ((x &&& 0xf0#8) >>> 4).setWidth 4 = ((x >>> 4).setWidth 4 : Nibble) := by
        decide +kernel
      simp only [ha, hmask]
      rw [nibble_even _ (by omega)]
  · obtain ⟨a, rfl⟩ : ∃ a, n = 2 * a + 1 := ⟨n / 2, by omega⟩
    have ha : (2 * a + 1) / 2 = a := by omega
    rw [if_neg (by omega), if_pos (by omega)]
    refine congrArg some (Prod.ext (ext_bytes rfl fun i hi => ?_) ?_)
    · simp only [updateByte, Vector.getElem_mapIdx, bytes_new _ _ hi, ha]
      by_cases hia : i = a
      · rw [if_pos hia, if_pos (by omega), if_neg (by omega), if_pos (by omega)]
      · rw [if_neg hia]
        by_cases hwhole : 2 * i + 2 ≤ 2 * a + 1
        · rw [if_pos hwhole, if_pos (by omega)]
        · rw [if_neg hwhole, if_neg (by omega), if_neg (by omega), if_neg (by omega)]
    · simp only [ha]
      rw [nibble_odd _ (by omega)]

end Nibbles

/-! ### Subtrees by number -/

/-- The number, from the left, of the subtree that the first `n` nibbles of a key lead to. -/
def prefixIndex (key : Key) (n : ℕ) : ℕ := key.toNat / 2 ^ (256 - 4 * n)

theorem toNat_nibble (key : Key) (hn : n < 64) :
    (Nibbles.nibble key n).toNat = key.toNat / 2 ^ (252 - 4 * n) % 16 := by
  have hextract : Nibbles.nibble key n = key.extractLsb' (252 - 4 * n) 4 := by
    apply BitVec.eq_of_getLsbD_eq
    intro j hj
    simp only [Nibbles.nibble, Key.word, BitVec.getLsbD_setWidth, BitVec.getLsbD_ushiftRight,
      BitVec.getLsbD_extractLsb']
    have h1 : (15 - n % 16) * 4 + j < 64 := by omega
    have h2 : 64 * (3 - n / 16) + ((15 - n % 16) * 4 + j) = 252 - 4 * n + j := by omega
    rw [h2]
    simp [h1]
  rw [hextract, BitVec.extractLsb'_toNat, Nat.shiftRight_eq_div_pow]

theorem prefixIndex_zero (key : Key) : prefixIndex key 0 = 0 :=
  Nat.div_eq_of_lt key.isLt

theorem prefixIndex_lt (key : Key) (hn : n ≤ 64) : prefixIndex key n < 2 ^ (4 * n) := by
  rw [prefixIndex, Nat.div_lt_iff_lt_mul (by positivity), ← pow_add,
    show 4 * n + (256 - 4 * n) = 256 by omega]
  exact key.isLt

theorem prefixIndex_full (key : Key) : prefixIndex key 64 = key.toNat := by
  simp [prefixIndex]

theorem prefixIndex_succ (key : Key) (hn : n < 64) :
    prefixIndex key (n + 1) = 16 * prefixIndex key n + (Nibbles.nibble key n).toNat := by
  have hpow : 2 ^ (256 - 4 * n) = 2 ^ (252 - 4 * n) * 16 := by
    rw [show 256 - 4 * n = (252 - 4 * n) + 4 by omega, pow_add]
    rfl
  rw [toNat_nibble key hn, prefixIndex, prefixIndex, hpow, ← Nat.div_div_eq_div_mul,
    show 256 - 4 * (n + 1) = 252 - 4 * n by omega]
  omega

theorem prefixIndex_succ_eq_iff (hn : n < 64) :
    prefixIndex key (n + 1) = prefixIndex key' (n + 1) ↔
      prefixIndex key n = prefixIndex key' n ∧ Nibbles.nibble key n = Nibbles.nibble key' n := by
  rw [prefixIndex_succ key hn, prefixIndex_succ key' hn, ← BitVec.toNat_inj]
  omega

theorem prefixIndex_eq_iff (hn : n ≤ 64) :
    prefixIndex key n = prefixIndex key' n ↔
      ∀ i < n, Nibbles.nibble key i = Nibbles.nibble key' i := by
  induction n with
  | zero =>
    simp [prefixIndex_zero]
  | succ n ih =>
    rw [prefixIndex_succ_eq_iff (by omega), ih (by omega)]
    constructor
    · rintro ⟨hbelow, hlast⟩ i hi
      rcases Nat.lt_succ_iff_lt_or_eq.1 hi with hlt | rfl
      · exact hbelow i hlt
      · exact hlast
    · exact fun h => ⟨fun i hi => h i (by omega), h n (by omega)⟩

theorem new_eq_new_iff_prefixIndex (hn : n ≤ 64) :
    Nibbles.new key n = Nibbles.new key' n ↔ prefixIndex key n = prefixIndex key' n := by
  rw [Nibbles.new_eq_new_iff hn hn, prefixIndex_eq_iff hn]
  exact ⟨fun h => h.2, fun h => ⟨rfl, h⟩⟩

theorem exists_key_nibble (key : Key) (hn : n < 64) (c : Nibble) :
    ∃ key', Nibbles.new key' n = Nibbles.new key n ∧ Nibbles.nibble key' n = c := by
  have hidx := prefixIndex_lt key hn.le
  have hlt : (16 * prefixIndex key n + c.toNat) * 2 ^ (252 - 4 * n) < 2 ^ 256 := by
    have hsum : 16 * prefixIndex key n + c.toNat < 2 ^ (4 * n) * 2 ^ 4 := by omega
    calc (16 * prefixIndex key n + c.toNat) * 2 ^ (252 - 4 * n)
        < 2 ^ (4 * n) * 2 ^ 4 * 2 ^ (252 - 4 * n) :=
          Nat.mul_lt_mul_of_pos_right hsum (by positivity)
      _ = 2 ^ 256 := by
          rw [← pow_add, ← pow_add]
          congr 1
          omega
  refine ⟨BitVec.ofNat 256 ((16 * prefixIndex key n + c.toNat) * 2 ^ (252 - 4 * n)), ?_⟩
  set key' : Key := BitVec.ofNat 256 ((16 * prefixIndex key n + c.toNat) * 2 ^ (252 - 4 * n))
  have hkey' : prefixIndex key' (n + 1) = 16 * prefixIndex key n + c.toNat := by
    rw [prefixIndex, BitVec.toNat_ofNat, Nat.mod_eq_of_lt hlt,
      show 256 - 4 * (n + 1) = 252 - 4 * n by omega, Nat.mul_div_cancel _ (by positivity)]
  rw [prefixIndex_succ key' hn] at hkey'
  rw [new_eq_new_iff_prefixIndex (by omega), ← BitVec.toNat_inj]
  omega

def nibbleDigits : Digits Key Nibbles Nibble where
  depth := 64
  digit := Nibbles.nibble
  pos := Nibbles.new
  pos_eq_iff := Nibbles.new_eq_new_iff
  ext := fun {key key'} h => by
    rw [← prefixIndex_eq_iff le_rfl, prefixIndex_full, prefixIndex_full] at h
    exact BitVec.eq_of_toNat_eq h

end MerkleTree
