/-
Numbers as big-endian byte strings.

A number is written either in a fixed number of bytes, with zeros in front (`toBe`), or in as few
bytes as it needs (`minimalBe`).  Both are read back by `fromBe`.

* `fromBe_toBe`, `toBe_fromBe` — reading and writing undo each other;
* `toBe_inj` — two numbers that fit are equal when their bytes are;
* `byteLength_le_iff` — how many bytes a number needs;
* `minimalBe_inj` — the shortest bytes determine the number.
-/
import ViaCore.Bytes

/-- The number that some bytes write, the most significant byte first. -/
def fromBe (bytes : Bytes) : ℕ := bytes.foldl (fun n b => 256 * n + b.toNat) 0

/-- The last `width` bytes of a number. -/
def toBe : ℕ → ℕ → Bytes
  | 0, _ => []
  | width + 1, n => toBe width (n / 256) ++ [UInt8.ofNat n]

/-! ### A fixed number of bytes -/

@[simp] theorem fromBe_nil : fromBe [] = 0 := rfl

theorem fromBe_append_singleton (bytes : Bytes) (b : UInt8) :
    fromBe (bytes ++ [b]) = 256 * fromBe bytes + b.toNat := by
  rw [fromBe, List.foldl_append]
  rfl

theorem fromBe_append (a b : Bytes) : fromBe (a ++ b) = fromBe a * 256 ^ b.length + fromBe b := by
  induction b using List.reverseRecOn with
  | nil => simp
  | append_singleton b x ih =>
    rw [← List.append_assoc, fromBe_append_singleton, fromBe_append_singleton, ih,
      List.length_append, List.length_singleton, pow_succ]
    ring

theorem fromBe_replicate_zero (k : ℕ) : fromBe (List.replicate k 0) = 0 := by
  induction k with
  | zero => rfl
  | succ k ih =>
    rw [List.replicate_succ', fromBe_append_singleton, ih]
    rfl

theorem fromBe_zeros_append (k : ℕ) (bytes : Bytes) :
    fromBe (List.replicate k 0 ++ bytes) = fromBe bytes := by
  rw [fromBe_append, fromBe_replicate_zero, zero_mul, zero_add]

theorem fromBe_lt (bytes : Bytes) : fromBe bytes < 256 ^ bytes.length := by
  induction bytes using List.reverseRecOn with
  | nil => exact Nat.one_pos
  | append_singleton bytes b ih =>
    have hb : b.toNat < 256 := b.toNat_lt
    rw [fromBe_append_singleton, List.length_append, List.length_singleton, pow_succ]
    omega

@[simp] theorem length_toBe (width n : ℕ) : (toBe width n).length = width := by
  induction width generalizing n with
  | zero => rfl
  | succ width ih => rw [toBe, List.length_append, ih, List.length_singleton]

theorem fromBe_toBe_mod (width n : ℕ) : fromBe (toBe width n) = n % 256 ^ width := by
  induction width generalizing n with
  | zero => rw [pow_zero, Nat.mod_one]; rfl
  | succ width ih =>
    rw [toBe, fromBe_append_singleton, ih, pow_succ', Nat.mod_mul, UInt8.toNat_ofNat']
    omega

theorem fromBe_toBe {width n : ℕ} (h : n < 256 ^ width) : fromBe (toBe width n) = n := by
  rw [fromBe_toBe_mod, Nat.mod_eq_of_lt h]

theorem toBe_fromBe (bytes : Bytes) : toBe bytes.length (fromBe bytes) = bytes := by
  induction bytes using List.reverseRecOn with
  | nil => rfl
  | append_singleton bytes b ih =>
    have hb : b.toNat < 256 := b.toNat_lt
    have hdiv : (256 * fromBe bytes + b.toNat) / 256 = fromBe bytes := by omega
    have hlast : UInt8.ofNat (256 * fromBe bytes + b.toNat) = b := by
      apply UInt8.toNat_inj.1
      rw [UInt8.toNat_ofNat']
      omega
    rw [List.length_append, List.length_singleton, fromBe_append_singleton, toBe, hdiv, hlast, ih]

theorem toBe_inj {width m n : ℕ} (hm : m < 256 ^ width) (hn : n < 256 ^ width) :
    toBe width m = toBe width n ↔ m = n := by
  refine ⟨fun h => ?_, fun h => h ▸ rfl⟩
  rw [← fromBe_toBe hm, h, fromBe_toBe hn]

theorem toBe_add {width n : ℕ} (h : n < 256 ^ width) (k : ℕ) :
    toBe (k + width) n = List.replicate k 0 ++ toBe width n := by
  have hlen : (List.replicate k 0 ++ toBe width n).length = k + width := by
    rw [List.length_append, List.length_replicate, length_toBe]
  rw [← toBe_fromBe (List.replicate k 0 ++ toBe width n), hlen, fromBe_zeros_append, fromBe_toBe h]

theorem FixedBytes.ofNat_bytes (width n : ℕ) : (FixedBytes.ofNat width n).bytes = toBe width n := by
  induction width generalizing n with
  | zero => rfl
  | succ width ih =>
    rw [toBe, ← ih]
    show (List.range (width + 1)).map (fun i => UInt8.ofNat (n / 256 ^ (width + 1 - 1 - i))) =
      (List.range width).map (fun i => UInt8.ofNat (n / 256 / 256 ^ (width - 1 - i))) ++
        [UInt8.ofNat n]
    rw [List.range_succ, List.map_append, List.map_singleton]
    congr 1
    · refine List.map_congr_left fun i hi => ?_
      have hi : i < width := List.mem_range.1 hi
      rw [Nat.div_div_eq_div_mul, ← pow_succ']
      congr 3
      omega
    · simp

theorem FixedBytes.ofNat_inj {width m n : ℕ} (hm : m < 256 ^ width) (hn : n < 256 ^ width) :
    FixedBytes.ofNat width m = FixedBytes.ofNat width n ↔ m = n := by
  refine ⟨fun h => ?_, fun h => h ▸ rfl⟩
  have hbytes := congrArg FixedBytes.bytes h
  rw [FixedBytes.ofNat_bytes, FixedBytes.ofNat_bytes] at hbytes
  exact (toBe_inj hm hn).1 hbytes

/-- The number of bytes that a number needs; none for zero. -/
def byteLength (n : ℕ) : ℕ := if n = 0 then 0 else n.log2 / 8 + 1

/-- The bytes of a number without zeros in front. -/
def minimalBe (n : ℕ) : Bytes := toBe (byteLength n) n

theorem byteLength_le_iff (k n : ℕ) : byteLength n ≤ k ↔ n < 256 ^ k := by
  rw [byteLength]
  by_cases hn : n = 0
  · rw [if_pos hn, hn]
    exact iff_of_true (Nat.zero_le k) (Nat.pow_pos (by decide))
  · have hpow : (256 : ℕ) ^ k = 2 ^ (8 * k) := by
      rw [pow_mul]
      norm_num
    rw [if_neg hn, hpow, ← Nat.log2_lt hn]
    omega

theorem lt_pow_byteLength (n : ℕ) : n < 256 ^ byteLength n := (byteLength_le_iff _ n).1 le_rfl

@[simp] theorem length_minimalBe (n : ℕ) : (minimalBe n).length = byteLength n := length_toBe _ _

@[simp] theorem fromBe_minimalBe (n : ℕ) : fromBe (minimalBe n) = n :=
  fromBe_toBe (lt_pow_byteLength n)

theorem minimalBe_inj {m n : ℕ} : minimalBe m = minimalBe n ↔ m = n := by
  refine ⟨fun h => ?_, fun h => h ▸ rfl⟩
  rw [← fromBe_minimalBe m, h, fromBe_minimalBe]

theorem minimalBe_head_ne_zero {n : ℕ} {b : UInt8} {bytes : Bytes} (h : minimalBe n = b :: bytes) :
    b ≠ 0 := by
  rintro rfl
  have hn : n < 256 ^ bytes.length := by
    rw [← fromBe_minimalBe n, h]
    exact fromBe_lt bytes
  have hlen := (byteLength_le_iff _ n).2 hn
  rw [← length_minimalBe, h, List.length_cons] at hlen
  omega
