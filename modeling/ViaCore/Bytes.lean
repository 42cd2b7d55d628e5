/-
Byte strings, fixed-size hashes, big-endian words and UTF-8 text.

A hash or an address of `n` bytes is a byte string together with the proof of its length
(`FixedBytes n`), and a Rust `String` is a byte string together with the proof that it is
well-formed UTF-8 (`Utf8`), so neither can be built wrongly.

* `FixedBytes.fromSlice` — the conversion that panics on a wrong length;
* `u32FromBeBytes_u32ToBeBytes` — the four-byte big-endian encoding reads back;
* `Utf8.fromUtf8_asBytes` — the bytes of a string read back as that string.
-/
import ViaCore.Outcome

abbrev Bytes := List UInt8

/-- A byte string of exactly `n` bytes. -/
structure FixedBytes (n : ℕ) where
  bytes : Bytes
  size : bytes.length = n
  deriving DecidableEq

namespace FixedBytes

variable {n : ℕ}

theorem eq_of_bytes {a b : FixedBytes n} (h : a.bytes = b.bytes) : a = b := by
  cases a
  cases b
  cases h
  rfl

def replicate (n : ℕ) (b : UInt8) : FixedBytes n := ⟨List.replicate n b, List.length_replicate⟩

def ofNat (n v : ℕ) : FixedBytes n :=
  ⟨(List.range n).map fun i => UInt8.ofNat (v / 256 ^ (n - 1 - i)), by simp⟩

/-- The checked conversion from a slice: `None` on a wrong length. -/
def tryFrom (n : ℕ) (b : Bytes) : Option (FixedBytes n) :=
  if h : b.length = n then some ⟨b, h⟩ else none

/-- The unchecked conversion `from_slice` of the fixed-hash types: it panics on a wrong length. -/
def fromSlice (n : ℕ) {ε : Type} (b : Bytes) : Outcome ε (FixedBytes n) :=
  if h : b.length = n then .ok ⟨b, h⟩ else .panic

@[simp] theorem tryFrom_bytes (a : FixedBytes n) : tryFrom n a.bytes = some a := by
  rw [tryFrom, dif_pos a.size]

@[simp] theorem fromSlice_bytes {ε : Type} (a : FixedBytes n) :
    fromSlice n (ε := ε) a.bytes = .ok a := by
  rw [fromSlice, dif_pos a.size]

theorem fromSlice_eq_panic {ε : Type} {b : Bytes} :
    fromSlice n (ε := ε) b = .panic ↔ b.length ≠ n := by
  unfold fromSlice
  split <;> simp_all

theorem fromSlice_eq_ok {ε : Type} {b : Bytes} {a : FixedBytes n} :
    fromSlice n (ε := ε) b = .ok a ↔ b = a.bytes := by
  constructor
  · intro h
    unfold fromSlice at h
    split at h
    · cases h
      rfl
    · cases h
  · rintro rfl
    exact fromSlice_bytes a

end FixedBytes

abbrev H256 := FixedBytes 32

instance : LawfulBEq H256 := inferInstance

abbrev EVMAddress := FixedBytes 20

/-- Transaction ids: 32 bytes, in the byte order of the raw hash. -/
abbrev Txid := FixedBytes 32

def u32ToBeBytes (n : UInt32) : Bytes :=
  [UInt8.ofNat (n.toNat / 2 ^ 24), UInt8.ofNat (n.toNat / 2 ^ 16), UInt8.ofNat (n.toNat / 2 ^ 8),
    UInt8.ofNat n.toNat]

/-- `u32::from_be_bytes` after `try_into`: `None` unless there are exactly four bytes. -/
def u32FromBeBytes : Bytes → Option UInt32
  | [a, b, c, d] =>
    some (UInt32.ofNat (a.toNat * 2 ^ 24 + b.toNat * 2 ^ 16 + c.toNat * 2 ^ 8 + d.toNat))
  | _ => none

@[simp] theorem u32FromBeBytes_u32ToBeBytes (n : UInt32) :
    u32FromBeBytes (u32ToBeBytes n) = some n := by
  have hlt : n.toNat < 2 ^ 32 := n.toNat_lt
  simp only [u32ToBeBytes, u32FromBeBytes, Option.some.injEq]
  apply UInt32.toNat_inj.mp
  simp only [UInt32.toNat_ofNat', UInt8.toNat_ofNat']
  omega

/-- A continuation byte `10xxxxxx`. -/
def isContinuation (b : UInt8) : Bool := 0x80 ≤ b && b ≤ 0xBF

/-- Well-formed UTF-8, as `std::str::from_utf8` checks it: no overlong forms, no surrogates,
nothing above U+10FFFF. -/
def validUtf8 : Bytes → Bool
  | [] => true
  | a :: rest =>
    if a ≤ 0x7F then validUtf8 rest
    else
      match rest with
      | [] => false
      | b :: rest₂ =>
        if 0xC2 ≤ a && a ≤ 0xDF then isContinuation b && validUtf8 rest₂
        else
          match rest₂ with
          | [] => false
          | c :: rest₃ =>
            if 0xE0 ≤ a && a ≤ 0xEF then
              (if a = 0xE0 then 0xA0 ≤ b && b ≤ 0xBF
                else if a = 0xED then 0x80 ≤ b && b ≤ 0x9F
                else isContinuation b)
                && isContinuation c && validUtf8 rest₃
            else
              match rest₃ with
              | [] => false
              | d :: rest₄ =>
                0xF0 ≤ a && a ≤ 0xF4
                  && (if a = 0xF0 then 0x90 ≤ b && b ≤ 0xBF
                    else if a = 0xF4 then 0x80 ≤ b && b ≤ 0x8F
                    else isContinuation b)
                  && isContinuation c && isContinuation d && validUtf8 rest₄

/-- A Rust `String`: bytes that are well-formed UTF-8. -/
structure Utf8 where
  asBytes : Bytes
  valid : validUtf8 asBytes = true
  deriving DecidableEq

namespace Utf8

/-- `std::str::from_utf8(..).ok()`. -/
def fromUtf8 (b : Bytes) : Option Utf8 :=
  if h : validUtf8 b = true then some ⟨b, h⟩ else none

@[simp] theorem fromUtf8_asBytes (s : Utf8) : fromUtf8 s.asBytes = some s := by
  rw [fromUtf8, dif_pos s.valid]

def empty : Utf8 := ⟨[], rfl⟩

end Utf8

def ascii (s : String) : Bytes := s.toList.map fun c => UInt8.ofNat c.toNat
