/-
Encoding of arguments of contracts.

A value takes up words of 32 bytes.  A tuple is encoded as its heads followed by its tails: a static
component is in the head, a dynamic one is in the tail, and its head tells at which offset.

What is used of an encoder is that it is a `Lawful` one; the one of this file is.

* `encodes_address`, `length_encode` — an address is encoded as the number that it writes, and the
  number of bytes of an encoding;
* `sizes_uints` — a list of numbers has a word for each.
-/
import ViaCore.BigEndian

namespace Abi

inductive Token where
  | address (x : FixedBytes 20)
  | uint (x : BitVec 256)
  | bytes (x : Bytes)
  | fixedArray (tokens : List Token)
  | array (tokens : List Token)
  | tuple (tokens : List Token)

mutual

def Token.isDynamic : Token → Bool
  | .address _ => false
  | .uint _ => false
  | .bytes _ => true
  | .fixedArray tokens => anyDynamic tokens
  | .array _ => true
  | .tuple tokens => anyDynamic tokens

def anyDynamic : List Token → Bool
  | [] => false
  | token :: tokens => token.isDynamic || anyDynamic tokens

end

/-- The number that an address writes. -/
def Token.asUint : Token → Token
  | .address x => .uint (BitVec.ofNat 256 (fromBe x.bytes))
  | token => token

mutual

def Token.size : Token → ℕ
  | .address _ => 32
  | .uint _ => 32
  | .bytes x => 32 * (1 + (x.length + 31) / 32)
  | .fixedArray tokens => sizes tokens
  | .array tokens => 32 + sizes tokens
  | .tuple tokens => sizes tokens

/-- A dynamic component takes up a word more than its encoding. -/
def sizes : List Token → ℕ
  | [] => 0
  | token :: tokens => token.size + (if token.isDynamic then 32 else 0) + sizes tokens

end

structure Encoder where
  encode : List Token → Bytes

structure Encoder.Lawful (E : Encoder) : Prop where
  encode_address (tokens : List Token) :
    E.encode [.tuple (tokens.map Token.asUint)] = E.encode [.tuple tokens]
  length_encode (tokens : List Token) : (E.encode tokens).length = sizes tokens

def word (n : ℕ) : Bytes := toBe 32 n

/-- Zeros up to the next word. -/
def padding (n : ℕ) : Bytes := List.replicate ((32 - n % 32) % 32) 0

/-- A component of a tuple: whether it is dynamic, and its encoding. -/
abbrev Part := Bool × Bytes

def headSize (part : Part) : ℕ := if part.1 then 32 else part.2.length

/-- The heads, given the offset of the next tail. -/
def heads : ℕ → List Part → Bytes
  | _, [] => []
  | offset, (true, bytes) :: parts => word offset ++ heads (offset + bytes.length) parts
  | offset, (false, bytes) :: parts => bytes ++ heads offset parts

def tails : List Part → Bytes
  | [] => []
  | (true, bytes) :: parts => bytes ++ tails parts
  | (false, _) :: parts => tails parts

def assemble (parts : List Part) : Bytes := heads (parts.map headSize).sum parts ++ tails parts

mutual

def Token.encode : Token → Bytes
  | .address x => List.replicate 12 0 ++ x.bytes
  | .uint x => word x.toNat
  | .bytes x => word x.length ++ x ++ padding x.length
  | .fixedArray tokens => assemble (parts tokens)
  | .array tokens => word tokens.length ++ assemble (parts tokens)
  | .tuple tokens => assemble (parts tokens)

def parts : List Token → List Part
  | [] => []
  | token :: tokens => (token.isDynamic, token.encode) :: parts tokens

end

def encoder : Encoder where
  encode tokens := assemble (parts tokens)

theorem Token.encode_asUint (token : Token) : token.asUint.encode = token.encode := by
  cases token with
  | address x =>
    have hlt : fromBe x.bytes < 256 ^ 20 := by
      have := fromBe_lt x.bytes
      rwa [x.size] at this
    have hmod : fromBe x.bytes % 2 ^ 256 = fromBe x.bytes :=
      Nat.mod_eq_of_lt (hlt.trans (by decide))
    have hword : toBe 20 (fromBe x.bytes) = x.bytes := by
      rw [← toBe_fromBe x.bytes, x.size, fromBe_toBe hlt]
    rw [asUint, Token.encode, Token.encode, word, BitVec.toNat_ofNat, hmod]
    rw [show (32 : ℕ) = 12 + 20 from rfl, toBe_add hlt, hword]
  | uint | bytes | fixedArray | array | tuple => rfl

theorem Token.isDynamic_asUint (token : Token) : token.asUint.isDynamic = token.isDynamic := by
  cases token <;> rfl

theorem parts_asUint (tokens : List Token) : parts (tokens.map Token.asUint) = parts tokens := by
  induction tokens with
  | nil => rfl
  | cons token tokens ih =>
    rw [List.map_cons, parts, parts, ih, token.isDynamic_asUint, token.encode_asUint]

theorem anyDynamic_eq (tokens : List Token) : anyDynamic tokens = (parts tokens).any Prod.fst := by
  induction tokens with
  | nil => rfl
  | cons token tokens ih => rw [anyDynamic, parts, List.any_cons, ih]

/-- **An address is encoded as the number that it writes.** -/
theorem encodes_address (tokens : List Token) :
    encoder.encode [.tuple (tokens.map Token.asUint)] = encoder.encode [.tuple tokens] := by
  simp only [encoder, parts, Token.isDynamic, Token.encode, anyDynamic_eq, parts_asUint]

@[simp] theorem length_word (n : ℕ) : (word n).length = 32 := length_toBe 32 n

theorem length_assemble (parts : List Part) : (assemble parts).length =
    (parts.map fun part => part.2.length + if part.1 then 32 else 0).sum := by
  have hparts : ∀ offset, (heads offset parts).length + (tails parts).length =
      (parts.map fun part => part.2.length + if part.1 then 32 else 0).sum := by
    induction parts with
    | nil => simp [heads, tails]
    | cons part parts ih =>
      obtain ⟨dynamic, bytes⟩ := part
      intro offset
      cases dynamic with
      | true =>
        have hrest := ih (offset + bytes.length)
        simp only [heads, tails, List.length_append, length_word, List.map_cons, List.sum_cons,
          if_true]
        omega
      | false =>
        have hrest := ih offset
        simp only [heads, tails, List.length_append, List.map_cons, List.sum_cons,
          Bool.false_eq_true, if_false]
        omega
  rw [assemble, List.length_append, hparts]

mutual

theorem Token.length_encode : ∀ token : Token, token.encode.length = token.size
  | .address x => by
    rw [Token.encode, List.length_append, List.length_replicate, x.size, Token.size]
  | .uint x => by rw [Token.encode, length_word, Token.size]
  | .bytes x => by
    rw [Token.encode, List.length_append, List.length_append, length_word, padding,
      List.length_replicate, Token.size]
    omega
  | .fixedArray tokens => by rw [Token.encode, length_assemble_parts, Token.size]
  | .array tokens => by
    rw [Token.encode, List.length_append, length_word, length_assemble_parts, Token.size]
  | .tuple tokens => by rw [Token.encode, length_assemble_parts, Token.size]

theorem length_assemble_parts : ∀ tokens, (assemble (parts tokens)).length = sizes tokens
  | [] => rfl
  | token :: tokens => by
    have hrest := length_assemble_parts tokens
    rw [length_assemble] at hrest
    rw [length_assemble, parts, List.map_cons, List.sum_cons, hrest, token.length_encode, sizes]

end

theorem encoder_lawful : encoder.Lawful where
  encode_address := encodes_address
  length_encode := length_assemble_parts

theorem sizes_uints (xs : List (BitVec 256)) : sizes (xs.map .uint) = 32 * xs.length := by
  induction xs with
  | nil => rfl
  | cons x xs ih =>
    rw [List.map_cons, sizes, ih, List.length_cons, Token.size, Token.isDynamic, mul_add_one]
    exact add_comm _ _

end Abi
