/-
Nodes of the state tree as bytes.

A node is stored without a tag.  An internal node starts with a bitmap of 32 bits, two for each of
its children, and a root with its number of leaves; that of a single leaf is read as a leaf first.
Numbers are in LEB128.

* `storedBytes_returns_iff` — reading does not panic, bitmaps with more than 16 ones apart;
* `nodes_readBack` — nodes that were written are read back.
-/
import ViaCore.BigEndian
import ViaCore.TreeDatabase

/-- The crate `leb128`, for numbers of 64 bits. -/
class Leb128 where
  read : Bytes → Option (ℕ × Bytes)
  write : ℕ → Bytes

/-- A number is read back, whatever follows. -/
class LawfulLeb128 [Leb128] : Prop where
  read_write : ∀ n < 2 ^ 64, ∀ rest, Leb128.read (Leb128.write n ++ rest) = some (n, rest)

namespace MerkleTree

inductive DeserializeErrorKind where
  | unexpectedEof
  | leb128
  | utf8
  | emptyInternalNode
  | invalidChildKind
  | unknownTag (key : String)
  | missingTag (name : String)
  | malformedTag (name : String)

inductive ErrorContext where
  | leafIndex
  | childRefHash
  | version
  | childrenMask
  | leafCount

structure DeserializeError where
  kind : DeserializeErrorKind
  context : Option ErrorContext := none

abbrev Deserialized (α : Type) := Outcome DeserializeError α

section Reading

variable [Leb128]

def readUnsigned (context : Option ErrorContext) (bytes : Bytes) : Deserialized (ℕ × Bytes) :=
  match Leb128.read bytes with
  | some result => .ok result
  | none => .err ⟨.leb128, context⟩

def ValueHash.fromSlice (bytes : Bytes) : Deserialized ValueHash :=
  if bytes.length = 32 then .ok (BitVec.ofNat 256 (fromBe bytes)) else .panic

def LeafNode.deserialize (bytes : Bytes) : Deserialized LeafNode :=
  if bytes.length < 64 then .err ⟨.unexpectedEof, none⟩
  else do
    let fullKey := BitVec.ofNat 256 (fromBe (bytes.take 32))
    let valueHash ← ValueHash.fromSlice ((bytes.drop 32).take 32)
    let (leafIndex, _) ← readUnsigned (some .leafIndex) (bytes.drop 64)
    .ok ⟨fullKey, valueHash, UInt64.ofNat leafIndex⟩

def ChildRef.deserialize (buffer : Bytes) (isLeaf : Bool) : Deserialized (ChildRef × Bytes) :=
  if buffer.length < 32 then .err ⟨.unexpectedEof, some .childRefHash⟩
  else do
    let hash ← ValueHash.fromSlice (buffer.take 32)
    let (version, buffer) ← readUnsigned (some .version) (buffer.drop 32)
    .ok (⟨hash, version, isLeaf⟩, buffer)

def childrenMask (bytes : Bytes) : ℕ := fromBe (bytes.take 4).reverse

def countOnes (n : ℕ) : ℕ := (List.range 32).countP n.testBit

namespace InternalNode

/-- The rest of the loop over the nibbles, two bits of the bitmap for each. -/
def deserializeChildren :
    List Nibble → ℕ → Bytes → InternalNode → Deserialized InternalNode
  | [], _, _, node => .ok node
  | i :: nibbles, bitmap, bytes, node =>
    match bitmap % 4 with
    | 0 => deserializeChildren nibbles (bitmap / 4) bytes node
    | 3 => .err ⟨.invalidChildKind, none⟩
    | kind => do
      let (childRef, bytes) ← ChildRef.deserialize bytes (kind = 2)
      deserializeChildren nibbles (bitmap / 4) bytes (node.insertChildRef i childRef)

def deserialize (bytes : Bytes) : Deserialized InternalNode :=
  if bytes.length < 4 then .err ⟨.unexpectedEof, some .childrenMask⟩
  else if childrenMask bytes = 0 then .err ⟨.emptyInternalNode, none⟩
  -- the capacity of a `SmallMap` is at most 16
  else if 16 < countOnes (childrenMask bytes) then .panic
  else deserializeChildren ((List.range 16).map (BitVec.ofNat 4)) (childrenMask bytes)
    (bytes.drop 4) .empty

end InternalNode

def Root.deserialize (bytes : Bytes) : Deserialized Root := do
  let (leafCount, bytes) ← readUnsigned (some .leafCount) bytes
  if leafCount = 0 then .ok .empty
  else if leafCount = 1 then
    match LeafNode.deserialize bytes with
    | .ok leaf => Root.new leafCount (.leaf leaf)
    | .err _ => do Root.new leafCount (.internal (← InternalNode.deserialize bytes))
    | .panic => .panic
  else do Root.new leafCount (.internal (← InternalNode.deserialize bytes))

def parseUsize (s : String) : Option ℕ :=
  let digits := match s.toList with
    | '+' :: digits => digits
    | digits => digits
  let n := Nat.ofDigitChars 10 digits 0
  if digits ≠ [] ∧ digits.all Char.isDigit ∧ n < 2 ^ 64 then some n else none

structure PartialTags where
  architecture : Option String := none
  hasher : Option String := none
  depth : Option ℕ := none
  isRecovering : Bool := false
  custom : List (String × String) := []

def PartialTags.set (self : PartialTags) (key value : String) : Deserialized PartialTags :=
  if key = "architecture" then .ok { self with architecture := some value }
  else if key = "hasher" then .ok { self with hasher := some value }
  else if key = "depth" then
    match parseUsize value with
    | some depth => .ok { self with depth := some depth }
    | none => .err ⟨.malformedTag "depth", none⟩
  else if key = "is_recovering" then
    if value = "true" then .ok { self with isRecovering := true }
    else if value = "false" then .ok { self with isRecovering := false }
    else .err ⟨.malformedTag "is_recovering", none⟩
  else
    match key.toList.dropPrefix? "custom.".toList with
    | some customKey =>
      .ok { self with custom := self.custom.filter (fun tag => tag.1 ≠ String.ofList customKey) ++
        [(String.ofList customKey, value)] }
    | none => .err ⟨.unknownTag key, none⟩

namespace TreeTags

def deserializeStr (bytes : Bytes) : Deserialized (String × Bytes) := do
  let (strLen, bytes) ← readUnsigned none bytes
  if bytes.length < strLen then .err ⟨.unexpectedEof, none⟩
  else
    match String.fromUTF8? ⟨⟨bytes.take strLen⟩⟩ with
    | some s => .ok (s, bytes.drop strLen)
    | none => .err ⟨.utf8, none⟩

def deserializeTags : ℕ → Bytes → PartialTags → Deserialized PartialTags
  | 0, _, tags => .ok tags
  | tagCount + 1, bytes, tags => do
    let (key, bytes) ← deserializeStr bytes
    let (value, bytes) ← deserializeStr bytes
    deserializeTags tagCount bytes (← tags.set key value)

def deserialize (bytes : Bytes) : Deserialized TreeTags := do
  let (tagCount, bytes) ← readUnsigned none bytes
  let tags ← deserializeTags tagCount bytes {}
  match tags.architecture, tags.hasher, tags.depth with
  | none, _, _ => .err ⟨.missingTag "architecture", none⟩
  | _, none, _ => .err ⟨.missingTag "hasher", none⟩
  | _, _, none => .err ⟨.missingTag "depth", none⟩
  | some architecture, some hasher, some depth =>
    .ok ⟨architecture, depth, hasher, tags.isRecovering, tags.custom⟩

end TreeTags

def Manifest.deserialize (bytes : Bytes) : Deserialized Manifest := do
  let (versionCount, bytes) ← readUnsigned none bytes
  if bytes = [] then .ok ⟨versionCount, none⟩
  else do .ok ⟨versionCount, some (← TreeTags.deserialize bytes)⟩

open Outcome (Returns)

theorem readUnsigned_returns (context : Option ErrorContext) (bytes : Bytes) :
    (readUnsigned context bytes).Returns := by
  unfold readUnsigned
  split <;> nofun

theorem LeafNode.deserialize_returns (bytes : Bytes) : (deserialize bytes).Returns := by
  unfold deserialize
  split_ifs with hlength
  · nofun
  · rw [ValueHash.fromSlice, if_pos (by simp; omega), Outcome.ok_bind]
    exact (readUnsigned_returns _ _).bind fun _ _ => nofun

theorem ChildRef.deserialize_returns (buffer : Bytes) (isLeaf : Bool) :
    (deserialize buffer isLeaf).Returns := by
  unfold deserialize
  split_ifs with hlength
  · nofun
  · rw [ValueHash.fromSlice, if_pos (by simp; omega), Outcome.ok_bind]
    exact (readUnsigned_returns _ _).bind fun _ _ => nofun

namespace InternalNode

theorem deserializeChildren_returns (nibbles : List Nibble) (bitmap : ℕ) (bytes : Bytes)
    (node : InternalNode) : (deserializeChildren nibbles bitmap bytes node).Returns := by
  induction nibbles generalizing bitmap bytes node with
  | nil => nofun
  | cons i nibbles ih =>
    rw [deserializeChildren]
    split
    · exact ih _ _ _
    · nofun
    · exact (ChildRef.deserialize_returns _ _).bind fun _ _ => ih _ _ _

/-- The bitmap has more ones than there are children. -/
def Overfull (bytes : Bytes) : Prop := 4 ≤ bytes.length ∧ 16 < countOnes (childrenMask bytes)

theorem deserialize_returns_iff (bytes : Bytes) :
    (deserialize bytes).Returns ↔ ¬ Overfull bytes := by
  unfold deserialize Overfull
  split_ifs with hlength hzero hones
  · exact iff_of_true nofun fun h => by omega
  · exact iff_of_true nofun fun h => absurd h.2 (by rw [hzero]; decide)
  · exact iff_of_false (fun h => h rfl) fun h => h ⟨by omega, hones⟩
  · exact iff_of_true (deserializeChildren_returns _ _ _ _) fun h => hones h.2

end InternalNode

omit [Leb128] in
theorem PartialTags.set_returns (self : PartialTags) (key value : String) :
    (self.set key value).Returns := by
  unfold set
  split_ifs <;> (try split) <;> nofun

namespace TreeTags

theorem deserializeStr_returns (bytes : Bytes) : (deserializeStr bytes).Returns := by
  refine (readUnsigned_returns _ _).bind fun _ _ => ?_
  dsimp only
  split_ifs
  · nofun
  · split <;> nofun

theorem deserializeTags_returns (tagCount : ℕ) (bytes : Bytes) (tags : PartialTags) :
    (deserializeTags tagCount bytes tags).Returns := by
  induction tagCount generalizing bytes tags with
  | zero => nofun
  | succ tagCount ih =>
    refine (deserializeStr_returns _).bind fun _ _ => (deserializeStr_returns _).bind fun _ _ => ?_
    exact (tags.set_returns _ _).bind fun _ _ => ih _ _

theorem deserialize_returns (bytes : Bytes) : (deserialize bytes).Returns := by
  refine (readUnsigned_returns _ _).bind fun _ _ => ?_
  refine (deserializeTags_returns _ _ _).bind fun _ _ => ?_
  split <;> nofun

end TreeTags

theorem Manifest.deserialize_returns (bytes : Bytes) : (deserialize bytes).Returns := by
  refine (readUnsigned_returns _ _).bind fun _ _ => ?_
  dsimp only
  split_ifs
  · nofun
  · exact (TreeTags.deserialize_returns _).bind fun _ _ => nofun

omit [Leb128] in
theorem Root.new_returns {leafCount : ℕ} (h : leafCount ≠ 0) (node : Node) :
    (Root.new leafCount node : Deserialized Root).Returns := by
  rw [Root.new, dif_pos (Nat.pos_of_ne_zero h)]
  nofun

/-- The rest of `bytes` is read as an internal node: its leaf count is not zero, and if it is one
there is no leaf. -/
def Root.ReadsInternal (bytes rest : Bytes) : Prop :=
  ∃ leafCount, Leb128.read bytes = some (leafCount, rest) ∧ leafCount ≠ 0 ∧
    (leafCount = 1 → ∃ e, LeafNode.deserialize rest = .err e)

theorem Root.deserialize_returns_iff (bytes : Bytes) :
    (deserialize bytes).Returns ↔
      ∀ rest, ReadsInternal bytes rest → ¬ InternalNode.Overfull rest := by
  have hinternal : ∀ {leafCount : ℕ} (rest : Bytes), leafCount ≠ 0 →
      ((InternalNode.deserialize rest >>= fun node =>
        (Root.new leafCount (.internal node) : Deserialized Root)).Returns ↔
          ¬ InternalNode.Overfull rest) := fun rest hcount => by
    rw [Outcome.returns_bind_iff, InternalNode.deserialize_returns_iff,
      and_iff_left fun node _ => Root.new_returns hcount _]
  rw [deserialize, readUnsigned]
  cases hread : Leb128.read bytes with
  | none => exact iff_of_true nofun fun _ ⟨_, h, _⟩ => by simp [hread] at h
  | some read =>
    obtain ⟨leafCount, rest⟩ := read
    simp only [ReadsInternal, hread, Option.some.injEq, Prod.mk.injEq, Outcome.ok_bind]
    split_ifs with hzero hone
    · exact iff_of_true nofun fun _ ⟨_, h, hne, _⟩ => (hne (h.1.symm.trans hzero)).elim
    -- a single leaf is read as a leaf first
    · subst hone
      cases hleaf : LeafNode.deserialize rest with
      | ok leaf =>
        refine iff_of_true (new_returns one_ne_zero _) fun _ ⟨_, h, _, herr⟩ => ?_
        obtain ⟨e, he⟩ := herr h.1.symm
        simp [← h.2, hleaf] at he
      | err e =>
        refine (hinternal rest one_ne_zero).trans ⟨fun h _ ⟨_, heq, _⟩ => heq.2 ▸ h, fun h => ?_⟩
        exact h rest ⟨1, ⟨rfl, rfl⟩, one_ne_zero, fun _ => ⟨e, hleaf⟩⟩
      | panic => exact (LeafNode.deserialize_returns rest hleaf).elim
    · refine (hinternal rest hzero).trans ⟨fun h _ ⟨_, heq, _⟩ => heq.2 ▸ h, fun h => ?_⟩
      exact h rest ⟨leafCount, ⟨rfl, rfl⟩, hzero, fun h => (hone h).elim⟩

/-- **Stored bytes are read without a panic**, bitmaps with too many ones apart. -/
theorem storedBytes_returns_iff (bytes : Bytes) :
    (LeafNode.deserialize bytes).Returns ∧ (Manifest.deserialize bytes).Returns ∧
      ((InternalNode.deserialize bytes).Returns ↔ ¬ InternalNode.Overfull bytes) ∧
      ((Root.deserialize bytes).Returns ↔
        ∀ rest, Root.ReadsInternal bytes rest → ¬ InternalNode.Overfull rest) :=
  ⟨LeafNode.deserialize_returns bytes, Manifest.deserialize_returns bytes,
    InternalNode.deserialize_returns_iff bytes, Root.deserialize_returns_iff bytes⟩

end Reading

end MerkleTree

/-- Seven bits to a byte, the low ones first; at most 64 bits are read. -/
def Leb128.readFrom (shift result : ℕ) : Bytes → Option (ℕ × Bytes)
  | [] => none
  | byte :: rest =>
    if shift = 63 ∧ 1 < byte.toNat then none
    else
      let result := result + byte.toNat % 128 * 2 ^ shift
      if byte.toNat < 128 then some (result, rest) else readFrom (shift + 7) result rest

def Leb128.writeTo (n : ℕ) : Bytes :=
  if n < 128 then [UInt8.ofNat n] else UInt8.ofNat (n % 128 + 128) :: writeTo (n / 128)
decreasing_by omega

theorem Leb128.readFrom_writeTo (n shift result : ℕ) (hn : n * 2 ^ shift < 2 ^ 64) (rest : Bytes) :
    readFrom shift result (writeTo n ++ rest) = some (result + n * 2 ^ shift, rest) := by
  induction n using Nat.strongRecOn generalizing shift result with
  | ind n ih =>
    -- the tenth byte has one bit
    have hlast : shift = 63 → n < 2 := by
      rintro rfl
      omega
    rw [writeTo]
    split_ifs with hlt
    · have hbyte : (UInt8.ofNat n).toNat = n := by
        rw [UInt8.toNat_ofNat']
        omega
      rw [List.singleton_append, readFrom, hbyte, if_neg (by omega), if_pos hlt,
        Nat.mod_eq_of_lt hlt]
    · have hbyte : (UInt8.ofNat (n % 128 + 128)).toNat = n % 128 + 128 := by
        rw [UInt8.toNat_ofNat']
        omega
      have hsplit : n % 128 * 2 ^ shift + n / 128 * 2 ^ (shift + 7) = n * 2 ^ shift := by
        conv_rhs => rw [← Nat.mod_add_div n 128]
        ring
      rw [List.cons_append, readFrom, hbyte, if_neg (by omega), if_neg (by omega),
        ih (n / 128) (by omega) _ _ (by omega)]
      rw [Nat.add_mod_right, Nat.mod_mod, Nat.add_assoc, hsplit]

instance : Leb128 := ⟨Leb128.readFrom 0 0, Leb128.writeTo⟩

instance : LawfulLeb128 where
  read_write n hn rest := by
    show Leb128.readFrom 0 0 (Leb128.writeTo n ++ rest) = _
    rw [Leb128.readFrom_writeTo n 0 0 (by omega)]
    simp

namespace MerkleTree

theorem overfull_deserialize_panics :
    InternalNode.deserialize [255, 255, 255, 255] = .panic ∧
      Root.deserialize [2, 255, 255, 255, 255] = .panic := ⟨rfl, rfl⟩

theorem fromBe_toBe_toNat (v : BitVec 256) : BitVec.ofNat 256 (fromBe (toBe 32 v.toNat)) = v := by
  rw [fromBe_toBe v.isLt, BitVec.ofNat_toNat, BitVec.setWidth_eq]

namespace InternalNode

variable (self : InternalNode)

/-- `ChildKind`, with zero for no child. -/
def kind : Option ChildRef → ℕ
  | none => 0
  | some childRef => if childRef.isLeaf then 2 else 1

/-- Each child has two bits, so the kinds are digits in base four. -/
def bitmap : List Nibble → ℕ
  | [] => 0
  | i :: nibbles => kind (self.children i) + 4 * bitmap nibbles

abbrev nibbles : List Nibble := (List.range 16).map (BitVec.ofNat 4)

theorem kind_lt (child : Option ChildRef) : kind child < 3 := by
  unfold kind
  split <;> (try split) <;> omega

theorem bitmap_lt (nibbles : List Nibble) : self.bitmap nibbles < 4 ^ nibbles.length := by
  induction nibbles with
  | nil => exact Nat.one_pos
  | cons i nibbles ih =>
    have hkind := kind_lt (self.children i)
    rw [bitmap, List.length_cons, pow_succ]
    omega

theorem countP_bitmap (nibbles : List Nibble) :
    (List.range (2 * nibbles.length)).countP (self.bitmap nibbles).testBit ≤ nibbles.length := by
  induction nibbles with
  | nil => exact Nat.le_refl 0
  | cons i nibbles ih =>
    have hkind := kind_lt (self.children i)
    have hrest : ∀ j, (self.bitmap (i :: nibbles)).testBit (j + 1 + 1) =
        (self.bitmap nibbles).testBit j := fun j => by
      rw [Nat.testBit_succ, Nat.testBit_succ, bitmap]
      congr 1
      omega
    have hbits : (if (self.bitmap (i :: nibbles)).testBit 0 then 1 else 0) +
        (if (self.bitmap (i :: nibbles)).testBit 1 then 1 else 0) ≤ 1 := by
      rw [Nat.testBit_succ, Nat.testBit_zero, Nat.testBit_zero, bitmap]
      simp only [decide_eq_true_eq]
      split_ifs <;> omega
    replace ih : (List.range _).countP (fun j => (self.bitmap nibbles).testBit j) ≤ _ := ih
    rw [List.length_cons, Nat.mul_succ, List.range_succ_eq_map, List.range_succ_eq_map]
    simp only [List.map_cons, List.countP_cons, List.countP_map, Function.comp_def, hrest,
      Nat.succ_eq_add_one, Nat.zero_add]
    omega

end InternalNode

section Writing

open Leb128 (write)

variable [Leb128] [LawfulLeb128]

theorem readUnsigned_write {n : ℕ} (hn : n < 2 ^ 64) (context : Option ErrorContext)
    (rest : Bytes) :
    readUnsigned context (write n ++ rest) = .ok (n, rest) := by
  rw [readUnsigned, LawfulLeb128.read_write n hn]

def LeafNode.serialize (self : LeafNode) : Bytes :=
  toBe 32 self.fullKey.toNat ++ toBe 32 self.valueHash.toNat ++ write self.leafIndex.toNat

theorem LeafNode.deserialize_serialize (leaf : LeafNode) :
    deserialize leaf.serialize = .ok leaf := by
  have hlength : ¬ leaf.serialize.length < 64 := by
    simp [serialize]
    omega
  have hkey : (toBe 32 leaf.fullKey.toNat).drop 64 = [] := List.drop_eq_nil_of_le (by simp)
  have hindex := readUnsigned_write leaf.leafIndex.toNat_lt (some .leafIndex) []
  rw [List.append_nil] at hindex
  rw [deserialize, if_neg hlength, serialize]
  simp [ValueHash.fromSlice, List.drop_append, fromBe_toBe_toNat, hkey, hindex]

def ChildRef.serialize (self : ChildRef) : Bytes := toBe 32 self.hash.toNat ++ write self.version

theorem ChildRef.deserialize_serialize (self : ChildRef) (hversion : self.version < 2 ^ 64)
    (rest : Bytes) : deserialize (self.serialize ++ rest) self.isLeaf = .ok (self, rest) := by
  have hlength : ¬ (self.serialize ++ rest).length < 32 := by simp [serialize]
  rw [deserialize, if_neg hlength, serialize, List.append_assoc]
  simp [ValueHash.fromSlice, fromBe_toBe_toNat, readUnsigned_write hversion]

namespace InternalNode

def serialize (self : InternalNode) : Bytes :=
  (toBe 4 (self.bitmap nibbles)).reverse ++
    (nibbles.filterMap self.children).flatMap ChildRef.serialize

variable {self : InternalNode}
  (hversions : ∀ i childRef, self.children i = some childRef → childRef.version < 2 ^ 64)
include hversions

theorem deserializeChildren_serialize (nibbles : List Nibble) (node : InternalNode) :
    deserializeChildren nibbles (self.bitmap nibbles)
        ((nibbles.filterMap self.children).flatMap ChildRef.serialize) node =
      .ok { node with children := fun i =>
        if i ∈ nibbles then (self.children i).or (node.children i) else node.children i } := by
  -- two bits of the bitmap for each nibble
  induction nibbles generalizing node with
  | nil => simp [deserializeChildren]
  | cons i nibbles ih =>
    have hkind := kind_lt (self.children i)
    have hmod : (kind (self.children i) + 4 * self.bitmap nibbles) % 4 = kind (self.children i) :=
      by omega
    have hdiv : (kind (self.children i) + 4 * self.bitmap nibbles) / 4 = self.bitmap nibbles := by
      omega
    rw [deserializeChildren, bitmap, hmod, hdiv]
    cases hchild : self.children i with
    | none =>
      rw [List.filterMap_cons_none hchild]
      refine (ih node).trans (congrArg (Outcome.ok <| InternalNode.mk · node.cache)
        (funext fun j => ?_))
      by_cases hj : j = i
      · simp [hj, hchild]
      · simp [hj]
    | some childRef =>
      have hread := childRef.deserialize_serialize (hversions i childRef hchild)
        ((nibbles.filterMap self.children).flatMap ChildRef.serialize)
      rw [List.filterMap_cons_some hchild, List.flatMap_cons, kind]
      refine Eq.trans ?_ ((ih (node.insertChildRef i childRef)).trans
        (congrArg (Outcome.ok <| InternalNode.mk · node.cache) (funext fun j => ?_)))
      · cases hleaf : childRef.isLeaf <;> simp [hleaf ▸ hread]
      · by_cases hj : j = i
        · simp [hj, hchild, insertChildRef]
        · simp [hj, insertChildRef]

/-- **Nodes are read back**: a leaf, and an internal node with a child, but without its cache. -/
theorem nodes_readBack (leaf : LeafNode) (hne : ∃ i, self.children i ≠ none) :
    LeafNode.deserialize leaf.serialize = .ok leaf ∧
      deserialize self.serialize = .ok self.clone := by
  have hlength : (toBe 4 (self.bitmap nibbles)).reverse.length = 4 := by simp
  have hmask : childrenMask self.serialize = self.bitmap nibbles := by
    rw [childrenMask, serialize, List.take_left' hlength, List.reverse_reverse,
      fromBe_toBe ((self.bitmap_lt _).trans_le (by decide))]
  have hall : ∀ i : Nibble, i ∈ nibbles := by decide
  have hread := deserializeChildren_serialize hversions nibbles .empty
  simp only [hall, if_true, empty, Option.or_none] at hread
  refine ⟨leaf.deserialize_serialize, ?_⟩
  rw [deserialize, if_neg (by simp [serialize]), hmask, if_neg, if_neg, serialize,
    List.drop_left' hlength]
  · exact hread
  · exact Nat.not_lt.2 (self.countP_bitmap nibbles)
  · -- without a bit there would be no child
    intro hzero
    obtain ⟨i, hi⟩ := hne
    rw [hzero] at hread
    exact hi (congrFun (congrArg children (Outcome.ok.inj hread)) i).symm

end InternalNode

end Writing

theorem nodes_readBack_sample :
    LeafNode.deserialize (LeafNode.serialize ⟨1, 2, 300⟩) = .ok ⟨1, 2, 300⟩ ∧
      InternalNode.deserialize (InternalNode.serialize ⟨fun _ => some ⟨7, 200, true⟩, none⟩) =
        .ok ⟨fun _ => some ⟨7, 200, true⟩, none⟩ :=
  @InternalNode.nodes_readBack _ _ ⟨fun _ => some ⟨7, 200, true⟩, none⟩
    (fun _ _ h => by cases h; decide) ⟨1, 2, 300⟩ ⟨0, nofun⟩

end MerkleTree
