/-
Recursive length prefix encoding.

A value is a byte string or a list of values.  A byte below `0x80` stands for itself; everything
else begins with a header that tells whether a string or a list follows, and how long it is.

What is used of an encoder is that it is a `Lawful` one; the one of this file, which writes shortest
headers, is.  Reading follows the positions of items only as far as it is asked to: an item of a
list is looked up by its index, and what comes after it is not looked at.  But counting the items of
a list that is not empty goes on behind it.

* `payloadInfo_header`, `payloadInfo_encodeBytes` — the reader finds the end of what was encoded;
* `encodeBytes_append_inj` — the encodings of strings are prefix-free;
* `Writer.Lawful.encodeItems_inj` — a list of strings is determined by its encoding.
-/
import ViaCore.BigEndian

namespace Rlp

/-- An encoder of strings, and of lists given the encodings of their items one after the other. -/
structure Writer where
  encodeBytes : Bytes → Bytes
  encodeList : Bytes → Bytes

def Writer.encodeItems (W : Writer) (items : List Bytes) : Bytes := items.flatMap W.encodeBytes

/-- Strings are prefix-free, lists are told apart from each other and from strings, and a header has
at most nine bytes. -/
structure Writer.Lawful (W : Writer) : Prop where
  encodeBytes_append_inj {a b x y : Bytes} : a.length < 2 ^ 64 → b.length < 2 ^ 64 →
    W.encodeBytes a ++ x = W.encodeBytes b ++ y → a = b ∧ x = y
  encodeBytes_ne_nil (data : Bytes) : W.encodeBytes data ≠ []
  encodeList_inj {p q : Bytes} : p.length < 2 ^ 64 → q.length < 2 ^ 64 →
    W.encodeList p = W.encodeList q → p = q
  encodeList_head {payload : Bytes} : payload.length < 2 ^ 64 →
    ∃ l rest, W.encodeList payload = l :: rest ∧ 0xc0 ≤ l
  length_encodeBytes_le {data : Bytes} : data.length < 2 ^ 64 →
    (W.encodeBytes data).length ≤ data.length + 9
  length_encodeList_nil : (W.encodeList []).length = 1

/-- The header of a payload: one byte for a short one, otherwise the length follows. -/
def header (short long len : ℕ) : Bytes :=
  if len ≤ 55 then [UInt8.ofNat (short + len)]
  else UInt8.ofNat (long + byteLength len) :: minimalBe len

/-- A byte that stands for itself. -/
def isSingle : Bytes → Bool
  | [b] => decide (b < 0x80)
  | _ => false

def encodeBytes (data : Bytes) : Bytes :=
  if isSingle data then data else header 0x80 0xb7 data.length ++ data

def encodeList (payload : Bytes) : Bytes := header 0xc0 0xf7 payload.length ++ payload

def writer : Writer where
  encodeBytes
  encodeList

/-! ### Reading -/

inductive DecoderError where
  | rlpIsTooBig
  | rlpIsTooShort
  | rlpExpectedToBeList
  | rlpExpectedToBeData
  | rlpIncorrectListLen
  | rlpDataLenWithZeroPrefix
  | rlpInvalidIndirection
  | rlpInconsistentLengthAndData
  deriving DecidableEq

/-- How long the header of an item is, and what follows it. -/
structure PayloadInfo where
  headerLen : ℕ
  valueLen : ℕ
  deriving DecidableEq

def calculatePayloadInfo (bytes : Bytes) (lenOfLen : ℕ) : Except DecoderError PayloadInfo :=
  match bytes.tail with
  | [] => .error .rlpIsTooShort
  | b :: _ =>
    if b = 0 then .error .rlpDataLenWithZeroPrefix
    else if bytes.tail.length < lenOfLen then .error .rlpIsTooShort
    else if fromBe (bytes.tail.take lenOfLen) ≤ 55 then .error .rlpInvalidIndirection
    else .ok ⟨1 + lenOfLen, fromBe (bytes.tail.take lenOfLen)⟩

def announced (bytes : Bytes) : Except DecoderError PayloadInfo :=
  match bytes with
  | [] => .error .rlpIsTooShort
  | l :: _ =>
    if l.toNat ≤ 0x7f then .ok ⟨0, 1⟩
    else if l.toNat ≤ 0xb7 then .ok ⟨1, l.toNat - 0x80⟩
    else if l.toNat ≤ 0xbf then calculatePayloadInfo bytes (l.toNat - 0xb7)
    else if l.toNat ≤ 0xf7 then .ok ⟨1, l.toNat - 0xc0⟩
    else calculatePayloadInfo bytes (l.toNat - 0xf7)

/-- The first item, which has to be there as a whole. -/
def payloadInfo (bytes : Bytes) : Except DecoderError PayloadInfo := do
  let item ← announced bytes
  if item.headerLen + item.valueLen ≤ bytes.length then pure item else throw .rlpIsTooShort

def isList : Bytes → Bool
  | [] => false
  | l :: _ => decide (0xc0 ≤ l)

def consumeListPayload (bytes : Bytes) : Except DecoderError Bytes := do
  let item ← payloadInfo bytes
  pure ((bytes.drop item.headerLen).take item.valueLen)

def consumeItems : ℕ → Bytes → Except DecoderError Bytes
  | 0, bytes => pure bytes
  | items + 1, bytes => do
    let item ← payloadInfo bytes
    consumeItems items (bytes.drop (item.headerLen + item.valueLen))

def itemAt (bytes : Bytes) (index : ℕ) : Except DecoderError Bytes :=
  if isList bytes then do
    let payload ← consumeListPayload bytes
    let rest ← consumeItems index payload
    let found ← payloadInfo rest
    pure (rest.take (found.headerLen + found.valueLen))
  else throw .rlpExpectedToBeList

/-- The items one after the other, before the first one that cannot be read. -/
def readItems : ℕ → Bytes → List Bytes
  | 0, _ => []
  | fuel + 1, bytes =>
    match payloadInfo bytes with
    | .error _ => []
    | .ok item =>
      bytes.take (item.headerLen + item.valueLen)
        :: readItems fuel (bytes.drop (item.headerLen + item.valueLen))

/-- What an iteration over a list meets.  From the second item on the reader goes by its position in
all bytes, so it does not stop at the end of the list. -/
def items (bytes : Bytes) : List Bytes :=
  match itemAt bytes 0, payloadInfo bytes with
  | .ok _, .ok list => readItems bytes.length (bytes.drop list.headerLen)
  | _, _ => []

def itemCount (bytes : Bytes) : Except DecoderError ℕ :=
  if isList bytes then pure (items bytes).length else throw .rlpExpectedToBeList

def decodeValue (bytes : Bytes) : Except DecoderError Bytes :=
  match bytes with
  | [] => throw .rlpIsTooShort
  | l :: rest =>
    if l.toNat ≤ 0x7f then pure [l]
    else if l.toNat ≤ 0xb7 then
      if rest.length < l.toNat - 0x80 then throw .rlpInconsistentLengthAndData
      else if l = 0x81 ∧ isSingle (rest.take 1) then throw .rlpInvalidIndirection
      else pure (rest.take (l.toNat - 0x80))
    else if l.toNat ≤ 0xbf then
      if rest.length < l.toNat - 0xb7 then throw .rlpInconsistentLengthAndData
      else if rest.head? = some 0 then throw .rlpInvalidIndirection
      else if (rest.drop (l.toNat - 0xb7)).length < fromBe (rest.take (l.toNat - 0xb7)) then
        throw .rlpInconsistentLengthAndData
      else pure ((rest.drop (l.toNat - 0xb7)).take (fromBe (rest.take (l.toNat - 0xb7))))
    else throw .rlpExpectedToBeData

def dataAt (bytes : Bytes) (index : ℕ) : Except DecoderError Bytes :=
  itemAt bytes index >>= decodeValue

def listAt (bytes : Bytes) (index : ℕ) : Except DecoderError (List Bytes) := do
  let item ← itemAt bytes index
  (items item).mapM decodeValue

/-! ### The end of an item -/

theorem header_ne_nil (short long len : ℕ) : header short long len ≠ [] := by
  rw [header]
  split <;> simp

variable {len : ℕ} {bytes data : Bytes}

theorem byteLength_le_eight (hlen : len < 2 ^ 64) : byteLength len ≤ 8 :=
  (byteLength_le_iff 8 len).2 hlen

theorem byteLength_pos (hlen : 55 < len) : 1 ≤ byteLength len := by
  have h := (byteLength_le_iff 0 len).not.2 (by rw [pow_zero]; omega)
  omega

theorem calculatePayloadInfo_minimalBe (hlong : 55 < len) (l : UInt8) (rest : Bytes) :
    calculatePayloadInfo (l :: (minimalBe len ++ rest)) (byteLength len) =
      .ok ⟨1 + byteLength len, len⟩ := by
  have htake : (minimalBe len ++ rest).take (byteLength len) = minimalBe len := by
    rw [← length_minimalBe, List.take_left]
  obtain ⟨b, bytes, hbytes⟩ : ∃ b bytes, minimalBe len = b :: bytes := by
    refine List.exists_cons_of_ne_nil fun hnil => ?_
    have hpos := byteLength_pos hlong
    rw [← length_minimalBe, hnil] at hpos
    exact absurd hpos (by decide)
  have htail : (l :: (minimalBe len ++ rest)).tail = b :: (bytes ++ rest) := by
    rw [hbytes]
    rfl
  have hfit : ¬ (b :: (bytes ++ rest)).length < byteLength len := by
    rw [← length_minimalBe, hbytes, List.length_cons, List.length_cons, List.length_append]
    omega
  have hvalue : fromBe ((b :: (bytes ++ rest)).take (byteLength len)) = len := by
    rw [← htail, List.tail_cons, htake, fromBe_minimalBe]
  rw [calculatePayloadInfo, htail]
  simp only [if_neg (minimalBe_head_ne_zero hbytes), if_neg hfit, hvalue, if_neg (not_le.2 hlong)]

theorem announced_header {short long : ℕ}
    (hkind : short = 0x80 ∧ long = 0xb7 ∨ short = 0xc0 ∧ long = 0xf7) (hlen : len < 2 ^ 64)
    (rest : Bytes) :
    announced (header short long len ++ rest) = .ok ⟨(header short long len).length, len⟩ := by
  rw [header]
  by_cases hshort : len ≤ 55
  · have hbyte : (UInt8.ofNat (short + len)).toNat = short + len := by
      rw [UInt8.toNat_ofNat']
      omega
    rw [if_pos hshort, List.singleton_append, announced, hbyte]
    rcases hkind with ⟨rfl, -⟩ | ⟨rfl, -⟩
    · rw [if_neg (by omega), if_pos (by omega)]
      simp
    · rw [if_neg (by omega), if_neg (by omega), if_neg (by omega), if_pos (by omega)]
      simp
  -- the length of the length is in the first byte
  · have hlong : 55 < len := not_le.1 hshort
    have hle := byteLength_le_eight hlen
    have hpos := byteLength_pos hlong
    have hbyte : (UInt8.ofNat (long + byteLength len)).toNat = long + byteLength len := by
      rw [UInt8.toNat_ofNat']
      omega
    have hread := calculatePayloadInfo_minimalBe hlong (UInt8.ofNat (long + byteLength len)) rest
    rw [if_neg hshort, List.cons_append, announced, hbyte, List.length_cons, length_minimalBe,
      add_comm (byteLength len) 1]
    rcases hkind with ⟨-, rfl⟩ | ⟨-, rfl⟩
    · rw [if_neg (by omega), if_neg (by omega), if_pos (by omega), Nat.add_sub_cancel_left]
      exact hread
    · rw [if_neg (by omega), if_neg (by omega), if_neg (by omega), if_neg (by omega),
        Nat.add_sub_cancel_left]
      exact hread

theorem payloadInfo_of_announced {info : PayloadInfo} (h : announced bytes = .ok info)
    (hlen : info.headerLen + info.valueLen ≤ bytes.length) : payloadInfo bytes = .ok info := by
  rw [payloadInfo, h]
  exact if_pos hlen

theorem payloadInfo_header {short long : ℕ}
    (hkind : short = 0x80 ∧ long = 0xb7 ∨ short = 0xc0 ∧ long = 0xf7) {payload : Bytes}
    (hlen : payload.length < 2 ^ 64) (rest : Bytes) :
    payloadInfo (header short long payload.length ++ payload ++ rest) =
      .ok ⟨(header short long payload.length).length, payload.length⟩ := by
  rw [List.append_assoc]
  refine payloadInfo_of_announced (announced_header hkind hlen _) ?_
  show (header short long payload.length).length + payload.length ≤ _
  rw [List.length_append, List.length_append]
  omega

theorem payloadInfo_encodeBytes (hlen : data.length < 2 ^ 64) (rest : Bytes) :
    ∃ info, payloadInfo (encodeBytes data ++ rest) = .ok info ∧
      (encodeBytes data).length = info.headerLen + info.valueLen ∧
      (encodeBytes data).drop info.headerLen = data := by
  rw [encodeBytes]
  by_cases hsingle : isSingle data = true
  · obtain ⟨b, rfl, hb⟩ : ∃ b, data = [b] ∧ b < 0x80 := by
      match data, hsingle with
      | [b], h => exact ⟨b, rfl, of_decide_eq_true h⟩
    have hb : b.toNat ≤ 0x7f := Nat.le_of_lt_succ (UInt8.lt_iff_toNat_lt.1 hb)
    refine ⟨⟨0, 1⟩, ?_, ?_, ?_⟩
    · rw [if_pos hsingle, List.singleton_append]
      refine payloadInfo_of_announced ?_ (Nat.le_add_left 1 rest.length)
      rw [announced, if_pos hb]
    · rw [if_pos hsingle]
      rfl
    · rw [if_pos hsingle]
      rfl
  · rw [if_neg hsingle]
    exact ⟨_, payloadInfo_header (.inl ⟨rfl, rfl⟩) hlen rest, List.length_append, List.drop_left⟩

/-- **The encodings of strings are prefix-free**: the string and what follows are determined. -/
theorem encodeBytes_append_inj {a b x y : Bytes} (ha : a.length < 2 ^ 64) (hb : b.length < 2 ^ 64)
    (h : encodeBytes a ++ x = encodeBytes b ++ y) : a = b ∧ x = y := by
  obtain ⟨info, hinfo, hlenA, hdropA⟩ := payloadInfo_encodeBytes ha x
  obtain ⟨info', hinfo', hlenB, hdropB⟩ := payloadInfo_encodeBytes hb y
  rw [h, hinfo'] at hinfo
  cases hinfo
  obtain ⟨henc, hrest⟩ := List.append_inj h (hlenA.trans hlenB.symm)
  rw [← hdropA, ← hdropB, henc]
  exact ⟨rfl, hrest⟩

theorem encodeBytes_ne_nil (data : Bytes) : encodeBytes data ≠ [] := by
  rw [encodeBytes]
  by_cases hsingle : isSingle data = true
  · rw [if_pos hsingle]
    rintro rfl
    cases hsingle
  · rw [if_neg hsingle]
    exact List.append_ne_nil_of_left_ne_nil (header_ne_nil _ _ _) _

theorem encodeList_inj {p q : Bytes} (hp : p.length < 2 ^ 64) (hq : q.length < 2 ^ 64)
    (h : encodeList p = encodeList q) : p = q := by
  have hinfo := payloadInfo_header (.inr ⟨rfl, rfl⟩) hp []
  have hinfo' := payloadInfo_header (.inr ⟨rfl, rfl⟩) hq []
  rw [encodeList, encodeList] at h
  rw [h, hinfo'] at hinfo
  obtain ⟨-, hlen⟩ := PayloadInfo.mk.inj (Except.ok.inj hinfo)
  rw [hlen] at h
  exact List.append_cancel_left h

/-! ### Sizes -/

theorem length_encodeBytes_le (hlen : data.length < 2 ^ 64) :
    (encodeBytes data).length ≤ data.length + 9 := by
  rw [encodeBytes]
  by_cases hsingle : isSingle data = true
  · rw [if_pos hsingle]
    omega
  · have hle := byteLength_le_eight hlen
    have hheader : (header 0x80 0xb7 data.length).length ≤ 9 := by
      rw [header]
      split
      · rw [List.length_singleton]
        omega
      · rw [List.length_cons, length_minimalBe]
        omega
    rw [if_neg hsingle, List.length_append]
    omega

theorem bind_eq_ok {α β : Type} {x : Except DecoderError α} {f : α → Except DecoderError β} {b : β}
    (h : x >>= f = .ok b) : ∃ a, x = .ok a ∧ f a = .ok b := by
  cases x with
  | ok a => exact ⟨a, rfl, h⟩
  | error e => cases h

theorem length_consumeItems_le {n : ℕ} {rest : Bytes} (h : consumeItems n bytes = .ok rest) :
    rest.length ≤ bytes.length := by
  induction n generalizing bytes with
  | zero =>
    cases h
    exact le_rfl
  | succ n ih =>
    obtain ⟨item, -, h⟩ := bind_eq_ok h
    refine (ih h).trans ?_
    rw [List.length_drop]
    exact Nat.sub_le _ _

theorem length_itemAt_le {item : Bytes} {index : ℕ} (h : itemAt bytes index = .ok item) :
    item.length ≤ bytes.length := by
  rw [itemAt] at h
  split_ifs at h
  obtain ⟨payload, hpayload, h⟩ := bind_eq_ok h
  obtain ⟨rest, hrest, h⟩ := bind_eq_ok h
  obtain ⟨found, -, h⟩ := bind_eq_ok h
  obtain ⟨info, -, hpayload⟩ := bind_eq_ok hpayload
  cases h
  cases hpayload
  have hle := length_consumeItems_le hrest
  rw [List.length_take, List.length_drop] at hle
  rw [List.length_take]
  omega

theorem length_decodeValue_le (h : decodeValue bytes = .ok data) : data.length ≤ bytes.length := by
  cases bytes with
  | nil => cases h
  | cons l rest =>
    rw [decodeValue] at h
    rw [List.length_cons]
    split_ifs at h <;> obtain rfl := Except.ok.inj h
    · exact Nat.succ_le_succ (Nat.zero_le _)
    · rw [List.length_take]
      omega
    · rw [List.length_take, List.length_drop]
      omega

theorem length_dataAt_le {index : ℕ} (h : dataAt bytes index = .ok data) :
    data.length ≤ bytes.length := by
  obtain ⟨item, hitem, h⟩ := bind_eq_ok h
  exact (length_decodeValue_le h).trans (length_itemAt_le hitem)

theorem encodeList_head {payload : Bytes} (hlen : payload.length < 2 ^ 64) :
    ∃ l rest, encodeList payload = l :: rest ∧ 0xc0 ≤ l := by
  rw [encodeList, header]
  by_cases hshort : payload.length ≤ 55
  · refine ⟨_, _, by rw [if_pos hshort, List.singleton_append], ?_⟩
    rw [UInt8.le_iff_toNat_le, UInt8.toNat_ofNat']
    show 192 ≤ _
    omega
  · have hle := byteLength_le_eight hlen
    refine ⟨_, _, by rw [if_neg hshort, List.cons_append], ?_⟩
    rw [UInt8.le_iff_toNat_le, UInt8.toNat_ofNat']
    show 192 ≤ _
    omega

theorem writer_lawful : writer.Lawful where
  encodeBytes_append_inj := encodeBytes_append_inj
  encodeBytes_ne_nil := encodeBytes_ne_nil
  encodeList_inj := encodeList_inj
  encodeList_head := encodeList_head
  length_encodeBytes_le := length_encodeBytes_le
  length_encodeList_nil := rfl

namespace Writer

variable {W : Writer}

@[simp] theorem encodeItems_nil : W.encodeItems [] = [] := rfl

@[simp] theorem encodeItems_cons (data : Bytes) (rest : List Bytes) :
    W.encodeItems (data :: rest) = W.encodeBytes data ++ W.encodeItems rest := rfl

theorem encodeItems_append (as bs : List Bytes) :
    W.encodeItems (as ++ bs) = W.encodeItems as ++ W.encodeItems bs := List.flatMap_append

theorem Lawful.encodeItems_inj (hW : W.Lawful) {as bs : List Bytes}
    (has : ∀ a ∈ as, a.length < 2 ^ 64) (hbs : ∀ b ∈ bs, b.length < 2 ^ 64)
    (h : W.encodeItems as = W.encodeItems bs) : as = bs := by
  induction as generalizing bs with
  | nil =>
    cases bs with
    | nil => rfl
    | cons b bs =>
      rw [encodeItems_nil, encodeItems_cons] at h
      exact absurd (List.append_eq_nil_iff.1 h.symm).1 (hW.encodeBytes_ne_nil b)
  | cons a as ih =>
    cases bs with
    | nil =>
      rw [encodeItems_nil, encodeItems_cons] at h
      exact absurd (List.append_eq_nil_iff.1 h).1 (hW.encodeBytes_ne_nil a)
    | cons b bs =>
      rw [encodeItems_cons, encodeItems_cons] at h
      rw [List.forall_mem_cons] at has hbs
      obtain ⟨rfl, hrest⟩ := hW.encodeBytes_append_inj has.1 hbs.1 h
      rw [ih has.2 hbs.2 hrest]

theorem Lawful.length_encodeItems_le (hW : W.Lawful) {items : List Bytes}
    (hlen : ∀ a ∈ items, a.length < 2 ^ 64) :
    (W.encodeItems items).length ≤ (items.map List.length).sum + 9 * items.length := by
  induction items with
  | nil => exact Nat.zero_le _
  | cons a items ih =>
    rw [List.forall_mem_cons] at hlen
    have ha := hW.length_encodeBytes_le hlen.1
    have hrest := ih hlen.2
    rw [encodeItems_cons, List.length_append, List.map_cons, List.sum_cons, List.length_cons]
    omega

end Writer

end Rlp
