/-
Digests of key ranges.

`TreeRangeDigest` computes the root hash of a tree from the proofs of two keys and the entries
between them, which it is fed one by one in increasing order.  It keeps the last entry and the left
contour: the hashes to the left of the path to this entry.  A new entry closes the subtrees up to
the height at which its path leaves the old one.

* `rangeDigest_complete_sound` — with the entries of the range it returns the root hash, and with no
  others.
-/
import ViaCore.TreeGetters

namespace MerkleTree

open FullTree (climb sibling orient hashFrom)

/-! ### The digest -/

structure TreeRangeDigest where
  currentLeaf : LeafNode
  leftContour : Vector ValueHash 256

namespace TreeRangeDigest

def leftContourFrom (hasher : HashTree) (startKey : Key) (path : List ValueHash) (depth : ℕ) :
    Outcome Empty (List ValueHash) :=
  match extendMerklePath hasher path depth with
  | none => .ok []
  | some adjacentHash =>
    if depth < 256 then do
      let rest ← leftContourFrom hasher startKey path (depth + 1)
      .ok ((if startKey.bit depth then adjacentHash else hasher.emptySubtreeHash depth) :: rest)
    -- `start_key.bit(256)` is out of bounds
    else .panic
termination_by 256 - depth

def new (hasher : HashTree) (startKey : Key) (startEntry : TreeEntryWithProof) :
    Outcome Empty TreeRangeDigest := do
  let leftContour ← leftContourFrom hasher startKey startEntry.merklePath 0
  if h : leftContour.length = 256 then .ok ⟨.new startEntry.base, ⟨leftContour.toArray, h⟩⟩
  else .panic

def collapse (hasher : HashTree) (fullKey : Key) (state : ValueHash × Vector ValueHash 256)
    (depth : ℕ) : ValueHash × Vector ValueHash 256 :=
  let (hash, leftContour) := state
  let emptySubtreeHash := hasher.emptySubtreeHash depth
  let leftHash := leftContour[depth]?.getD 0
  (if fullKey.bit depth then hasher.hashBranch leftHash hash
    else hasher.hashBranch hash emptySubtreeHash,
    leftContour.setIfInBounds depth emptySubtreeHash)

def update (self : TreeRangeDigest) (hasher : HashTree) (entry : TreeEntry) :
    Outcome Empty TreeRangeDigest :=
  if self.currentLeaf.fullKey < entry.key then
    -- the keys differ, so the level is at most 256
    let divergingLevel := findDivergingBit self.currentLeaf.fullKey entry.key + 1
    let (hash, leftContour) := (List.range (256 - divergingLevel)).foldl
      (collapse hasher self.currentLeaf.fullKey)
      (hasher.hashLeaf self.currentLeaf.valueHash self.currentLeaf.leafIndex, self.leftContour)
    .ok ⟨.new entry, leftContour.setIfInBounds (256 - divergingLevel) hash⟩
  else .panic

def finalizeFrom (hasher : HashTree) (path : List ValueHash) (key : Key) :
    ℕ → List ValueHash → ValueHash → ValueHash
  | _, [], hash => hash
  | depth, left :: contour, hash =>
    match extendMerklePath hasher path depth with
    | none => hash
    | some right =>
      finalizeFrom hasher path key (depth + 1) contour
        (if key.bit depth then hasher.hashBranch left hash else hasher.hashBranch hash right)

def finalize (self : TreeRangeDigest) (hasher : HashTree) (finalEntry : TreeEntryWithProof) :
    Outcome Empty ValueHash := do
  let self ← self.update hasher finalEntry.base
  .ok (finalizeFrom hasher finalEntry.merklePath finalEntry.base.key 0 self.leftContour.toList
    (hasher.hashLeaf finalEntry.base.value finalEntry.base.leafIndex))

end TreeRangeDigest

/-- The digest of a range: it is started with a proof, updated with the entries, and finalized with
another proof. -/
def rangeDigest (hasher : HashTree) (startKey : Key) (start : TreeEntryWithProof)
    (entries : List TreeEntry) (final : TreeEntryWithProof) : Outcome Empty ValueHash := do
  let digest ← TreeRangeDigest.new hasher startKey start
  let digest ← entries.foldlM (fun digest entry => digest.update hasher entry) digest
  digest.finalize hasher final

/-! ### The left contour -/

/-- The left contour has the hashes of the subtrees to the left of the path to the current leaf, as
far as the leaves from number `first` on are known. -/
structure Folded (hasher : HashTree) (first : ℕ) (left : ℕ → ValueHash) (F : Contents)
    (digest : TreeRangeDigest) : Prop where
  first_le : first ≤ digest.currentLeaf.fullKey.toNat
  current : F digest.currentLeaf.fullKey
    = some (digest.currentLeaf.valueHash, digest.currentLeaf.leafIndex)
  last : ∀ key, F key ≠ none → key.toNat ≤ digest.currentLeaf.fullKey.toNat
  contour : ∀ d < 256, digest.currentLeaf.fullKey.toNat.testBit d = true →
    digest.leftContour[d]?.getD 0 = hashFrom hasher.hashBranch (leafHash hasher F) first left d
      (digest.currentLeaf.fullKey.toNat / 2 ^ d - 1)

section Digest

variable {hasher : HashTree} {first : ℕ} {left : ℕ → ValueHash} {F : Contents}
  {digest digest' : TreeRangeDigest} {entry : TreeEntry} {key : Key} {d i j : ℕ}

theorem div_two_pow_lt (key : Key) (hd : d ≤ 256) : key.toNat / 2 ^ d < 2 ^ (256 - d) := by
  refine Nat.div_lt_of_lt_mul ?_
  rw [← pow_add, show d + (256 - d) = 256 by omega]
  exact key.isLt

theorem toNat_of_div {k : ℕ} (hd : d ≤ 256) (hk : k / 2 ^ d < 2 ^ (256 - d)) :
    (BitVec.ofNat 256 k).toNat = k := by
  have hpow : 2 ^ 256 = 2 ^ (256 - d) * 2 ^ d := by
    rw [← pow_add, show 256 - d + d = 256 by omega]
  refine Nat.mod_eq_of_lt ?_
  rw [hpow]
  exact (Nat.div_lt_iff_lt_mul (by positivity)).1 hk

theorem Folded.vacant (h : Folded hasher first left F digest) (hlaw : hasher.Lawful) (hd : d ≤ 256)
    (hi : digest.currentLeaf.fullKey.toNat / 2 ^ d < i) (hbound : i < 2 ^ (256 - d)) :
    hashFrom hasher.hashBranch (leafHash hasher F) first left d i = hasher.emptySubtreeHash d := by
  have hfirst : first / 2 ^ d ≤ digest.currentLeaf.fullKey.toNat / 2 ^ d :=
    Nat.div_le_div_right h.first_le
  rw [FullTree.hashFrom_eq_hash_of_lt (by omega)]
  refine FullTree.hash_vacant hlaw _ hd fun k hk => ?_
  have hkey : F (BitVec.ofNat 256 k) = none := by
    by_contra hne
    have hle := h.last _ hne
    rw [toNat_of_div hd (by omega)] at hle
    have hdiv : k / 2 ^ d ≤ digest.currentLeaf.fullKey.toNat / 2 ^ d := Nat.div_le_div_right hle
    omega
  rw [leafHash, hkey]

/-- **The loop of `update`**: it climbs from the current leaf to a subtree that a greater key is not
in. -/
theorem Folded.collapse (h : Folded hasher first left F digest)
    (hlaw : hasher.Lawful) (hj : j ≤ 256)
    (hlt : digest.currentLeaf.fullKey.toNat / 2 ^ j < key.toNat / 2 ^ j) :
    ∃ contour, (List.range j).foldl
        (TreeRangeDigest.collapse hasher digest.currentLeaf.fullKey)
        (hasher.hashLeaf digest.currentLeaf.valueHash digest.currentLeaf.leafIndex,
          digest.leftContour)
        = (hashFrom hasher.hashBranch (leafHash hasher F) first left j
            (digest.currentLeaf.fullKey.toNat / 2 ^ j), contour) ∧
      ∀ d < 256, contour[d]?.getD 0
        = if d < j then hasher.emptySubtreeHash d else digest.leftContour[d]?.getD 0 := by
  induction j with
  | zero =>
    refine ⟨digest.leftContour, ?_, fun d _ => by rw [if_neg (Nat.not_lt_zero d)]⟩
    rw [List.range_zero, List.foldl_nil, pow_zero, Nat.div_one, FullTree.hashFrom_zero h.first_le,
      leafHash_toNat, h.current]
  | succ j ih =>
    have hhalf := FullTree.div_two_pow_succ digest.currentLeaf.fullKey.toNat j
    have hhalf' := FullTree.div_two_pow_succ key.toNat j
    have hbound := div_two_pow_lt key (show j ≤ 256 by omega)
    have hfirst : first / 2 ^ (j + 1) ≤ digest.currentLeaf.fullKey.toNat / 2 ^ (j + 1) :=
      Nat.div_le_div_right h.first_le
    obtain ⟨contour, hfold, hcontour⟩ := ih (by omega) (by omega)
    have hbit : digest.currentLeaf.fullKey.bit j =
        decide (digest.currentLeaf.fullKey.toNat / 2 ^ j % 2 = 1) := by
      rw [← Nat.testBit_eq_decide_div_mod_eq]
      exact (BitVec.testBit_toNat _).symm
    refine ⟨contour.setIfInBounds j (hasher.emptySubtreeHash j), ?_, fun d hd => ?_⟩
    · rw [List.range_succ, List.foldl_append, hfold, List.foldl_cons, List.foldl_nil,
        TreeRangeDigest.collapse, hcontour j (by omega), if_neg (lt_irrefl j),
        FullTree.hashFrom_succ hfirst, hbit]
      by_cases hodd : digest.currentLeaf.fullKey.toNat / 2 ^ j % 2 = 1
      · have htest : digest.currentLeaf.fullKey.toNat.testBit j = true := by
          rw [Nat.testBit_eq_decide_div_mod_eq, decide_eq_true hodd]
        simp only [decide_eq_true hodd, if_true]
        rw [h.contour j (by omega) htest,
          show digest.currentLeaf.fullKey.toNat / 2 ^ j - 1
            = 2 * (digest.currentLeaf.fullKey.toNat / 2 ^ (j + 1)) by omega,
          show 2 * (digest.currentLeaf.fullKey.toNat / 2 ^ (j + 1)) + 1
            = digest.currentLeaf.fullKey.toNat / 2 ^ j by omega]
      · -- there is nothing to the right yet
        simp only [decide_eq_false hodd, Bool.false_eq_true, if_false]
        rw [show 2 * (digest.currentLeaf.fullKey.toNat / 2 ^ (j + 1))
            = digest.currentLeaf.fullKey.toNat / 2 ^ j by omega,
          h.vacant hlaw (by omega) (Nat.lt_succ_self _) (by omega)]
    · rw [Vector.getElem?_setIfInBounds]
      rcases Nat.lt_trichotomy d j with hdj | rfl | hdj
      · rw [if_neg (by omega), hcontour d hd, if_pos hdj, if_pos (by omega)]
      · rw [if_pos rfl, if_pos hd, Option.getD_some, if_pos (Nat.lt_succ_self d)]
      · rw [if_neg (by omega), hcontour d hd, if_neg (by omega), if_neg (by omega)]

theorem exists_diverging_of_lt {old : Key} (hlt : old < key) :
    ∃ d < 256, 256 - (findDivergingBit old key + 1) = d ∧
      key.toNat / 2 ^ d = old.toNat / 2 ^ d + 1 ∧
      ∀ e, d < e → key.toNat / 2 ^ e = old.toNat / 2 ^ e := by
  have hlt' : old.toNat < key.toNat := BitVec.lt_def.1 hlt
  have hne : key ≠ old := fun heq => absurd hlt' (by rw [heq]; exact lt_irrefl _)
  obtain ⟨d, hd, hlevel, hsibling⟩ := exists_diverging (Nat.zero_le 64)
    (by rw [Nibbles.new_zero, Nibbles.new_zero] : Nibbles.new key 0 = Nibbles.new old 0) hne
  have hd' := (hsibling d).2 rfl
  refine ⟨d, by omega, by omega, ?_, fun e he => FullTree.div_of_sibling hd' he⟩
  have hbit : ¬ old.toNat.testBit d = true := (FullTree.lt_iff_testBit hd').not.1 hlt'.le.not_gt
  rw [hd', sibling, if_neg hbit]

theorem leafHash_write_of_ne (hne : key ≠ entry.key) :
    leafHash hasher (F.write entry) key.toNat = leafHash hasher F key.toNat := by
  rw [leafHash_toNat, leafHash_toNat, Contents.write, Function.update_of_ne hne]

/-- **One entry**: a greater key is taken, and the left contour follows its path. -/
theorem Folded.update (h : Folded hasher first left F digest) (hlaw : hasher.Lawful)
    (hlt : digest.currentLeaf.fullKey < entry.key) :
    ∃ digest', digest.update hasher entry = .ok digest' ∧ digest'.currentLeaf = .new entry ∧
      Folded hasher first left (F.write entry) digest' := by
  have hlt' : digest.currentLeaf.fullKey.toNat < entry.key.toNat := BitVec.lt_def.1 hlt
  obtain ⟨D, hD, hlevel, hnext, habove⟩ := exists_diverging_of_lt hlt
  obtain ⟨contour, hfold, hcontour⟩ := h.collapse hlaw hD.le
    (show digest.currentLeaf.fullKey.toNat / 2 ^ D < entry.key.toNat / 2 ^ D by omega)
  have hupdate : digest.update hasher entry = .ok ⟨.new entry, contour.setIfInBounds D
      (hashFrom hasher.hashBranch (leafHash hasher F) first left D
        (digest.currentLeaf.fullKey.toNat / 2 ^ D))⟩ := by
    simp only [TreeRangeDigest.update, if_pos hlt, hlevel, hfold]
  refine ⟨_, hupdate, rfl, h.first_le.trans hlt'.le, ?_, fun key hkey => ?_, fun d hd hbit => ?_⟩
  · exact Function.update_self ..
  · by_cases heq : key = entry.key
    · rw [heq]
      exact le_rfl
    · rw [Contents.write, Function.update_of_ne heq] at hkey
      exact (h.last key hkey).trans hlt'.le
  · have hodd : entry.key.toNat / 2 ^ d % 2 = 1 := by
      rw [Nat.testBit_eq_decide_div_mod_eq] at hbit
      exact of_decide_eq_true hbit
    have hbound : entry.key.toNat / 2 ^ d - 1 < 2 ^ (256 - d) :=
      lt_of_le_of_lt (Nat.sub_le _ 1) (div_two_pow_lt entry.key hd.le)
    -- the new entry is not to the left of its own path
    have hcongr : hashFrom hasher.hashBranch (leafHash hasher (F.write entry)) first left d
        (entry.key.toNat / 2 ^ d - 1) = hashFrom hasher.hashBranch (leafHash hasher F) first left d
        (entry.key.toNat / 2 ^ d - 1) := by
      refine FullTree.hashFrom_congr fun k _ hk => ?_
      have hbound' : k / 2 ^ d < 2 ^ (256 - d) := hk ▸ hbound
      rw [← toNat_of_div hd.le hbound'] at hk ⊢
      refine leafHash_write_of_ne fun heq => ?_
      rw [heq] at hk
      omega
    show (contour.setIfInBounds D _)[d]?.getD 0 = hashFrom hasher.hashBranch
      (leafHash hasher (F.write entry)) first left d (entry.key.toNat / 2 ^ d - 1)
    rw [hcongr, Vector.getElem?_setIfInBounds]
    rcases Nat.lt_trichotomy d D with hdD | rfl | hdD
    · -- a subtree between the old path and the new one
      have hmono : digest.currentLeaf.fullKey.toNat / 2 ^
        (d + 1) < entry.key.toNat / 2 ^ (d + 1) := by
        by_contra hge
        obtain ⟨f, rfl⟩ : ∃ f, D = d + 1 + f := ⟨D - (d + 1), by omega⟩
        have hdiv := Nat.div_le_div_right (c := 2 ^ f) (Nat.not_lt.1 hge)
        rw [Nat.div_div_eq_div_mul, Nat.div_div_eq_div_mul, ← pow_add] at hdiv
        omega
      have hhalf := FullTree.div_two_pow_succ digest.currentLeaf.fullKey.toNat d
      have hhalf' := FullTree.div_two_pow_succ entry.key.toNat d
      rw [if_neg (by omega), hcontour d hd, if_pos hdD, h.vacant hlaw hd.le (by omega) hbound]
    · rw [if_pos rfl, if_pos hd, Option.getD_some, hnext, Nat.add_sub_cancel]
    · have hsame := habove d hdD
      have hbit' : digest.currentLeaf.fullKey.toNat.testBit d = true := by
        rw [Nat.testBit_eq_decide_div_mod_eq, ← hsame, decide_eq_true hodd]
      rw [if_neg (by omega), hcontour d hd, if_neg (by omega), h.contour d hd hbit', hsame]

theorem lt_of_update (hok : digest.update hasher entry = .ok digest') :
    digest.currentLeaf.fullKey < entry.key := by
  rw [TreeRangeDigest.update] at hok
  split at hok
  · assumption
  · cases hok

variable {entries : List TreeEntry} {start : TreeEntryWithProof}

/-- **A list of entries** is taken if and only if the keys increase. -/
theorem Folded.updates (h : Folded hasher first left F digest) (hlaw : hasher.Lawful)
    (hkeys : (digest.currentLeaf.fullKey :: entries.map TreeEntry.key).IsChain (· < ·)) :
    ∃ digest', entries.foldlM (fun digest entry =>
      digest.update hasher entry) digest = .ok digest' ∧
      digest'.currentLeaf.fullKey
        = (entries.map TreeEntry.key).getLast?.getD digest.currentLeaf.fullKey ∧
      Folded hasher first left (F.writeAll entries) digest' := by
  induction entries generalizing digest F with
  | nil => exact ⟨digest, rfl, rfl, h⟩
  | cons entry entries ih =>
    rw [List.map_cons, List.isChain_cons_cons] at hkeys
    obtain ⟨next, hupdate, hcurrent, hnext⟩ := h.update hlaw hkeys.1
    obtain ⟨digest', hfold, hlast, hfolded⟩ := ih hnext (by rw [hcurrent]; exact hkeys.2)
    refine ⟨digest', by rw [List.foldlM_cons, hupdate, Outcome.ok_bind, hfold], ?_, hfolded⟩
    rw [hlast, hcurrent, List.map_cons, List.getLast?_cons, Option.getD_some]
    rfl

theorem isChain_of_updates
    (hok : entries.foldlM (fun digest entry => digest.update hasher entry) digest = .ok digest') :
    (digest.currentLeaf.fullKey :: entries.map TreeEntry.key).IsChain (· < ·) := by
  induction entries generalizing digest with
  | nil => exact List.isChain_singleton _
  | cons entry entries ih =>
    rw [List.foldlM_cons, Outcome.bind_eq_ok] at hok
    obtain ⟨next, hupdate, hrest⟩ := hok
    have hlt := lt_of_update hupdate
    have hcurrent : next.currentLeaf.fullKey = entry.key := by
      simp only [TreeRangeDigest.update, if_pos hlt, Outcome.ok.injEq] at hupdate
      rw [← hupdate]
      rfl
    rw [List.map_cons, List.isChain_cons_cons, ← hcurrent]
    exact ⟨hlt.trans_eq hcurrent.symm, ih hrest⟩

/-! ### The start and the end of a range -/

def startContour (hasher : HashTree) (startKey : Key) (start : TreeEntryWithProof) (d : ℕ) :
    ValueHash :=
  if startKey.bit d then adjacentHash hasher start.merklePath d else hasher.emptySubtreeHash d

theorem leftContourFrom_eq {startKey : Key} (hpath : start.merklePath.length ≤ 256) (hd : d ≤ 256) :
    TreeRangeDigest.leftContourFrom hasher startKey start.merklePath d
      = .ok ((List.range' d (256 - d)).map (startContour hasher startKey start)) := by
  induction hd using Nat.decreasingInduction with
  | self =>
    rw [TreeRangeDigest.leftContourFrom, extendMerklePath_of_ge hpath le_rfl]
    rfl
  | of_succ d hlt ih =>
    rw [TreeRangeDigest.leftContourFrom, extendMerklePath_of_lt hpath hlt]
    simp only [hlt, if_true]
    rw [ih, Outcome.ok_bind, ← Nat.sub_add_cancel (Nat.sub_pos_of_lt hlt), List.range'_succ,
      List.map_cons, Nat.sub_sub]
    rfl

theorem leftContourFrom_panics {startKey : Key} {path : List ValueHash} (hpath : 256 < path.length)
    (hd : d ≤ 256) : TreeRangeDigest.leftContourFrom hasher startKey path d = .panic := by
  induction hd using Nat.decreasingInduction with
  | self =>
    obtain ⟨adjacent, hadjacent⟩ := extendMerklePath_of_long hasher hpath (le_refl 256)
    rw [TreeRangeDigest.leftContourFrom, hadjacent]
    rfl
  | of_succ d hlt ih =>
    obtain ⟨adjacent, hadjacent⟩ := extendMerklePath_of_long hasher hpath hlt.le
    rw [TreeRangeDigest.leftContourFrom, hadjacent]
    simp only [hlt, if_true]
    rw [ih, Outcome.panic_bind]

variable (hasher) in
theorem new_folded (startKey : Key) (hpath : start.merklePath.length ≤ 256) :
    ∃ digest, TreeRangeDigest.new hasher startKey start = .ok digest ∧
      digest.currentLeaf = .new start.base ∧
      Folded hasher start.base.key.toNat (startContour hasher startKey start)
        (noContents.write start.base) digest := by
  have hnew : TreeRangeDigest.new hasher startKey start = .ok ⟨.new start.base,
      ⟨((List.range' 0 256).map (startContour hasher startKey start)).toArray, by simp⟩⟩ := by
    rw [TreeRangeDigest.new, leftContourFrom_eq hpath (Nat.zero_le _), Outcome.ok_bind,
      dif_pos (by simp)]
  refine ⟨_, hnew, rfl, le_rfl, Function.update_self .., fun key hkey => ?_, fun d hd hbit => ?_⟩
  · by_cases heq : key = start.base.key
    · rw [heq]
      exact le_rfl
    · exact absurd (Function.update_of_ne heq ..) hkey
  · change start.base.key.toNat.testBit d = true at hbit
    have hpos : start.base.key.toNat / 2 ^ d - 1 < start.base.key.toNat / 2 ^ d := by
      refine Nat.sub_lt ?_ Nat.one_pos
      rw [Nat.testBit_eq_decide_div_mod_eq] at hbit
      exact Nat.pos_of_ne_zero fun hzero => by simp [hzero] at hbit
    refine Eq.trans ?_ (FullTree.hashFrom_of_lt hpos).symm
    simp [hd]

def finalAdjacent (hasher : HashTree) (contour : List ValueHash) (final : TreeEntryWithProof)
    (d : ℕ) : ValueHash :=
  if final.base.key.toNat.testBit d then contour.getD d 0
  else (extendMerklePath hasher final.merklePath d).getD 0

variable (hasher) in
theorem finalizeFrom_eq_climb {contour : List ValueHash} (hlength : contour.length = 256)
    (final : TreeEntryWithProof) (x : ValueHash) (hd : d ≤ 256) :
    TreeRangeDigest.finalizeFrom hasher final.merklePath final.base.key d (contour.drop d)
        (climb hasher.hashBranch final.base.key.toNat (finalAdjacent hasher contour final) x d)
      = climb hasher.hashBranch final.base.key.toNat
        (finalAdjacent hasher contour final) x 256 := by
  induction hd using Nat.decreasingInduction with
  | self => rw [List.drop_of_length_le hlength.le, TreeRangeDigest.finalizeFrom]
  | of_succ d hlt ih =>
    obtain ⟨right, hright⟩ : ∃ right, extendMerklePath hasher final.merklePath d = some right := by
      rcases Nat.lt_or_ge 256 final.merklePath.length with hlong | hpath
      · exact extendMerklePath_of_long hasher hlong hlt.le
      · exact ⟨_, extendMerklePath_of_lt hpath hlt⟩
    have hbit : final.base.key.bit d = final.base.key.toNat.testBit d :=
      (BitVec.testBit_toNat _).symm
    have hstep : ∀ y, (if final.base.key.bit d then hasher.hashBranch contour[d] y
        else hasher.hashBranch y right)
        = hasher.hashBranch (orient (final.base.key.toNat.testBit d)
            (finalAdjacent hasher contour final d) y).1
          (orient (final.base.key.toNat.testBit d) (finalAdjacent hasher contour final d) y).2 := by
      intro y
      rw [← hashBranch_orient, hbit, finalAdjacent, hright, List.getD_eq_getElem?_getD,
        List.getElem?_eq_getElem (by omega)]
      split <;> rfl
    rw [List.drop_eq_getElem_cons (by omega), TreeRangeDigest.finalizeFrom, hright]
    simp only [hstep]
    exact ih

end Digest

section Range

variable (hasher : HashTree) (startKey : Key) (start : TreeEntryWithProof)
    (entries : List TreeEntry)
  (final : TreeEntryWithProof)

def fedEntries : List TreeEntry := start.base :: (entries ++ [final.base])

/-- The hash of a subtree, as far as it is known from the entries and the proof at the start. -/
def fedHash (d i : ℕ) : ValueHash :=
  hashFrom hasher.hashBranch (leafHash hasher (lastEntries (fedEntries start entries final)))
    start.base.key.toNat (startContour hasher startKey start) d i

def fedAdjacent (d : ℕ) : ValueHash :=
  if final.base.key.toNat.testBit d then
    fedHash hasher startKey start entries final d (sibling final.base.key.toNat d)
  else (extendMerklePath hasher final.merklePath d).getD 0

def fedClimb (d : ℕ) : ValueHash :=
  climb hasher.hashBranch final.base.key.toNat (fedAdjacent hasher startKey start entries final)
    (hasher.hashLeaf final.base.value final.base.leafIndex) d

variable {hasher startKey start entries final}

/-- **What the digest returns**, and when: the path at the start must not be too long, and the keys
must increase. -/
theorem rangeDigest_eq_ok_iff (hlaw : hasher.Lawful) {hash : ValueHash} :
    rangeDigest hasher startKey start entries final = .ok hash ↔
      start.merklePath.length ≤ 256 ∧
        ((fedEntries start entries final).map TreeEntry.key).IsChain (· < ·) ∧
        hash = fedClimb hasher startKey start entries final 256 := by
  have hdigest : rangeDigest hasher startKey start entries final = (do
      let digest ← TreeRangeDigest.new hasher startKey start
      let digest ← (entries ++ [final.base]).foldlM
        (fun digest entry => digest.update hasher entry) digest
      .ok (TreeRangeDigest.finalizeFrom hasher final.merklePath final.base.key 0
        digest.leftContour.toList (hasher.hashLeaf final.base.value final.base.leafIndex))) := by
    simp [rangeDigest, TreeRangeDigest.finalize, List.foldlM_append]
  rcases Nat.lt_or_ge 256 start.merklePath.length with hlong | hpath
  · rw [hdigest, TreeRangeDigest.new, leftContourFrom_panics hlong (Nat.zero_le _)]
    simp [Nat.not_le.2 hlong]
  obtain ⟨digest, hnew, hcurrent, hfolded⟩ := new_folded hasher startKey hpath
  rw [hdigest, hnew, Outcome.ok_bind, Outcome.bind_eq_ok]
  have hkeys : (fedEntries start entries final).map TreeEntry.key =
      digest.currentLeaf.fullKey :: (entries ++ [final.base]).map TreeEntry.key := by
    rw [hcurrent]
    rfl
  rw [hkeys]
  by_cases hchain : (digest.currentLeaf.fullKey ::
      (entries ++ [final.base]).map TreeEntry.key).IsChain (· < ·)
  swap
  · refine iff_of_false ?_ fun h => hchain h.2.1
    rintro ⟨digest', hok, -⟩
    exact hchain (isChain_of_updates hok)
  obtain ⟨digest', hfold, hlast, hfolded'⟩ := hfolded.updates hlaw hchain
  have hcurrent' : digest'.currentLeaf.fullKey = final.base.key := by
    simpa using hlast
  have hcontents : (noContents.write start.base).writeAll (entries ++ [final.base])
      = lastEntries (fedEntries start entries final) := by
    rw [← writeAll_noContents]
    rfl
  rw [hcontents] at hfolded'
  have hcontour := hfolded'.contour
  rw [hcurrent'] at hcontour
  -- the left contour has the hashes to the left of the path to the last entry
  have hadjacent : ∀ d < 256, finalAdjacent hasher digest'.leftContour.toList final d
      = fedAdjacent hasher startKey start entries final d := by
    intro d hd
    rw [finalAdjacent, fedAdjacent]
    split
    · rename_i hbit
      rw [List.getD_eq_getElem?_getD, Vector.getElem?_toList, hcontour d hd hbit, fedHash, sibling,
        if_pos hbit]
    · rfl
  have hfinal := finalizeFrom_eq_climb hasher
    (show digest'.leftContour.toList.length = 256 by simp) final
    (hasher.hashLeaf final.base.value final.base.leafIndex) (Nat.zero_le 256)
  rw [List.drop_zero, climb, FullTree.climb_congr hadjacent] at hfinal
  constructor
  · rintro ⟨digest'', hok, heq⟩
    cases hfold.symm.trans hok
    exact ⟨hpath, hchain, by rw [← Outcome.ok.inj heq, hfinal]; rfl⟩
  · rintro ⟨-, -, rfl⟩
    exact ⟨digest', hfold, by rw [hfinal]; rfl⟩

theorem lastEntries_eq_of_mem {written : List TreeEntry} {entry : TreeEntry}
    (hkeys : (written.map TreeEntry.key).Nodup) (hmem : entry ∈ written) :
    lastEntries written entry.key = some (entry.value, entry.leafIndex) := by
  cases hlast : lastEntries written entry.key with
  | none =>
    rw [lastEntries, Option.map_eq_none_iff, List.find?_eq_none] at hlast
    exact absurd (decide_eq_true rfl) (hlast entry (List.mem_reverse.2 hmem))
  | some v =>
    have heq := List.inj_on_of_nodup_map hkeys (mem_of_lastEntries hlast) hmem rfl
    rw [← heq]

theorem pairwise_of_isChain {keys : List Key} (h : keys.IsChain (· < ·)) : keys.Pairwise (· < ·) :=
  haveI : IsTrans Key (· < ·) := ⟨fun _ _ _ => BitVec.lt_trans⟩
  List.isChain_iff_pairwise.1 h

theorem nodup_of_isChain {keys : List Key} (h : keys.IsChain (· < ·)) : keys.Nodup :=
  (pairwise_of_isChain h).imp BitVec.ne_of_lt

/-- What may be fed between the proofs of two keys: all entries of the tree between them, and
perhaps empty entries for absent keys, in increasing order. -/
structure Between (M : Contents) (first last : Key) (entries : List TreeEntry) : Prop where
  increasing : (first :: (entries.map TreeEntry.key ++ [last])).IsChain (· < ·)
  entry_eq : ∀ entry ∈ entries, M.entry entry.key = entry
  complete : ∀ key, first < key → key < last → (M.entry key).isEmpty = false →
    ∃ entry ∈ entries, entry.key = key

variable {M : Contents} {first last : Key} {p q : TreeEntryWithProof}

theorem Between.leafHash_eq (h : Between M first last entries) (hp : p.base = M.entry first)
    (hq : q.base = M.entry last) (hvacant : hasher.hashLeaf 0 0 = hasher.emptySubtreeHash 0)
    {key : Key} (hfirst : first ≤ key) (hlast : key ≤ last) :
    leafHash hasher (lastEntries (fedEntries p entries q)) key.toNat =
      leafHash hasher M key.toNat := by
  have hkeys : (fedEntries p entries q).map TreeEntry.key =
      first :: (entries.map TreeEntry.key ++ [last]) := by
    rw [fedEntries, List.map_cons, List.map_append, List.map_singleton, hp, hq, Contents.entry_key,
      Contents.entry_key]
  have hentry : ∀ entry ∈ fedEntries p entries q, M.entry entry.key = entry := by
    intro entry hmem
    rw [fedEntries, List.mem_cons, List.mem_append, List.mem_singleton] at hmem
    rcases hmem with rfl | hmem | rfl
    · rw [hp, Contents.entry_key]
    · exact h.entry_eq entry hmem
    · rw [hq, Contents.entry_key]
  rw [leafHash_toNat, ← hashLeaf_entry hvacant]
  cases hfed : lastEntries (fedEntries p entries q) key with
  | some v => rw [hentry _ (mem_of_lastEntries hfed)]
  | none =>
    -- a key that was not fed is absent
    have hnot : ∀ entry ∈ fedEntries p entries q, entry.key ≠ key := by
      rintro entry hmem rfl
      rw [lastEntries_eq_of_mem (nodup_of_isChain (hkeys ▸ h.increasing)) hmem] at hfed
      cases hfed
    have hne : first ≠ key := by
      have hstart := hnot p.base (List.mem_cons_self ..)
      rwa [hp, Contents.entry_key] at hstart
    have hne' : key ≠ last := by
      have hend := hnot q.base
        (List.mem_cons_of_mem _ (List.mem_append_right _ (List.mem_singleton_self _)))
      rw [hq, Contents.entry_key] at hend
      exact hend.symm
    have hempty : (M.entry key).isEmpty = true := by
      by_contra hfull
      obtain ⟨entry, hmem, hkey⟩ := h.complete key (BitVec.lt_of_le_ne hfirst hne)
        (BitVec.lt_of_le_ne hlast hne') (by simpa using hfull)
      exact hnot entry (List.mem_cons_of_mem _ (List.mem_append_left _ hmem)) hkey
    rw [TreeEntry.isEmpty, Bool.and_eq_true, decide_eq_true_eq, decide_eq_true_eq] at hempty
    rw [hempty.1, hempty.2, hvacant]

section Complete

variable (hvacant : hasher.hashLeaf 0 0 = hasher.emptySubtreeHash 0) (hp : IsProof hasher M first p)
  (hq : IsProof hasher M last q) (h : Between M first last entries)
include hvacant hp hq h

theorem fedAdjacent_eq {d : ℕ} (hd : d < 256) : fedAdjacent hasher first p entries q d
    = FullTree.hash hasher.hashBranch (leafHash hasher M) d (sibling last.toNat d) := by
  have hpkey : p.base.key = first := by rw [hp.base_eq, Contents.entry_key]
  have hqkey : q.base.key = last := by rw [hq.base_eq, Contents.entry_key]
  have hlt : first.toNat < last.toNat :=
    BitVec.lt_def.1 ((List.pairwise_cons.1 (pairwise_of_isChain h.increasing)).1 last
      (List.mem_append_right _ (List.mem_singleton_self _)))
  rw [fedAdjacent, hqkey]
  split
  -- to the left of the last path: hashed from what was fed
  · rename_i hbit
    have hleft : ∀ e ≤ d, first.toNat.testBit e = true → startContour hasher first p e =
        FullTree.hash hasher.hashBranch (leafHash hasher M) e (sibling first.toNat e) := by
      intro e he hbit'
      have hbit'' : first.bit e = true := by
        rw [← hbit']
        exact (BitVec.testBit_toNat _).symm
      rw [startContour, if_pos hbit'', hp.adjacent_eq e (by omega)]
      rfl
    rw [← FullTree.hashFrom_sibling hlt.le hleft hbit, fedHash, hpkey]
    refine FullTree.hashFrom_congr fun k hfirst hk => ?_
    have hbound := toNat_of_sibling hd hk
    have hle : k ≤ last.toNat := ((FullTree.lt_iff_testBit hk).2 hbit).le
    rw [← hbound]
    refine h.leafHash_eq hp.base_eq hq.base_eq hvacant ?_ ?_
    · rw [BitVec.le_def, hbound]
      exact hfirst
    · rw [BitVec.le_def, hbound]
      exact hle
  · rw [extendMerklePath_of_lt hq.length_le hd, Option.getD_some, hq.adjacent_eq d hd]
    rfl

theorem fedClimb_eq {d : ℕ} (hd : d ≤ 256) : fedClimb hasher first p entries q d
    = FullTree.hash hasher.hashBranch (leafHash hasher M) d (last.toNat / 2 ^ d) := by
  have hleaf : hasher.hashLeaf q.base.value q.base.leafIndex = leafHash hasher M last.toNat := by
    rw [hq.base_eq, hashLeaf_entry hvacant]
  rw [fedClimb, hq.base_eq, Contents.entry_key, ← hq.base_eq, hleaf, FullTree.climb_eq_hash]
  exact fun e he => fedAdjacent_eq hvacant hp hq h (by omega)

/-- **The digest is complete**: with the proofs of two keys and the entries between them, it returns
the root hash. -/
theorem rangeDigest_complete (hlaw : hasher.Lawful) :
    rangeDigest hasher first p entries q = .ok (treeHash hasher M) := by
  have hkeys : (fedEntries p entries q).map TreeEntry.key =
      first :: (entries.map TreeEntry.key ++ [last]) := by
    rw [fedEntries, List.map_cons, List.map_append, List.map_singleton, hp.base_eq, hq.base_eq,
      Contents.entry_key, Contents.entry_key]
  rw [rangeDigest_eq_ok_iff hlaw]
  refine ⟨hp.length_le, hkeys ▸ h.increasing, ?_⟩
  rw [fedClimb_eq hvacant hp hq h le_rfl, Nat.div_eq_of_lt last.isLt]
  rfl

end Complete

/-! ### Soundness -/

variable (hasher startKey start entries final) in
/-- The inputs of `hash_branch` in a digest: in the subtrees between the two paths, and on the path
to the last entry. -/
def fedBranches : Set (ValueHash × ValueHash) :=
  {q | ∃ d < 256, ∃ i, start.base.key.toNat / 2 ^ (d + 1) ≤ i ∧
      i < final.base.key.toNat / 2 ^ (d + 1) ∧
      q = (fedHash hasher startKey start entries final d (2 * i),
        fedHash hasher startKey start entries final d (2 * i + 1))} ∪
    {q | ∃ d < 256, q = orient (final.base.key.toNat.testBit d)
      (fedAdjacent hasher startKey start entries final d)
      (fedClimb hasher startKey start entries final d)}

variable (start entries final) in
def fedLeaves : Set (ValueHash × UInt64) :=
  {q | ∃ entry ∈ fedEntries start entries final, q = (entry.value, entry.leafIndex)}

theorem fedEntries_range
    (h : ((fedEntries start entries final).map TreeEntry.key).IsChain (· < ·)) {entry : TreeEntry}
    (hmem : entry ∈ fedEntries start entries final) :
    start.base.key ≤ entry.key ∧ entry.key ≤ final.base.key := by
  have hpairwise := pairwise_of_isChain h
  rw [fedEntries, List.map_cons, List.pairwise_cons] at hpairwise
  obtain ⟨hstart, hrest⟩ := hpairwise
  rw [List.map_append, List.pairwise_append] at hrest
  have hend : start.base.key < final.base.key :=
    hstart _ (List.mem_map_of_mem (List.mem_append_right _ (List.mem_singleton_self _)))
  rw [fedEntries, List.mem_cons, List.mem_append, List.mem_singleton] at hmem
  rcases hmem with rfl | hmem | rfl
  · exact ⟨BitVec.le_refl _, BitVec.le_of_lt hend⟩
  · exact ⟨BitVec.le_of_lt (hstart _ (List.mem_map_of_mem (List.mem_append_left _ hmem))),
      BitVec.le_of_lt (hrest.2.2 _ (List.mem_map_of_mem hmem) _ (List.mem_singleton_self _))⟩
  · exact ⟨BitVec.le_of_lt hend, BitVec.le_refl _⟩

theorem leafHash_eq_of_fedClimb
    (hinj : Set.InjOn (fun q : ValueHash × ValueHash => hasher.hashBranch q.1 q.2)
      (treeBranches hasher M ∪ fedBranches hasher startKey start entries final))
    (hkeys : ((fedEntries start entries final).map TreeEntry.key).IsChain (· < ·))
    (hroot : fedClimb hasher startKey start entries final 256 = treeHash hasher M) {key : Key}
    (hfirst : start.base.key ≤ key) (hlast : key ≤ final.base.key) :
    leafHash hasher (lastEntries (fedEntries start entries final)) key.toNat
      = leafHash hasher M key.toNat := by
  have hzero : final.base.key.toNat / 2 ^ 256 = 0 := Nat.div_eq_of_lt final.base.key.isLt
  rw [treeHash, ← hzero] at hroot
  obtain ⟨hleaf, hadjacent⟩ := FullTree.climb_sound hinj (fun d hd => .inl ⟨d, hd, _, rfl⟩)
    (fun d hd => .inr (.inr ⟨d, hd, rfl⟩)) hroot
  by_cases hend : key = final.base.key
  · have hmem : final.base ∈ fedEntries start entries final :=
      List.mem_cons_of_mem _ (List.mem_append_right _ (List.mem_singleton_self _))
    rw [hend, ← hleaf, leafHash_toNat, lastEntries_eq_of_mem (nodup_of_isChain hkeys) hmem]
  -- the subtree to the left of the last path that the key is in
  obtain ⟨d, hd, -, hsibling⟩ := exists_diverging (Nat.zero_le 64)
    (by rw [Nibbles.new_zero, Nibbles.new_zero] :
      Nibbles.new key 0 = Nibbles.new final.base.key 0) hend
  have hkey := (hsibling d).2 rfl
  have hlt : key.toNat < final.base.key.toNat := BitVec.lt_def.1 (BitVec.lt_of_le_ne hlast hend)
  have hbit := (FullTree.lt_iff_testBit hkey).1 hlt
  have hhash := hadjacent d (by omega)
  rw [fedAdjacent, if_pos hbit, fedHash] at hhash
  refine FullTree.hashFrom_sound hinj (b := final.base.key.toNat)
    (fun e he j => .inl ⟨e, by omega, j, rfl⟩)
    (fun e he j hge hj => .inr (.inl ⟨e, by omega, j, hge, hj, rfl⟩)) ?_ hhash
    (BitVec.le_def.1 hfirst) hkey
  have hle : key.toNat / 2 ^ d ≤ final.base.key.toNat / 2 ^ d := Nat.div_le_div_right hlt.le
  have hne := FullTree.sibling_ne final.base.key.toNat d
  rw [hkey] at hle
  exact lt_of_le_of_ne hle hne.symm

/-- **The digest is sound**: if it returns the root hash, then the entries that are not empty are
those of the tree between the two keys. -/
theorem rangeDigest_entries (hlaw : hasher.Lawful)
    (hfree : hasher.CollisionFree
      (treeBranches hasher M ∪ fedBranches hasher startKey start entries final)
      (treeLeaves M ∪ fedLeaves start entries final))
    (hok : rangeDigest hasher startKey start entries final = .ok (treeHash hasher M))
    (entry : TreeEntry) (hfull : entry.isEmpty = false) :
    entry ∈ fedEntries start entries final ↔
      start.base.key ≤ entry.key ∧ entry.key ≤ final.base.key ∧ M.entry entry.key = entry := by
  obtain ⟨-, hkeys, hroot⟩ := (rangeDigest_eq_ok_iff hlaw).1 hok
  have hsame : ∀ {entry : TreeEntry}, entry ∈ fedEntries start entries final →
      M.entry entry.key = entry := by
    intro entry hmem
    obtain ⟨hfirst, hlast⟩ := fedEntries_range hkeys hmem
    have hhash := leafHash_eq_of_fedClimb hfree.branch hkeys hroot.symm hfirst hlast
    rw [leafHash_toNat, lastEntries_eq_of_mem (nodup_of_isChain hkeys) hmem] at hhash
    have hsub : treeLeaves M ∪ {(entry.value, entry.leafIndex)} ⊆
        treeLeaves M ∪ fedLeaves start entries final :=
      Set.union_subset_union_right _ (Set.singleton_subset_iff.2 ⟨entry, hmem, rfl⟩)
    exact entry_eq_of_leafHash_eq (hfree.mono (Set.empty_subset _) hsub) hhash
  constructor
  · intro hmem
    exact ⟨(fedEntries_range hkeys hmem).1, (fedEntries_range hkeys hmem).2, hsame hmem⟩
  · rintro ⟨hfirst, hlast, heq⟩
    have hhash := leafHash_eq_of_fedClimb hfree.branch hkeys hroot.symm hfirst hlast
    cases hfed : lastEntries (fedEntries start entries final) entry.key with
    | some v =>
      have hmem := mem_of_lastEntries hfed
      rw [← heq, hsame hmem]
      exact hmem
    | none =>
      -- the tree has a leaf with the hash of a vacant one
      rw [leafHash_toNat, leafHash_toNat, hfed] at hhash
      rw [Contents.entry] at heq
      cases hM : M entry.key with
      | none =>
        rw [hM] at heq
        rw [← heq] at hfull
        exact absurd hfull (by simp [TreeEntry.isEmpty, TreeEntry.empty])
      | some v =>
        rw [hM] at heq hhash
        obtain rfl := hfree.vacant v (.inl ⟨_, hM⟩) hhash.symm
        rw [← heq] at hfull
        exact absurd hfull (by simp [TreeEntry.isEmpty])

end Range

section Versions

variable {DB : Type} [Database DB] [LawfulDatabase DB] {hasher : HashTree} {db db' : DB}

/-- **Range digests are complete and sound.**  The entries of a version between two keys have its
root hash as their digest, with empty entries for absent keys or without; and whatever has this
digest are the entries of the version, if there is no collision. -/
theorem rangeDigest_complete_sound (hlaw : hasher.Lawful)
    (hvacant : hasher.hashLeaf 0 0 = hasher.emptySubtreeHash 0)
    (iteration : WorkingPatchSet.IterationOrder)
    (hempty : (Database.manifestOrDefault db).versionCount = 0) {batches : List (List TreeEntry)}
    {outputs : List BlockOutput} (hall : extendAll hasher iteration db batches = .ok (outputs, db'))
    {i : ℕ} {output : BlockOutput} (hi : outputs[i]? = some output) :
    (∀ first last : Key, first < last →
      ∃ p q, entriesWithProofs hasher db' i [first, last] = .ok (.ok [p, q]) ∧
        ∀ entries, Between (lastEntries (batches.take (i + 1)).flatten) first last entries →
          rangeDigest hasher first p entries q = .ok output.rootHash) ∧
    ∀ startKey start entries final,
      hasher.CollisionFree
        (treeBranches hasher (lastEntries (batches.take (i + 1)).flatten) ∪
          fedBranches hasher startKey start entries final)
        (treeLeaves (lastEntries (batches.take (i + 1)).flatten) ∪ fedLeaves start entries final) →
      rangeDigest hasher startKey start entries final = .ok output.rootHash →
      ∀ entry, entry.isEmpty = false →
        (entry ∈ fedEntries start entries final ↔
          start.base.key ≤ entry.key ∧ entry.key ≤ final.base.key ∧
            (lastEntries (batches.take (i + 1)).flatten).entry entry.key = entry) := by
  obtain ⟨outputs', db'', hall', -, hversions⟩ := extendAll_versions hlaw iteration hempty batches
  cases hall.symm.trans hall'
  obtain ⟨hhas, hroot, -⟩ := hversions i output hi
  rw [hroot]
  refine ⟨fun first last _ => ?_, fun startKey start entries final hfree hok entry hfull =>
    rangeDigest_entries hlaw hfree hok entry hfull⟩
  -- what is left is completeness, with these two proofs
  obtain ⟨proofs, hproofs, hforall⟩ := hhas.entriesWithProofs_eq hlaw [first, last]
  obtain ⟨p, rest, hp, hrest, rfl⟩ := List.forall₂_cons_left_iff.1 hforall
  obtain ⟨q, rest, hq, hnil, rfl⟩ := List.forall₂_cons_left_iff.1 hrest
  obtain rfl := List.forall₂_nil_left_iff.1 hnil
  exact ⟨p, q, hproofs, fun entries hbetween => rangeDigest_complete hvacant hp hq hbetween hlaw⟩

end Versions

theorem fedBranches_subset {hasher : HashTree} {M : Contents} {last : Key}
    {p q : TreeEntryWithProof} {entries : List TreeEntry}
    (hvacant : hasher.hashLeaf 0 0 = hasher.emptySubtreeHash 0) (hp : IsProof hasher M 0 p)
    (hq : IsProof hasher M last q) (h : Between M 0 last entries) :
    fedBranches hasher 0 p entries q ⊆ treeBranches hasher M := by
  have hqkey : q.base.key = last := by rw [hq.base_eq, Contents.entry_key]
  rintro b (⟨d, hd, i, -, hi, rfl⟩ | ⟨d, hd, rfl⟩)
  · refine ⟨d, hd, i, ?_⟩
    have hfed : ∀ j, j / 2 = i → fedHash hasher 0 p entries q d j
        = FullTree.hash hasher.hashBranch (leafHash hasher M) d j := by
      rintro j rfl
      have hpkey : p.base.key.toNat = 0 := by
        rw [hp.base_eq, Contents.entry_key]
        rfl
      rw [fedHash, hpkey, FullTree.hashFrom_start]
      refine FullTree.hash_congr _ _ _ fun k hk => ?_
      -- the subtree ends before the last key
      have hlt : k < last.toNat := by
        rw [hqkey, ← hk, ← FullTree.div_two_pow_succ] at hi
        exact lt_of_not_ge fun hge => Nat.not_lt.2 (Nat.div_le_div_right hge) hi
      have hbound : (BitVec.ofNat 256 k).toNat = k := by
        rw [BitVec.toNat_ofNat, Nat.mod_eq_of_lt (hlt.trans last.isLt)]
      rw [← hbound]
      refine h.leafHash_eq hp.base_eq hq.base_eq hvacant ?_ ?_
      · exact BitVec.le_def.2 (Nat.zero_le _)
      · rw [BitVec.le_def, hbound]
        exact hlt.le
    rw [hfed _ (by omega), hfed _ (by omega)]
  · refine ⟨d, hd, last.toNat / 2 ^ (d + 1), ?_⟩
    rw [hqkey, fedAdjacent_eq hvacant hp hq h hd, fedClimb_eq hvacant hp hq h hd.le,
      FullTree.orient_hash]

theorem between_soleEntry :
    Between (lastEntries [soleEntry]) 0 (soleEntry.key + 1) [soleEntry] := by
  refine ⟨by decide, fun entry hentry => ?_, fun key _ _ hfull => ⟨_, List.mem_cons_self, ?_⟩⟩
  · obtain rfl := List.mem_singleton.1 hentry
    rfl
  · by_contra hne
    rw [Contents.entry, lastEntries_soleEntry, if_neg (Ne.symm hne)] at hfull
    cases hfull

theorem rangeDigest_complete_sound_sole :
    ∃ outputs db' output p q,
      extendAll plainHasher sampleOrder PatchSet.empty [[soleEntry]] = .ok (outputs, db') ∧
      outputs[0]? = some output ∧
      entriesWithProofs plainHasher db' 0 [0, soleEntry.key + 1] = .ok (.ok [p, q]) ∧
      rangeDigest plainHasher 0 p [soleEntry] q = .ok output.rootHash ∧
      ∀ entry : TreeEntry, entry.isEmpty = false →
        (entry ∈ fedEntries p [soleEntry] q ↔ p.base.key ≤ entry.key ∧ entry.key ≤ q.base.key ∧
          (lastEntries [soleEntry]).entry entry.key = entry) := by
  obtain ⟨outputs, db', hall, hlength, hversions⟩ :=
    extendAll_versions plainHasher_lawful sampleOrder (rfl :
      (Database.manifestOrDefault PatchSet.empty).versionCount = 0) [[soleEntry]]
  have hlt : 0 < outputs.length := by
    rw [hlength]
    decide
  have hi : outputs[0]? = some outputs[0] := List.getElem?_eq_getElem hlt
  obtain ⟨proofs, hproofs, hforall⟩ :=
    (hversions 0 _ hi).1.entriesWithProofs_eq plainHasher_lawful [0, soleEntry.key + 1]
  obtain ⟨hcomplete, hsound⟩ :=
    rangeDigest_complete_sound plainHasher_lawful rfl sampleOrder rfl hall hi
  obtain ⟨p, q, hpq, hdigest⟩ := hcomplete 0 (soleEntry.key + 1) (by decide)
  rw [hproofs] at hpq
  obtain rfl : proofs = [p, q] := by simpa using hpq
  obtain ⟨hp, hrest⟩ := List.forall₂_cons.1 hforall
  obtain ⟨hq, -⟩ := List.forall₂_cons.1 hrest
  have hok := hdigest [soleEntry] between_soleEntry
  refine ⟨outputs, db', outputs[0], p, q, hall, hi, hproofs, hok,
    hsound 0 p [soleEntry] q (plainHasher_collisionFree.mono (Set.union_subset
      treeBranches_soleEntry ((fedBranches_subset rfl hp hq between_soleEntry).trans
        treeBranches_soleEntry)) (Set.union_subset treeLeaves_soleEntry ?_)) hok⟩
  rintro b ⟨entry, hmem, rfl⟩
  rw [fedEntries, hp.base_eq, hq.base_eq] at hmem
  fin_cases hmem
  · exact .inr rfl
  · exact .inl rfl
  · exact .inr rfl

end MerkleTree
