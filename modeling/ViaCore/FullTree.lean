/-
The hash of a full binary tree.

The leaves are numbered from the left.  The subtree of height `h` with number `i` has the leaves
`k` with `k / 2 ^ h = i`, so a subtree with few occupied leaves can be hashed without visiting the
others.

* `FullTree.hash` — the hash of one subtree;
* `FullTree.hash_congr` — it depends on the leaves of the subtree only;
* `FullTree.hash_vacant` — the hash of a subtree without an occupied leaf;
* `FullTree.hash_single` — the hash of a subtree with one occupied leaf, climbing from the leaf;
* `FullTree.Row` — a row of neighbouring subtrees, some of them known to be vacant.
-/
import Mathlib

namespace FullTree

variable {H : Type} (branch : H → H → H)

/-- The hash of the subtree of height `h` with number `i`. -/
def hash (leaf : ℕ → H) : ℕ → ℕ → H
  | 0, i => leaf i
  | h + 1, i => branch (hash leaf h (2 * i)) (hash leaf h (2 * i + 1))

theorem div_two_pow_succ (k h : ℕ) : k / 2 ^ (h + 1) = k / 2 ^ h / 2 := by
  rw [pow_succ, Nat.div_div_eq_div_mul]

theorem hash_congr {leaf leaf' : ℕ → H} (h i : ℕ) (heq : ∀ k, k / 2 ^ h = i → leaf k = leaf' k) :
    hash branch leaf h i = hash branch leaf' h i := by
  induction h generalizing i with
  | zero => exact heq i (by simp)
  | succ h ih =>
    have hleft : hash branch leaf h (2 * i) = hash branch leaf' h (2 * i) := by
      refine ih (2 * i) fun k hk => heq k ?_
      rw [div_two_pow_succ]
      omega
    have hright : hash branch leaf h (2 * i + 1) = hash branch leaf' h (2 * i + 1) := by
      refine ih (2 * i + 1) fun k hk => heq k ?_
      rw [div_two_pow_succ]
      omega
    rw [hash, hash, hleft, hright]

section Vacant

variable {branch} {leaf : ℕ → H} {empty : ℕ → H} {height : ℕ}
  (hempty : ∀ d < height, empty (d + 1) = branch (empty d) (empty d))

include hempty in
theorem hash_vacant {h : ℕ} (i : ℕ) (hh : h ≤ height)
    (hleaf : ∀ k, k / 2 ^ h = i → leaf k = empty 0) : hash branch leaf h i = empty h := by
  induction h generalizing i with
  | zero => exact hleaf i (by simp)
  | succ h ih =>
    have hleft : hash branch leaf h (2 * i) = empty h := by
      refine ih (2 * i) (by omega) fun k hk => hleaf k ?_
      rw [div_two_pow_succ]
      omega
    have hright : hash branch leaf h (2 * i + 1) = empty h := by
      refine ih (2 * i + 1) (by omega) fun k hk => hleaf k ?_
      rw [div_two_pow_succ]
      omega
    rw [hash, hleft, hright, hempty h (by omega)]

include hempty in
/-- **One occupied leaf.**  A subtree in which only the leaf `k` is occupied is hashed by climbing
from the leaf, with an empty subtree on the other side at every level. -/
theorem hash_single {h : ℕ} (k : ℕ) (hh : h ≤ height)
    (hleaf : ∀ k', k' / 2 ^ h = k / 2 ^ h → k' ≠ k → leaf k' = empty 0) :
    hash branch leaf h (k / 2 ^ h) =
      (List.range h).foldl (fun acc d =>
        if k.testBit d then branch (empty d) acc else branch acc (empty d)) (leaf k) := by
  induction h with
  | zero => simp [hash]
  | succ h ih =>
    have hbelow : hash branch leaf h (k / 2 ^ h) =
        (List.range h).foldl (fun acc d =>
          if k.testBit d then branch (empty d) acc else branch acc (empty d)) (leaf k) := by
      refine ih (by omega) fun k' hk' hne => hleaf k' ?_ hne
      rw [div_two_pow_succ, div_two_pow_succ, hk']
    -- the sibling of the subtree that holds `k` is vacant
    have hsibling : ∀ i, i / 2 = k / 2 ^ h / 2 → i ≠ k / 2 ^ h →
      hash branch leaf h i = empty h := by
      intro i hi hne
      refine hash_vacant hempty i (by omega) fun k' hk' => hleaf k' ?_ ?_
      · rw [div_two_pow_succ, div_two_pow_succ, hk', hi]
      · intro heq
        rw [heq] at hk'
        exact hne hk'.symm
    have hbit : k.testBit h = decide (k / 2 ^ h % 2 = 1) := Nat.testBit_eq_decide_div_mod_eq
    rw [List.range_succ, List.foldl_append, List.foldl_cons, List.foldl_nil, ← hbelow, hash, hbit,
      div_two_pow_succ]
    by_cases hodd : k / 2 ^ h % 2 = 1
    · have hself : 2 * (k / 2 ^ h / 2) + 1 = k / 2 ^ h := by omega
      rw [if_pos (decide_eq_true hodd), hself, hsibling _ (by omega) (by omega)]
    · have hself : 2 * (k / 2 ^ h / 2) = k / 2 ^ h := by omega
      have hother : ¬ decide (k / 2 ^ h % 2 = 1) = true := by simpa using hodd
      rw [if_neg hother, hself, hsibling (k / 2 ^ h + 1) (by omega) (by omega)]

end Vacant

/-- The first `width` entries of the row are the hashes of the subtrees of height `h` from number
`first` on, where `none` stands for the hash of an empty subtree. -/
def Row (leaf : ℕ → H) (empty : ℕ → H) (h first width : ℕ) (row : List (Option H)) : Prop :=
  width ≤ row.length ∧
    ∀ j < width, (row.getD j none).getD (empty h) = hash branch leaf h (first + j)

theorem Row.take {branch : H → H → H} {leaf empty : ℕ → H} {h first width : ℕ}
    {row : List (Option H)} (hrow : Row branch leaf empty h first width row) :
    Row branch leaf empty h first width (row.take width) := by
  obtain ⟨hlen, hhash⟩ := hrow
  refine ⟨by rw [List.length_take]; omega, fun j hj => ?_⟩
  rw [List.getD_eq_getElem?_getD, List.getElem?_take_of_lt hj, ← List.getD_eq_getElem?_getD,
    hhash j hj]

end FullTree
